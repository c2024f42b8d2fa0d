import UnyDesk.Clipboard.Content
import UnyDesk.Lib.Machine

/-!
# The shared clipboard

What is copied on a desktop is announced to its peers and put on their clipboards. A clipboard that was set for a peer
carries a marker of its owner, and a marked clipboard is not announced when it changes, whichever side has marked it. So
what came from a peer is passed on to nobody.
-/

namespace UnyDesk.ClipboardService

open Lib List

/-- A host is controlled, a client controls. -/
inductive ClipboardSide
  | host
  | client

def ClipboardSide.getOwnerData : ClipboardSide → Bytes
  | .host => [0b01]
  | .client => [0b10]

/-- The bits of both sides count on either. -/
def ClipboardSide.isOwner (_side : ClipboardSide) : Bytes → Bool
  | [] => false
  | b :: _ => b &&& 0b11 ≠ 0

/-- `RUSTDESK_CLIPBOARD_OWNER_FORMAT` -/
def ownerFormat : String := "dyn.com.rustdesk.owner"

def appendOwnerMarker (data : List ClipboardData) (side : ClipboardSide) : List ClipboardData :=
  data ++ [.special ownerFormat side.getOwnerData]

structure Env where
  codec : Codec
  /-- What `arboard` reads of the supported formats after the clipboard was set. -/
  arboard : List ClipboardData → List ClipboardData
  /-- The feature `unix-file-copy-paste`. -/
  fileCopyPaste : Bool

/-- A marker that is set is read back. -/
def Env.KeepsMarkers (env : Env) : Prop :=
  ∀ data side, .special ownerFormat (ClipboardSide.getOwnerData side) ∈ env.arboard (appendOwnerMarker data side)

section Reading

variable (env : Env) (board : List ClipboardData) (side : ClipboardSide) (force : Bool)

/-- `ClipboardContext::get_formats` of a clipboard that is not occupied. -/
def getFormats : List ClipboardData := (env.arboard board).filter (· ≠ .unsupported "None")

def isMarker : ClipboardData → Bool
  | .special s d => s = ownerFormat && side.isOwner d
  | _ => false

/-- An empty text is not shared, and neither is the marker. -/
def isShared : ClipboardData → Bool
  | .special s _ => s ≠ ownerFormat
  | .text text => text ≠ ""
  | _ => true

def getFormatsFilter : List ClipboardData :=
  let data := getFormats env board
  if data.isEmpty then data
  else if !force && data.any (isMarker side) then []
  else data.filter isShared

/-- `ClipboardContext::get` -/
def get : List ClipboardData :=
  let data := getFormatsFilter env board side force
  -- Files have a service of their own.
  if env.fileCopyPaste && data.contains (.unsupported "FileUrl") then [] else data

def readClipboardMessage : Option (List Clipboard) :=
  let content := get env board side force
  if content.isEmpty then none else some (createMultiClipboards env.codec content)

end Reading

/-- A desktop, whose services announce its clipboard. What local programs have copied and what was announced is kept,
the latest first. -/
structure Desktop where
  board : List ClipboardData
  /-- The threads of `update_clipboard` that wait for the clipboard. -/
  updates : List (List Clipboard × ClipboardSide) := []
  copied : List (List ClipboardData) := [board]
  announced : List (List Clipboard) := []

inductive Event
  /-- A local program sets the clipboard. -/
  | copy (data : List ClipboardData)
  /-- A peer sends any clipboard. -/
  | receive (multiClipboards : List Clipboard) (side : ClipboardSide)
  /-- A thread of `update_clipboard` gets the clipboard; setting it may fail. -/
  | update (i : ℕ) (fails : Bool)
  /-- `set_text_clipboard_with_owner_sync`, and the placeholder for files of a peer. -/
  | setWithOwner (text : String) (side : ClipboardSide)
  /-- A service handles a change. Reading may fail, and the message may be withheld. -/
  | change (side : ClipboardSide) (fails withheld : Bool)

variable (env : Env)

/-- `update_clipboard_` -/
def updateClipboard (multiClipboards : List Clipboard) (side : ClipboardSide) (s : Desktop) : Desktop :=
  let toUpdateData := fromMultiClipboards env.codec multiClipboards
  if toUpdateData.isEmpty then s else { s with board := appendOwnerMarker toUpdateData side }

def step (s : Desktop) : Event → Desktop
  | .copy data => { s with board := data, copied := data :: s.copied }
  | .receive multiClipboards side => { s with updates := s.updates ++ [(multiClipboards, side)] }
  | .update i fails =>
    match s.updates[i]? with
    | some (multiClipboards, side) =>
      let s := { s with updates := s.updates.eraseIdx i }
      if fails then s else updateClipboard env multiClipboards side s
    | none => s
  | .setWithOwner text side => { s with board := appendOwnerMarker [.text text] side }
  | .change side fails withheld =>
    match readClipboardMessage env s.board side false with
    | some msg => if fails || withheld then s else { s with announced := msg :: s.announced }
    | none => s

/-- The clipboard was copied here or is marked, and what was announced was copied here. -/
structure Own (s : Desktop) : Prop where
  board : s.board ∈ s.copied ∨ ∃ data side, s.board = appendOwnerMarker data side
  announced : ∀ msg ∈ s.announced, ∃ data ∈ s.copied,
    msg = createMultiClipboards env.codec ((getFormats env data).filter isShared)

variable {env} {board : List ClipboardData} {side : ClipboardSide} {s : Desktop}

/-- Either side takes the marker of either side for one. -/
theorem isMarker_owner (side' : ClipboardSide) : isMarker side (.special ownerFormat side'.getOwnerData) = true := by
  cases side' <;> rfl

theorem readClipboardMessage_marked (hmarkers : env.KeepsMarkers) (data : List ClipboardData)
    (side' : ClipboardSide) : readClipboardMessage env (appendOwnerMarker data side') side false = none := by
  have hmem : .special ownerFormat side'.getOwnerData ∈ getFormats env (appendOwnerMarker data side') :=
    mem_filter.mpr ⟨hmarkers data side', rfl⟩
  have hmarked : (getFormats env (appendOwnerMarker data side')).any (isMarker side) = true :=
    any_eq_true.mpr ⟨_, hmem, isMarker_owner side'⟩
  have hempty : getFormatsFilter env (appendOwnerMarker data side') side false = [] := by
    unfold getFormatsFilter
    dsimp only
    rw [if_neg (by simpa using ne_nil_of_mem hmem), hmarked]
    rfl
  rw [readClipboardMessage, get, hempty, ite_self]
  rfl

theorem eq_of_readClipboardMessage {msg : List Clipboard} (hread : readClipboardMessage env board side false = some msg) :
    msg = createMultiClipboards env.codec ((getFormats env board).filter isShared) := by
  unfold readClipboardMessage get getFormatsFilter at hread
  grind

/-- Every step keeps what is announced local. -/
theorem Own.step (hmarkers : env.KeepsMarkers) (h : Own env s) (e : Event) : Own env (step env s e) := by
  cases e with
  | copy data =>
    refine ⟨.inl mem_cons_self, fun msg hmsg => ?_⟩
    obtain ⟨data', hdata', heq⟩ := h.announced msg hmsg
    exact ⟨data', mem_cons_of_mem data hdata', heq⟩
  | receive multiClipboards side => exact ⟨h.board, h.announced⟩
  | update i fails =>
    unfold ClipboardService.step
    dsimp only
    split
    next multiClipboards side _ =>
      split
      · exact ⟨h.board, h.announced⟩
      · unfold updateClipboard
        dsimp only
        split
        · exact ⟨h.board, h.announced⟩
        · exact ⟨.inr ⟨_, side, rfl⟩, h.announced⟩
    next => exact h
  | setWithOwner text side => exact ⟨.inr ⟨_, side, rfl⟩, h.announced⟩
  | change side fails withheld =>
    unfold ClipboardService.step
    dsimp only
    split
    next msg hread =>
      split
      · exact h
      · refine ⟨h.board, fun msg' hmsg' => ?_⟩
        rcases mem_cons.mp hmsg' with rfl | hold
        · rcases h.board with hcopied | ⟨data, side', hboard⟩
          · exact ⟨s.board, hcopied, eq_of_readClipboardMessage hread⟩
          · -- a marked clipboard is not read
            rw [hboard, readClipboardMessage_marked hmarkers] at hread
            cases hread
        · exact h.announced msg' hold
    next => exact h

/-- Whatever peers send, and in whatever order threads run and changes are handled: what a desktop announces on a change
is the shared part of a clipboard that one of its own programs has set. -/
theorem announced_own (env : Env) (hmarkers : env.KeepsMarkers) (board : List ClipboardData) (events : List Event) :
    ∀ msg ∈ (runEvents (step env) { board } events).announced, ∃ data ∈ (runEvents (step env) { board } events).copied,
        msg = createMultiClipboards env.codec ((getFormats env data).filter isShared) := by
  refine Own.announced (runEvents_invariant_of_step (I := Own env) (fun s e h => h.step hmarkers e) ?_ events)
  exact ⟨.inl mem_cons_self, fun msg hmsg => absurd hmsg not_mem_nil⟩

/-- A text is announced, and the one that comes back from the peer is not. -/
theorem announced_own_echo :
    let env : Env := ⟨sampleCodec, id, false⟩
    let s := runEvents (step env) { board := [.text "a"] }
      [.change .host false false, .receive (createMultiClipboards sampleCodec [.text "b"]) .host, .update 0 false,
        .change .client false false]
    s.announced = [createMultiClipboards sampleCodec [.text "a"]] ∧ ∀ msg ∈ s.announced, ∃ data ∈ s.copied,
      msg = createMultiClipboards sampleCodec ((getFormats env data).filter isShared) :=
  ⟨by decide, announced_own ⟨sampleCodec, id, false⟩ (fun _ _ => mem_append_right _ mem_cons_self) [.text "a"] _⟩

end UnyDesk.ClipboardService
