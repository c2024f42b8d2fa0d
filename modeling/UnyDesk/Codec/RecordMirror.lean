import UnyDesk.Codec.RecordUpload

/-!
# What the server has of a recording

The states reach the uploader in the order in which the recorder sends them, so that the uploader is done with a file when it
learns of the next one. What it reads agrees with the file behind the header for as long as the name leads to the file, and
the last read brings the header. An upload stops for one reason: the recorder has removed the file, and the uploader opens
its path before the removal reaches it. It then does not forward the removal either.
-/

namespace UnyDesk

open Lib Bool List Option Nat FileSystem Function

variable {place : UploaderPlace} {c uploadSize : ℕ}

section Order

/-- The states of a channel in the order of the files, for a reader that has taken `n` files. -/
inductive SentInOrder (naming : Naming) (endings : List Ending) : ℕ → Bool → List RecordState → ℕ → Bool → Prop
  | nil {n : ℕ} {isOpen : Bool} : SentInOrder naming endings n isOpen [] n isOpen
  | newFile {n m : ℕ} {isOpen : Bool} {rest : List RecordState} (tail : SentInOrder naming endings (n + 1) true rest m isOpen) :
      SentInOrder naming endings n false (.newFile (naming.path n) :: rest) m isOpen
  | newFrame {n m : ℕ} {isOpen : Bool} {rest : List RecordState} (tail : SentInOrder naming endings n true rest m isOpen) :
      SentInOrder naming endings n true (.newFrame :: rest) m isOpen
  | ended {n m : ℕ} {isOpen : Bool} {rest : List RecordState} {ending : Ending} {state : RecordState}
      (known : endings[n]? = some ending) (sent : state = ending.state)
      (tail : SentInOrder naming endings (n + 1) false rest m isOpen) :
      SentInOrder naming endings (n + 1) true (state :: rest) m isOpen

namespace SentInOrder

variable {naming : Naming} {endings endings' : List Ending} {n m l : ℕ} {isOpen isOpen' isOpen'' : Bool}
  {states states' : List RecordState}

section SentInOrder

variable (h : SentInOrder naming endings n isOpen states m isOpen')
include h

theorem append (h' : SentInOrder naming endings m isOpen' states' l isOpen'') :
    SentInOrder naming endings n isOpen (states ++ states') l isOpen'' := by
  induction h with
  | nil => exact h'
  | newFile _ ih => exact .newFile (ih h')
  | newFrame _ ih => exact .newFrame (ih h')
  | ended known sent _ ih => exact .ended known sent (ih h')

/-- More files are closed. -/
theorem mono (hmono : ∀ (k : ℕ) (ending : Ending), endings[k]? = some ending → endings'[k]? = some ending) :
    SentInOrder naming endings' n isOpen states m isOpen' := by
  induction h with
  | nil => exact .nil
  | newFile _ ih => exact .newFile ih
  | newFrame _ ih => exact .newFrame ih
  | ended known sent _ ih => exact .ended (hmono _ _ known) sent ih

theorem le : n ≤ m := by
  induction h with
  | nil => exact le_rfl
  | newFile _ ih => omega
  | newFrame _ ih => exact ih
  | ended _ _ _ ih => exact ih

/-- A reader between two files has yet to take one that is open. -/
theorem lt (hbefore : isOpen = false) (hafter : isOpen' = true) : n < m := by
  induction h with
  | nil => exact absurd (hbefore.symm.trans hafter) false_ne_true
  | newFile tail _ => exact tail.le
  | newFrame => cases hbefore
  | ended => cases hbefore

end SentInOrder

/-- What the first state of the channel can be. -/
theorem of_cons {state : RecordState} (h : SentInOrder naming endings n isOpen (state :: states) m isOpen') :
    (isOpen = false ∧ state = .newFile (naming.path n) ∧ SentInOrder naming endings (n + 1) true states m isOpen') ∨
    (isOpen = true ∧ state = .newFrame ∧ SentInOrder naming endings n true states m isOpen') ∨
    ∃ c ending, n = c + 1 ∧ isOpen = true ∧ endings[c]? = some ending ∧ state = ending.state ∧
      SentInOrder naming endings n false states m isOpen' := by
  cases h with
  | newFile tail => exact .inl ⟨rfl, rfl, tail⟩
  | newFrame tail => exact .inr (.inl ⟨rfl, rfl, tail⟩)
  | ended known sent tail => exact .inr (.inr ⟨_, _, rfl, rfl, known, sent, tail⟩)

end SentInOrder

end Order

/-- The end of a file is taken when its upload is flushed. -/
def Purpose.Fits (uploading : Bool) : Purpose → Prop
  | .frame flush => uploading = !flush
  | .tail => uploading = false

def UploaderPlace.Fits (uploading : Bool) : UploaderPlace → Prop
  | .idle => uploading = true
  | .opening purpose => purpose.Fits uploading
  | .opened _ purpose => purpose.Fits uploading
  | .reading _ _ flush _ => uploading = !flush

/-- A copy that gets its header is as long as the file. -/
def Purpose.Reached (copy data : List UInt8) : Purpose → Prop
  | .frame _ => True
  | .tail => data.length ≤ copy.length

/-- The copy of a file and what is being read from the file agree with it. -/
def UploaderPlace.Agrees (c : ℕ) (copy data : List UInt8) (uploadSize : ℕ) : UploaderPlace → Prop
  | .idle => Copies maxHeaderLen copy data uploadSize
  | .opening purpose => Copies maxHeaderLen copy data uploadSize ∧ purpose.Reached copy data
  | .opened file purpose => file = c ∧ Copies maxHeaderLen copy data uploadSize ∧ purpose.Reached copy data
  | .reading file len _ buf =>
    file = c ∧ uploadSize ≤ copy.length ∧ len ≤ data.length ∧
      Copies maxHeaderLen (overwrite copy uploadSize buf) data uploadSize

/-- A file that is still written grows under the uploader. -/
theorem UploaderPlace.Agrees.grow {copy data data' : List UInt8}
    (h : place.Agrees c copy data uploadSize) (hfits : place.Fits true)
    (hcopies : ∀ copy pos, Copies maxHeaderLen copy data pos → Copies maxHeaderLen copy data' pos)
    (hle : data.length ≤ data'.length) : place.Agrees c copy data' uploadSize := by
  cases place with
  | idle => exact hcopies copy uploadSize h
  | opening purpose =>
    cases purpose with
    | frame flush => exact ⟨hcopies copy uploadSize h.1, trivial⟩
    | tail => exact nomatch (show true = false from hfits)
  | opened file purpose =>
    cases purpose with
    | frame flush => exact ⟨h.1, hcopies copy uploadSize h.2.1, trivial⟩
    | tail => exact nomatch (show true = false from hfits)
  | reading file len flush buf => exact ⟨h.1, h.2.1, h.2.2.1.trans hle, hcopies _ uploadSize h.2.2.2⟩

namespace RecordUpload

variable {naming : Naming} {s s' : RecordUpload} {k : ℕ}

section RecorderSteps

/-- The recorder has sent `NewFile` for the file that it is at. -/
def isOpen (s : RecordUpload) : Bool := s.recorder = .recording || s.recorder = .removed

/-- How many files the recorder has sent `NewFile` for. -/
def announced (s : RecordUpload) : ℕ := s.endings.length + if s.isOpen then 1 else 0

/-- The recorder has removed the file. -/
def Gone (s : RecordUpload) (k : ℕ) : Prop :=
  s.endings[k]? = some .removed ∨ (s.recorder = .removed ∧ k = s.endings.length)

/-- The path of the file leads to it. -/
def Alive (naming : Naming) (s : RecordUpload) (k : ℕ) : Prop := s.disk.names (naming.place k) = some k

/-- The disk and the channel agree with what the recorder has done. -/
structure Recorded (naming : Naming) (s : RecordUpload) : Prop where
  next : s.disk.next = s.endings.length + if s.recorder = .idle then 0 else 1
  kept : ∀ k, s.endings[k]? = some .kept → s.Alive naming k
  writing : s.Writing → s.Alive naming s.endings.length
  gone : ∀ k, s.Gone k → s.Newest naming k → s.disk.names (naming.place k) = none
  inOrder : SentInOrder naming s.endings s.received s.uploading s.channel s.announced s.isOpen

/-- What a step of the recorder does to an upload: files grow behind the header, and paths stop leading to them. -/
structure Grows (naming : Naming) (s s' : RecordUpload) : Prop where
  alive : ∀ k, k < s.disk.next → s'.Alive naming k → s.Alive naming k
  data : ∀ k, k < s.endings.length → s'.disk.data k = s.disk.data k
  copies : s.recorder ≠ .idle → ∀ copy pos, Copies maxHeaderLen copy (s.disk.data s.endings.length) pos →
    Copies maxHeaderLen copy (s'.disk.data s.endings.length) pos
  endings : s.endings <+: s'.endings
  server : s'.server = s.server
  uploader : s'.uploader = s.uploader
  place : s'.place = s.place
  received : s'.received = s.received
  uploading : s'.uploading = s.uploading
  stranded : s'.stranded = s.stranded

open Grows

theorem Grows.refl (naming : Naming) (s : RecordUpload) : Grows naming s s :=
  ⟨fun _ _ h => h, fun _ _ => rfl, fun _ _ _ h => h, prefix_refl _, rfl, rfl, rfl, rfl, rfl, rfl⟩

section Recorded

variable (h : s.Recorded naming)
include h

namespace Recorded

theorem create : (s.create naming).Recorded naming ∧ Grows naming s (s.create naming) := by
  unfold RecordUpload.create
  split_ifs with hfree
  · obtain ⟨hidle, hnone⟩ := hfree
    have hnext : s.disk.next = s.endings.length := by rw [h.next, if_pos hidle, add_zero]
    have hfile : (s.disk.create (naming.place s.endings.length)).2 = s.endings.length := by
      rw [create_file_of_none hnone, hnext]
    have hmore : (s.disk.create (naming.place s.endings.length)).1.next = s.endings.length + 1 := by
      rw [create_next_of_none hnone, hnext]
    have hself : (s.disk.create (naming.place s.endings.length)).1.names (naming.place s.endings.length) =
        some s.endings.length := by
      rw [create_names_self, hfile]
    constructor
    · refine ⟨hmore, fun k hk => ?_, fun _ => hself, fun k hgone hnewest => ?_, ?_⟩
      · have hold : s.disk.names (naming.place k) = some k := h.kept k hk
        have hne : naming.place k ≠ naming.place s.endings.length := by
          intro heq
          rw [heq, hnone] at hold
          exact nomatch hold
        exact (create_names_of_ne s.disk hne).trans hold
      · have hremoved : s.endings[k]? = some .removed := hgone.resolve_right fun hplace => nomatch hplace.1
        obtain ⟨hlt, -⟩ := List.getElem?_eq_some_iff.mp hremoved
        have hne : naming.place k ≠ naming.place s.endings.length := by
          intro heq
          exact hnewest s.endings.length hlt (hmore ▸ lt_succ_self _) (naming.name_of_place heq.symm)
        refine (create_names_of_ne s.disk hne).trans (h.gone k (.inl hremoved) fun j hj hjnext => ?_)
        exact hnewest j hj (hmore ▸ hnext ▸ lt_succ_of_lt hjnext)
      · have hinOrder := h.inOrder
        rw [announced, isOpen, hidle] at hinOrder
        exact hinOrder
    · refine { refl naming s with alive := fun k hk halive => ?_, data := fun k hk => ?_, copies := fun hbusy => ?_ }
      · have hne : naming.place k ≠ naming.place s.endings.length := by
          intro heq
          rw [Alive, heq] at halive
          have hkeq : s.endings.length = k := Option.some.inj (hself.symm.trans halive)
          omega
        exact (create_names_of_ne s.disk hne).symm.trans halive
      · exact create_data_of_ne s.disk (by omega)
      · exact absurd hidle hbusy
  · exact ⟨h, .refl naming s⟩

theorem announce : (s.announce naming).Recorded naming ∧ Grows naming s (s.announce naming) := by
  unfold RecordUpload.announce
  split_ifs with hcreated
  · have halive := h.writing (.inl hcreated)
    have hnext := h.next
    have hinOrder := h.inOrder
    rw [announced, isOpen, hcreated] at hinOrder
    rw [hcreated] at hnext
    refine ⟨⟨hnext, h.kept, fun _ => halive, fun k hgone => ?_, hinOrder.append (.newFile .nil)⟩, { refl naming s with }⟩
    exact h.gone k (.inl (hgone.resolve_right fun hplace => nomatch hplace.1))
  · exact ⟨h, .refl naming s⟩

theorem write (pos : ℕ) (bytes : List UInt8) :
    (s.write pos bytes).Recorded naming ∧ Grows naming s (s.write pos bytes) := by
  unfold RecordUpload.write
  split_ifs with hwriting
  · refine ⟨⟨h.next, h.kept, h.writing, h.gone, h.inOrder⟩,
      { refl naming s with data := fun k hk => ?_, copies := fun _ copy from' hcopies => ?_ }⟩
    · exact write_data_of_ne s.disk (Nat.ne_of_lt hk) pos bytes
    · change Copies maxHeaderLen copy ((s.disk.write s.endings.length pos bytes).data s.endings.length) from'
      rw [write_data]
      obtain rfl | ⟨hpos, hheader⟩ := hwriting.2
      · rw [size, overwrite_length]
        exact hcopies.append bytes
      · exact hcopies.rewrite hheader hpos
  · exact ⟨h, .refl naming s⟩

theorem newFrame : s.newFrame.Recorded naming ∧ Grows naming s s.newFrame := by
  unfold RecordUpload.newFrame
  split_ifs with hrecording
  · have hinOrder := h.inOrder
    have hopen : s.isOpen = true := by rw [isOpen, hrecording]; rfl
    rw [hopen] at hinOrder
    refine ⟨⟨h.next, h.kept, h.writing, h.gone, ?_⟩, { refl naming s with }⟩
    change SentInOrder naming s.endings s.received s.uploading (s.channel ++ [.newFrame]) s.announced s.isOpen
    rw [hopen]
    exact hinOrder.append (.newFrame .nil)
  · exact ⟨h, .refl naming s⟩

/-- The rule for the end of a file. -/
theorem close {ending : Ending} (hopen : s.isOpen = true) (hkept : ending = .kept → s.Alive naming s.endings.length)
    (hgone : ending = .removed → s.recorder = .removed) :
    (s.close ending).Recorded naming ∧ Grows naming s (s.close ending) := by
  have hbusy : s.recorder ≠ .idle := by
    intro hidle
    rw [isOpen, hidle] at hopen
    exact Bool.false_ne_true hopen
  have hprefix : s.endings <+: s.endings ++ [ending] := List.prefix_append _ _
  have hlast : (s.endings ++ [ending])[s.endings.length]? = some ending := List.getElem?_concat_length
  have hcases : ∀ (k : ℕ) (e : Ending), (s.endings ++ [ending])[k]? = some e →
      s.endings[k]? = some e ∨ (k = s.endings.length ∧ e = ending) := by
    intro k e hk
    rcases lt_trichotomy k s.endings.length with hlt | rfl | hgt
    · rw [List.getElem?_append_left hlt] at hk
      exact .inl hk
    · exact .inr ⟨rfl, Option.some.inj (hk.symm.trans hlast)⟩
    · rw [List.getElem?_eq_none (by rw [List.length_append, List.length_singleton]; omega)] at hk
      exact nomatch hk
  have hinOrder := h.inOrder
  rw [announced, hopen] at hinOrder
  refine ⟨⟨?_, fun k hk => ?_, fun hwriting => ?_, fun k hk => ?_, ?_⟩, { refl naming s with endings := hprefix }⟩
  · change s.disk.next = (s.endings ++ [ending]).length + 0
    rw [h.next, if_neg hbusy, List.length_append, List.length_singleton]
  · rcases hcases k _ hk with hold | ⟨rfl, heq⟩
    · exact h.kept k hold
    · exact hkept heq.symm
  · rcases hwriting with hplace | hplace
    · exact nomatch hplace
    · exact nomatch hplace
  · have hremoved : (s.endings ++ [ending])[k]? = some .removed := hk.resolve_right fun hplace => nomatch hplace.1
    rcases hcases k _ hremoved with hold | ⟨rfl, heq⟩
    · exact h.gone k (.inl hold)
    · exact h.gone _ (.inr ⟨hgone heq.symm, rfl⟩)
  · change SentInOrder naming (s.endings ++ [ending]) s.received s.uploading (s.channel ++ [ending.state])
      ((s.endings ++ [ending]).length + 0) false
    rw [List.length_append, List.length_singleton]
    refine (hinOrder.mono fun k e hk => ?_).append (.ended hlast rfl .nil)
    obtain ⟨hlt, -⟩ := List.getElem?_eq_some_iff.mp hk
    rw [List.getElem?_append_left hlt]
    exact hk

theorem keep : s.keep.Recorded naming ∧ Grows naming s s.keep := by
  unfold RecordUpload.keep
  split_ifs with hrecording
  · have hopen : s.isOpen = true := by rw [isOpen, hrecording]; rfl
    exact h.close hopen (fun _ => h.writing (.inr hrecording)) nofun
  · exact ⟨h, .refl naming s⟩

theorem announceRemoval : s.announceRemoval.Recorded naming ∧ Grows naming s s.announceRemoval := by
  unfold RecordUpload.announceRemoval
  split_ifs with hremoved
  · have hopen : s.isOpen = true := by rw [isOpen, hremoved]; rfl
    exact h.close hopen nofun fun _ => hremoved
  · exact ⟨h, .refl naming s⟩

theorem remove : (s.remove naming).Recorded naming ∧ Grows naming s (s.remove naming) := by
  unfold RecordUpload.remove
  split_ifs with hrecording
  · have halive : s.Alive naming s.endings.length := h.writing (.inr hrecording)
    have hnext := h.next
    have hinOrder := h.inOrder
    rw [hrecording] at hnext
    rw [announced, isOpen, hrecording] at hinOrder
    have hnone : ∀ k, s.disk.names (naming.place k) = none →
        (s.disk.remove (naming.place s.endings.length)).names (naming.place k) = none := by
      intro k hk
      by_cases heq : naming.place k = naming.place s.endings.length
      · rw [heq]
        exact remove_names_self _ _
      · rw [remove_names_of_ne _ heq]
        exact hk
    refine ⟨⟨hnext, fun k hk => ?_, fun hwriting => ?_, fun k hgone hnewest => ?_, hinOrder⟩,
      { refl naming s with alive := fun k _ hk => ?_ }⟩
    · obtain ⟨hlt, -⟩ := List.getElem?_eq_some_iff.mp hk
      have hold : s.disk.names (naming.place k) = some k := h.kept k hk
      have hne : naming.place k ≠ naming.place s.endings.length := by
        intro heq
        rw [heq, show s.disk.names (naming.place s.endings.length) = some s.endings.length from halive] at hold
        exact ne_of_gt hlt (Option.some.inj hold)
      exact (remove_names_of_ne s.disk hne).trans hold
    · rcases hwriting with hplace | hplace
      · exact nomatch hplace
      · exact nomatch hplace
    · rcases hgone with hremoved | ⟨-, rfl⟩
      · exact hnone k (h.gone k (.inl hremoved) hnewest)
      · exact remove_names_self _ _
    · by_contra hold
      by_cases heq : naming.place k = naming.place s.endings.length
      · rw [Alive, heq] at hk
        exact nomatch (remove_names_self s.disk _).symm.trans hk
      · exact hold ((remove_names_of_ne s.disk heq).symm.trans hk)
  · exact ⟨h, .refl naming s⟩

end Recorded

end Recorded

end RecorderSteps

section UploaderSteps

variable {c : ℕ}

/-- What the server has of a file. -/
def copy (naming : Naming) (s : RecordUpload) (k : ℕ) : List UInt8 := (s.server (naming.name k)).getD []

/-- The end of the last file is not taken, or it is being worked on. -/
def Busy (s : RecordUpload) : Prop := s.uploading = true ∨ s.place ≠ .idle

/-- The uploader is done with the file. -/
def Settled (s : RecordUpload) (k : ℕ) : Prop := k + 1 < s.received ∨ (k + 1 = s.received ∧ ¬ s.Busy)

/-- No later file of the name has reached the uploader. -/
def Latest (naming : Naming) (s : RecordUpload) (k : ℕ) : Prop :=
  ∀ j, k < j → j < s.received → naming.name j ≠ naming.name k

/-- The server has the file if it was kept; it has a file that was removed if the upload stopped. -/
def Matches (naming : Naming) (s : RecordUpload) (k : ℕ) : Prop :=
  (s.endings[k]? = some .kept → s.server (naming.name k) = some (s.disk.data k)) ∧
  (s.endings[k]? = some .removed → (s.server (naming.name k) = none ↔ k ∉ s.stranded))

/-- The uploader forwards the file. -/
structure Sending (naming : Naming) (s : RecordUpload) (c : ℕ) : Prop where
  running : s.uploader.running = true
  filepath : s.uploader.filepath = naming.path c
  filename : s.uploader.filename = naming.name c
  unstranded : c ∉ s.stranded
  agrees : s.Alive naming c → s.place.Agrees c (s.copy naming c) (s.disk.data c) s.uploader.uploadSize

/-- The uploader has met an error with the file. -/
structure Stopped (s : RecordUpload) (c : ℕ) : Prop where
  running : s.uploader.running = false
  place : s.place = .idle
  stranded : c ∈ s.stranded

structure Current (naming : Naming) (s : RecordUpload) (c : ℕ) : Prop where
  fits : s.place.Fits s.uploading
  tail : s.uploading = false → s.endings[c]? = some .kept
  copied : s.server (naming.name c) ≠ none
  thread : s.Sending naming c ∨ s.Stopped c

/-- The server agrees with the files that the uploader has taken. -/
structure Uploaded (naming : Naming) (s : RecordUpload) : Prop where
  settled : ∀ k, s.Settled k → s.Latest naming k → s.Matches naming k
  dead : ∀ k ∈ s.stranded, k < s.received ∧ ¬ s.Alive naming k
  current : s.Busy → ∃ c, s.received = c + 1 ∧ s.Current naming c

theorem Settled.lt (h : s.Settled k) : k < s.received := by
  rcases h with hlt | ⟨heq, -⟩
  · omega
  · omega

theorem Recorded.received_le (h : s.Recorded naming) : s.received ≤ s.disk.next := by
  refine h.inOrder.le.trans ?_
  rw [h.next]
  unfold announced isOpen
  cases s.recorder with
  | idle => exact le_rfl
  | created => exact le_succ _
  | recording => exact le_rfl
  | removed => exact le_rfl

theorem Recorded.settled_lt (h : s.Recorded naming) (hk : s.Settled k) : k < s.endings.length := by
  have hle := h.inOrder.le
  unfold announced at hle
  rcases hk with hlt | ⟨heq, hidle⟩
  · split_ifs at hle <;> omega
  · cases hopen : s.isOpen with
    | false =>
      rw [hopen] at hle
      exact lt_of_succ_le (heq.trans_le hle)
    | true =>
      have huploading : s.uploading = false := eq_false_iff.mpr fun htrue => hidle (.inl htrue)
      have hlt := h.inOrder.lt huploading hopen
      rw [announced, hopen] at hlt
      change s.received < s.endings.length + 1 at hlt
      omega

section

variable (h : s.Uploaded naming)
include h

/-- The rule for a step of the recorder. -/
theorem Uploaded.grow (hrecorded : s.Recorded naming) (hgrows : Grows naming s s') : s'.Uploaded naming := by
  have hle := hrecorded.inOrder.le
  have hnext := hrecorded.next
  have hbusy : s'.Busy ↔ s.Busy := by
    unfold Busy
    rw [hgrows.uploading, hgrows.place]
  have hreceived := hrecorded.received_le
  have hendings : ∀ k, k < s.endings.length → s'.endings[k]? = s.endings[k]? := by
    intro k hk
    obtain ⟨more, hmore⟩ := hgrows.endings
    rw [← hmore, List.getElem?_append_left hk]
  refine ⟨fun k hsettled hlatest => ?_, fun k hk => ?_, fun hbusy' => ?_⟩
  · have hold : s.Settled k := by
      unfold Settled at hsettled ⊢
      rw [← hgrows.received, ← hbusy]
      exact hsettled
    have hlt := hrecorded.settled_lt hold
    have hmatches := h.settled k hold fun j hj hjr => hlatest j hj (hgrows.received ▸ hjr)
    unfold Matches
    rw [hendings k hlt, hgrows.server, hgrows.data k hlt, hgrows.stranded]
    exact hmatches
  · rw [hgrows.stranded] at hk
    obtain ⟨hlt, hdead⟩ := h.dead k hk
    exact ⟨hgrows.received ▸ hlt, fun halive => hdead (hgrows.alive k (hlt.trans_le hreceived) halive)⟩
  · obtain ⟨c, hc, hcurrent⟩ := h.current (hbusy.mp hbusy')
    refine ⟨c, hgrows.received.trans hc, ?_, fun hflush => ?_, ?_, ?_⟩
    · rw [hgrows.place, hgrows.uploading]
      exact hcurrent.fits
    · have hkept := hcurrent.tail (hgrows.uploading.symm.trans hflush)
      obtain ⟨hlt, -⟩ := List.getElem?_eq_some_iff.mp hkept
      rw [hendings c hlt]
      exact hkept
    · rw [hgrows.server]
      exact hcurrent.copied
    · rcases hcurrent.thread with hsending | hstopped
      · refine .inl ⟨?_, ?_, ?_, ?_, fun halive => ?_⟩
        · rw [hgrows.uploader]
          exact hsending.running
        · rw [hgrows.uploader]
          exact hsending.filepath
        · rw [hgrows.uploader]
          exact hsending.filename
        · rw [hgrows.stranded]
          exact hsending.unstranded
        · have hagrees := hsending.agrees (hgrows.alive c (by omega) halive)
          rw [copy, hgrows.server, hgrows.place, hgrows.uploader]
          rcases lt_or_ge c s.endings.length with hlt | hge
          · rw [hgrows.data c hlt]
            exact hagrees
          · -- The recorder has not closed the file.
            have huploading : s.uploading = true := by
              by_contra hfalse
              have hkept := hcurrent.tail (Bool.eq_false_iff.mpr hfalse)
              rw [List.getElem?_eq_none hge] at hkept
              exact nomatch hkept
            obtain ⟨rfl, hrecorder⟩ : c = s.endings.length ∧ s.recorder ≠ .idle := by
              constructor
              · split_ifs at hnext <;> omega
              · intro hidle
                rw [if_pos hidle] at hnext
                omega
            have hfits := hcurrent.fits
            rw [huploading] at hfits
            have hnil := hgrows.copies hrecorder (s.disk.data s.endings.length) 0 ⟨zero_le _, le_rfl, fun _ _ _ => rfl⟩
            exact hagrees.grow hfits (hgrows.copies hrecorder) hnil.le
      · refine .inr ⟨?_, ?_, ?_⟩
        · rw [hgrows.uploader]
          exact hstopped.running
        · rw [hgrows.place]
          exact hstopped.place
        · rw [hgrows.stranded]
          exact hstopped.stranded

/-- The rule for a step of the uploader on its file. -/
theorem Uploaded.work (hc : s.received = c + 1) (hreceived : s'.received = s.received)
    (hendings : s'.endings = s.endings) (hdisk : s'.disk = s.disk)
    (hserver : ∀ name, name ≠ naming.name c → s'.server name = s.server name)
    (hstranded : ∀ k, k ≠ c → (k ∈ s'.stranded ↔ k ∈ s.stranded)) (hdead : c ∈ s'.stranded → ¬ s'.Alive naming c)
    (hcurrent : s'.Busy → s'.Current naming c) (hmatches : ¬ s'.Busy → s'.Matches naming c) : s'.Uploaded naming := by
  refine ⟨fun k hsettled hlatest => ?_, fun k hk => ?_, fun hbusy => ⟨c, hreceived.trans hc, hcurrent hbusy⟩⟩
  · rcases hsettled with hlt | ⟨heq, hidle⟩
    · have hkc : k < c := by omega
      have hname : naming.name k ≠ naming.name c := (hlatest c hkc (by omega)).symm
      obtain ⟨hkept, hremoved⟩ := h.settled k (.inl (by omega)) fun j hj hjr => hlatest j hj (by omega)
      unfold Matches
      rw [hendings, hdisk, hserver _ hname, hstranded k (Nat.ne_of_lt hkc)]
      exact ⟨hkept, hremoved⟩
    · obtain rfl : k = c := by omega
      exact hmatches hidle
  · by_cases hkc : k = c
    · rw [hkc] at hk ⊢
      exact ⟨by omega, hdead hk⟩
    · obtain ⟨hlt, hold⟩ := h.dead k ((hstranded k hkc).mp hk)
      refine ⟨hreceived ▸ hlt, ?_⟩
      unfold Alive
      rw [hdisk]
      exact hold

/-- The uploader moves on without a word to the server. -/
theorem Uploaded.move (hc : s.received = c + 1) (hcurrent : s.Current naming c)
    (hsending : s.Sending naming c) (hfits : place.Fits s.uploading)
    (hagrees : s.Alive naming c → place.Agrees c (s.copy naming c) (s.disk.data c) s.uploader.uploadSize) :
    ({ s with place := place } : RecordUpload).Uploaded naming := by
  refine h.work hc rfl rfl rfl (fun _ _ => rfl) (fun _ _ => Iff.rfl) (fun hk => absurd hk hsending.unstranded)
    (fun _ => ⟨hfits, hcurrent.tail, hcurrent.copied, .inl { hsending with agrees := hagrees }⟩) fun hidle => ?_
  -- A place that is idle is left with a file that is not at its end.
  refine absurd ?_ hidle
  cases place with
  | idle => exact .inl hfits
  | opening => exact .inr nofun
  | opened => exact .inr nofun
  | reading => exact .inr nofun

end

theorem Current.sending (h : s.Current naming c) (hplace : s.place ≠ .idle) : s.Sending naming c :=
  h.thread.resolve_right fun hstopped => hplace hstopped.place

/-- What is known of a file that is being worked on. -/
theorem Uploaded.working (h : s.Uploaded naming) (hplace : s.place = place) (hbusy : place ≠ .idle) :
    ∃ c, s.received = c + 1 ∧ s.Current naming c ∧ s.Sending naming c ∧ place.Fits s.uploading ∧
      (s.Alive naming c → place.Agrees c (s.copy naming c) (s.disk.data c) s.uploader.uploadSize) := by
  have hidle : s.place ≠ .idle := hplace ▸ hbusy
  obtain ⟨c, hc, hcurrent⟩ := h.current (.inr hidle)
  have hsending := hcurrent.sending hidle
  exact ⟨c, hc, hcurrent, hsending, hplace ▸ hcurrent.fits, hplace ▸ hsending.agrees⟩

theorem Recorded.alive_of_flushed (h : s.Recorded naming) (hcurrent : s.Current naming c)
    (huploading : s.uploading = false) : s.Alive naming c :=
  h.kept c (hcurrent.tail huploading)

theorem Uploaded.openFile (h : s.Uploaded naming) (hrecorded : s.Recorded naming) : s.openFile.Uploaded naming := by
  unfold RecordUpload.openFile
  split
  next purpose hplace =>
    obtain ⟨c, hc, hcurrent, hsending, hfits, hagrees⟩ := h.working hplace nofun
    have hlocate : locate s.uploader.filepath = naming.place c := by rw [hsending.filepath]; rfl
    rw [hlocate]
    split
    next file hfile =>
      refine h.move hc hcurrent hsending hfits fun halive => ?_
      exact ⟨some.inj (hfile.symm.trans halive), hagrees halive⟩
    next hnone =>
      have hdead : ¬ s.Alive naming c := fun halive => nomatch hnone.symm.trans halive
      have huploading : s.uploading = true := by
        by_contra hfalse
        exact hdead (hrecorded.alive_of_flushed hcurrent (eq_false_iff.mpr hfalse))
      have hlast : s.received - 1 = c := by omega
      have hmem : c ∈ s.stranded ++ [s.received - 1] := by
        rw [hlast]
        exact mem_append_right _ mem_cons_self
      refine h.work hc rfl rfl rfl (fun _ _ => rfl) (fun k hk => ?_) (fun _ => hdead)
        (fun _ => ⟨huploading, hcurrent.tail, hcurrent.copied, .inr ⟨rfl, rfl, hmem⟩⟩) fun hbusy => absurd (.inl huploading) hbusy
      change k ∈ s.stranded ++ [s.received - 1] ↔ k ∈ s.stranded
      rw [hlast, mem_append, mem_singleton]
      exact or_iff_left hk
  next => exact h

/-- The place behind a frame. -/
theorem fits_afterFrame {uploading flush : Bool} (h : uploading = !flush) : (afterFrame flush).Fits uploading := by
  cases flush with
  | true => exact h
  | false => exact h

theorem agrees_afterFrame {copy data : List UInt8} {flush : Bool}
    (hcopies : Copies maxHeaderLen copy data uploadSize) (hreached : flush = true → data.length ≤ copy.length) :
    (afterFrame flush).Agrees c copy data uploadSize := by
  cases flush with
  | true => exact ⟨hcopies, hreached rfl⟩
  | false => exact hcopies

theorem Uploaded.metadata (h : s.Uploaded naming) : s.metadata.Uploaded naming := by
  unfold RecordUpload.metadata
  split
  next file flush hplace =>
    obtain ⟨c, hc, hcurrent, hsending, hfits, hagrees⟩ := h.working hplace nofun
    simp only
    split_ifs with hsmall
    · refine h.move hc hcurrent hsending (fits_afterFrame hfits) fun halive => ?_
      obtain ⟨rfl, hcopies, -⟩ := hagrees halive
      refine agrees_afterFrame hcopies fun hflush => ?_
      have hlen : (s.disk.data file).length ≤ s.uploader.uploadSize :=
        hsmall.resolve_right fun hframe => false_ne_true (hframe.1.symm.trans hflush)
      exact hlen.trans hcopies.reached
    · refine h.move hc hcurrent hsending hfits fun halive => ?_
      obtain ⟨rfl, hcopies, -⟩ := hagrees halive
      refine ⟨rfl, hcopies.reached, le_rfl, ?_⟩
      rw [overwrite_nil hcopies.reached]
      exact hcopies
  next => exact h

/-- The server writes what is sent into the copy. -/
theorem Sending.server_send (h : s.Sending naming c) (offset : ℕ) (body : List UInt8) :
    (s.send offset body).server = update s.server (naming.name c) (some (overwrite (s.copy naming c) offset body)) := by
  unfold send copy
  rw [h.filename]

theorem Uploaded.read (h : s.Uploaded naming) (n : ℕ) : (s.read n).Uploaded naming := by
  unfold RecordUpload.read
  split
  next file len flush buf hplace =>
    obtain ⟨c, hc, hcurrent, hsending, hfits, hagrees⟩ := h.working hplace nofun
    simp only
    split_ifs with hend
    · have hserver := hsending.server_send s.uploader.uploadSize buf
      have hself : (s.send s.uploader.uploadSize buf).server (naming.name c) =
          some (overwrite (s.copy naming c) s.uploader.uploadSize buf) := by
        rw [hserver, update_self]
      refine h.work hc rfl rfl rfl (fun name hname => ?_) (fun _ _ => Iff.rfl) (fun hk => absurd hk hsending.unstranded)
        (fun _ => ⟨fits_afterFrame hfits, hcurrent.tail, ?_, .inl ⟨hsending.running, hsending.filepath, hsending.filename,
          hsending.unstranded, fun halive => ?_⟩⟩) fun hnotBusy => ?_
      · change (s.send s.uploader.uploadSize buf).server name = _
        rw [hserver, update_of_ne hname]
      · change (s.send s.uploader.uploadSize buf).server (naming.name c) ≠ none
        rw [hself]
        exact some_ne_none _
      · obtain ⟨rfl, hreached, hlen, hcopies⟩ := hagrees halive
        change (afterFrame flush).Agrees file (((s.send s.uploader.uploadSize buf).server (naming.name file)).getD []) _ len
        rw [hself]
        -- The read that gives nothing starts behind the end of the file.
        have hlong : (s.disk.data file).length ≤ (overwrite (s.copy naming file) s.uploader.uploadSize buf).length := by
          have hdrop : (s.disk.data file).drop (s.uploader.uploadSize + buf.length) = [] := by
            have hzero := congrArg length hend
            rw [length_take, length_nil] at hzero
            exact length_eq_zero_iff.mp (by omega)
          rw [length_overwrite hreached]
          exact (drop_eq_nil_iff.mp hdrop).trans (le_max_right _ _)
        exact agrees_afterFrame (hcopies.reach (hlen.trans hlong)) fun _ => hlong
      · refine absurd ?_ hnotBusy
        cases flush with
        | true => exact .inr nofun
        | false => exact .inl hfits
    · refine h.move hc hcurrent hsending hfits fun halive => ?_
      obtain ⟨rfl, hreached, hlen, hcopies⟩ := hagrees halive
      have hstart : s.uploader.uploadSize + buf.length ≤ (overwrite (s.copy naming file) s.uploader.uploadSize buf).length := by
        rw [length_overwrite hreached]
        exact le_max_right _ _
      refine ⟨rfl, hreached, hlen, ?_⟩
      rw [← overwrite_append hreached]
      exact hcopies.read hstart (n + 1)
  next => exact h

theorem Uploaded.readTail (h : s.Uploaded naming) (hrecorded : s.Recorded naming) : s.readTail.Uploaded naming := by
  unfold RecordUpload.readTail
  split
  next file hplace =>
    obtain ⟨c, hc, hcurrent, hsending, huploading, hagrees⟩ := h.working hplace nofun
    have hkept := hcurrent.tail huploading
    obtain ⟨rfl, hcopies, hreached⟩ := hagrees (hrecorded.kept c hkept)
    have hserver := hsending.server_send 0 ((s.disk.data file).take maxHeaderLen)
    refine h.work hc rfl rfl rfl (fun name hname => ?_) (fun _ _ => Iff.rfl) (fun hk => absurd hk hsending.unstranded)
      (fun hbusy => ?_) fun _ => ⟨fun _ => ?_, fun hremoved => ?_⟩
    · change (s.send 0 ((s.disk.data file).take maxHeaderLen)).server name = _
      rw [hserver, update_of_ne hname]
    · rcases hbusy with htrue | hplace'
      · exact absurd (htrue.symm.trans huploading) false_ne_true.symm
      · exact absurd rfl hplace'
    · change (s.send 0 ((s.disk.data file).take maxHeaderLen)).server (naming.name file) = _
      rw [hserver, update_self, hcopies.complete hreached]
      rfl
    · exact nomatch hkept.symm.trans hremoved
  next => exact h

theorem handleNewFile_path (naming : Naming) (s : RecordUpload) (k : ℕ) : s.handleNewFile (naming.path k) = { s with
        uploader := { filepath := naming.path k, filename := naming.name k, uploadSize := 0, running := true }
        server := update s.server (naming.name k) (some []) } := by
  unfold handleNewFile
  rw [naming.fileName_path]

theorem Uploaded.onNewFile (h : s.Uploaded naming) (huploading : s.uploading = false) (hplace : s.place = .idle) :
    (s.onNewFile (naming.path s.received)).Uploaded naming := by
  have hidle : ¬ s.Busy := by
    rintro (htrue | hne)
    · exact false_ne_true (huploading.symm.trans htrue)
    · exact hne hplace
  have hself : update s.server (naming.name s.received) (some []) (naming.name s.received) = some [] :=
    update_self _ _ _
  unfold RecordUpload.onNewFile
  rw [handleNewFile_path]
  refine ⟨fun k hsettled hlatest => ?_, fun k hk => ?_, fun _ => ⟨s.received, rfl, ?_, nofun, ?_, .inl ⟨rfl, rfl, rfl, ?_, ?_⟩⟩⟩
  · have hlt : k < s.received := by
      rcases hsettled with hlt | ⟨-, hnotBusy⟩
      · exact lt_of_succ_lt_succ hlt
      · exact absurd (.inl rfl) hnotBusy
    have hold : s.Settled k := by
      rcases lt_or_eq_of_le (succ_le_of_lt hlt) with hbefore | heq
      · exact .inl hbefore
      · exact .inr ⟨heq, hidle⟩
    have hserver : update s.server (naming.name s.received) (some []) (naming.name k) = s.server (naming.name k) :=
      update_of_ne (hlatest s.received hlt (lt_succ_self _)).symm _ _
    obtain ⟨hkept, hremoved⟩ := h.settled k hold fun j hj hjr => hlatest j hj (lt_succ_of_lt hjr)
    refine ⟨fun hk => hserver.trans (hkept hk), fun hk => ?_⟩
    change update s.server (naming.name s.received) (some []) (naming.name k) = none ↔ k ∉ s.stranded
    rw [hserver]
    exact hremoved hk
  · obtain ⟨hlt, hdead⟩ := h.dead k hk
    exact ⟨lt_succ_of_lt hlt, hdead⟩
  · change s.place.Fits true
    rw [hplace]
    rfl
  · change update s.server (naming.name s.received) (some []) (naming.name s.received) ≠ none
    rw [hself]
    exact some_ne_none _
  · intro hmem
    exact lt_irrefl _ (h.dead s.received hmem).1
  · intro _
    change s.place.Agrees s.received ((update s.server (naming.name s.received) (some [])
      (naming.name s.received)).getD []) _ 0
    rw [hplace, hself]
    exact Copies.nil _ _

/-- A frame is taken while the file is open. -/
theorem Uploaded.onNewFrame (h : s.Uploaded naming) (huploading : s.uploading = true) (hplace : s.place = .idle) (due : Bool) :
    (s.onNewFrame due).Uploaded naming := by
  unfold RecordUpload.onNewFrame
  split_ifs with hdue
  · obtain ⟨c, hc, hcurrent⟩ := h.current (.inl huploading)
    have hrunning : s.uploader.running = true := (and_eq_true_iff.mp hdue).1
    have hsending : s.Sending naming c :=
      hcurrent.thread.resolve_right fun hstopped => false_ne_true (hstopped.running.symm.trans hrunning)
    refine h.move hc hcurrent hsending huploading fun halive => ?_
    have hagrees := hsending.agrees halive
    rw [hplace] at hagrees
    exact ⟨hagrees, trivial⟩
  · exact h

section Uploaded

variable (h : s.Uploaded naming) (hc : s.received = c + 1) (huploading : s.uploading = true)
  (hplace : s.place = .idle)
include h hc huploading hplace

/-- A file that was kept has not stopped the upload. -/
theorem Uploaded.onWriteTail (hkept : s.endings[c]? = some .kept) (halive : s.Alive naming c) :
    s.onWriteTail.Uploaded naming := by
  obtain ⟨c', hc', hcurrent⟩ := h.current (.inl huploading)
  obtain rfl : c = c' := by omega
  have hsending : s.Sending naming c :=
    hcurrent.thread.resolve_right fun hstopped => (h.dead c hstopped.stranded).2 halive
  have hagrees := hsending.agrees halive
  rw [hplace] at hagrees
  unfold RecordUpload.onWriteTail
  rw [if_pos hsending.running]
  refine h.work hc rfl rfl rfl (fun _ _ => rfl) (fun _ _ => Iff.rfl) (fun hk => absurd hk hsending.unstranded)
    (fun _ => ⟨rfl, fun _ => hkept, hcurrent.copied, .inl { hsending with agrees := fun _ => ⟨hagrees, trivial⟩ }⟩)
    fun hidle => absurd (.inr nofun) hidle

/-- The removal is forwarded unless the upload has stopped. -/
theorem Uploaded.onRemoveFile (hremoved : s.endings[c]? = some .removed) : s.onRemoveFile.Uploaded naming := by
  obtain ⟨c', hc', hcurrent⟩ := h.current (.inl huploading)
  obtain rfl : c = c' := by omega
  have hidle : ∀ {s' : RecordUpload}, s'.uploading = false → s'.place = .idle → ¬ s'.Busy := by
    rintro s' hfalse hidle (htrue | hne)
    · exact false_ne_true (hfalse.symm.trans htrue)
    · exact hne hidle
  have hkept : ∀ {P : Prop}, s.endings[c]? = some .kept → P := fun hk => nomatch hremoved.symm.trans hk
  unfold RecordUpload.onRemoveFile
  rcases hcurrent.thread with hsending | hstopped
  · rw [if_pos hsending.running]
    have hserver : s.handleRemove.server = update s.server (naming.name c) none := by
      unfold RecordUpload.handleRemove
      rw [hsending.filename]
    refine h.work hc rfl rfl rfl (fun name hname => ?_) (fun _ _ => Iff.rfl) (fun hk => absurd hk hsending.unstranded)
      (fun hbusy => absurd hbusy (hidle rfl hplace)) fun _ => ⟨hkept, fun _ => iff_of_true ?_ hsending.unstranded⟩
    · change s.handleRemove.server name = s.server name
      rw [hserver, update_of_ne hname]
    · change s.handleRemove.server (naming.name c) = none
      rw [hserver, update_self]
  · rw [if_neg (by rw [hstopped.running]; exact false_ne_true)]
    exact h.work hc rfl rfl rfl (fun _ _ => rfl) (fun _ _ => Iff.rfl) (fun hk => (h.dead c hk).2)
      (fun hbusy => absurd hbusy (hidle rfl hplace)) fun _ =>
        ⟨hkept, fun _ => iff_of_false hcurrent.copied (not_not_intro hstopped.stranded)⟩

end Uploaded

/-- The agreement of the disk with the recorder and of the server with the disk. -/
structure Synced (naming : Naming) (s : RecordUpload) : Prop where
  recorded : s.Recorded naming
  uploaded : s.Uploaded naming

/-- The disk and what the recorder is at are the same. -/
structure SameRecorder (s s' : RecordUpload) : Prop where
  disk : s'.disk = s.disk
  recorder : s'.recorder = s.recorder
  endings : s'.endings = s.endings

open SameRecorder

theorem SameRecorder.refl (s : RecordUpload) : SameRecorder s s := ⟨rfl, rfl, rfl⟩

/-- The rule for the first state of the channel. -/
theorem Recorded.taken (h : s.Recorded naming) (hsame : SameRecorder s s')
    (hinOrder : SentInOrder naming s.endings s'.received s'.uploading s'.channel s.announced s.isOpen) : s'.Recorded naming := by
  have hopen : s'.isOpen = s.isOpen := by rw [isOpen, isOpen, hsame.recorder]
  have hannounced : s'.announced = s.announced := by rw [announced, announced, hopen, hsame.endings]
  refine ⟨?_, ?_, ?_, ?_, ?_⟩
  · rw [hsame.disk, hsame.endings, hsame.recorder]
    exact h.next
  · unfold Alive
    rw [hsame.disk, hsame.endings]
    exact h.kept
  · unfold Alive Writing
    rw [hsame.disk, hsame.endings, hsame.recorder]
    exact h.writing
  · unfold Gone Newest
    rw [hsame.disk, hsame.endings, hsame.recorder]
    exact h.gone
  · rw [hsame.endings, hannounced, hopen]
    exact hinOrder

theorem Synced.recv (h : s.Synced naming) (due : Bool) : (s.recv due).Synced naming := by
  obtain ⟨hrecorded, huploaded⟩ := h
  unfold RecordUpload.recv
  split
  next state rest hplace hchannel =>
    have hinOrder := hrecorded.inOrder
    rw [hchannel] at hinOrder
    -- The channel is no part of what the server agrees with.
    have htaken : ({ s with channel := rest } : RecordUpload).Uploaded naming := by
      refine ⟨huploaded.settled, huploaded.dead, fun hbusy => ?_⟩
      obtain ⟨c, hc, hcurrent⟩ := huploaded.current hbusy
      refine ⟨c, hc, hcurrent.fits, hcurrent.tail, hcurrent.copied, ?_⟩
      rcases hcurrent.thread with hsending | hstopped
      · exact .inl { hsending with }
      · exact .inr { hstopped with }
    rcases hinOrder.of_cons with ⟨huploading, rfl, tail⟩ | ⟨huploading, rfl, tail⟩ |
      ⟨c, ending, hreceived, huploading, known, rfl, tail⟩
    · refine ⟨?_, htaken.onNewFile huploading hplace⟩
      change (RecordUpload.onNewFile _ _).Recorded naming
      unfold RecordUpload.onNewFile
      rw [handleNewFile_path]
      exact hrecorded.taken { refl s with } tail
    · refine ⟨?_, htaken.onNewFrame huploading hplace due⟩
      change (RecordUpload.onNewFrame _ due).Recorded naming
      unfold RecordUpload.onNewFrame
      split_ifs with hdue
      · exact hrecorded.taken { refl s with } (huploading ▸ tail)
      · exact hrecorded.taken { refl s with } (huploading ▸ tail)
    · cases ending with
      | kept =>
        have halive := hrecorded.kept c known
        exact ⟨hrecorded.taken { refl s with } tail, htaken.onWriteTail hreceived huploading hplace known halive⟩
      | removed =>
        refine ⟨?_, htaken.onRemoveFile hreceived huploading hplace known⟩
        change (RecordUpload.onRemoveFile _).Recorded naming
        unfold RecordUpload.onRemoveFile
        split_ifs with hrunning
        · exact hrecorded.taken { refl s with } tail
        · exact hrecorded.taken { refl s with } tail
  next => exact ⟨hrecorded, huploaded⟩

end UploaderSteps

section Runs

theorem Synced.grow (h : s.Synced naming) (hstep : s'.Recorded naming ∧ Grows naming s s') : s'.Synced naming :=
  ⟨hstep.1, h.uploaded.grow h.recorded hstep.2⟩

/-- What a step of the uploader on its file leaves alone. -/
structure Works (s s' : RecordUpload) : Prop extends SameRecorder s s' where
  channel : s'.channel = s.channel
  received : s'.received = s.received
  uploading : s'.uploading = s.uploading

open Works

theorem Works.refl (s : RecordUpload) : Works s s := ⟨.refl s, rfl, rfl, rfl⟩

theorem Recorded.works (h : s.Recorded naming) (hworks : Works s s') : s'.Recorded naming := by
  refine h.taken hworks.toSameRecorder ?_
  rw [hworks.received, hworks.uploading, hworks.channel]
  exact h.inOrder

section

variable (s : RecordUpload)

theorem works_openFile : Works s s.openFile := by
  unfold openFile
  split
  · split
    · exact { refl s with }
    · exact { refl s with }
  · exact .refl s

/-- No step but the opening of a file stops an upload. -/
theorem works_metadata : Works s s.metadata ∧ s.metadata.stranded = s.stranded := by
  unfold metadata
  split
  · simp only
    split_ifs with hsmall
    · exact ⟨{ refl s with }, rfl⟩
    · exact ⟨{ refl s with }, rfl⟩
  · exact ⟨.refl s, rfl⟩

theorem works_read (n : ℕ) : Works s (s.read n) ∧ (s.read n).stranded = s.stranded := by
  unfold read
  split
  · simp only
    split_ifs with hend
    · exact ⟨{ refl s with }, rfl⟩
    · exact ⟨{ refl s with }, rfl⟩
  · exact ⟨.refl s, rfl⟩

theorem works_readTail : Works s s.readTail ∧ s.readTail.stranded = s.stranded := by
  unfold readTail
  split
  · exact ⟨{ refl s with }, rfl⟩
  · exact ⟨.refl s, rfl⟩

end

theorem Synced.step (h : s.Synced naming) (event : RecordUploadEvent) : (s.step naming event).Synced naming := by
  cases event with
  | create => exact h.grow h.recorded.create
  | announce => exact h.grow h.recorded.announce
  | write pos bytes => exact h.grow (h.recorded.write pos bytes)
  | newFrame => exact h.grow h.recorded.newFrame
  | keep => exact h.grow h.recorded.keep
  | remove => exact h.grow h.recorded.remove
  | announceRemoval => exact h.grow h.recorded.announceRemoval
  | recv due => exact h.recv due
  | openFile => exact ⟨h.recorded.works (works_openFile s), h.uploaded.openFile h.recorded⟩
  | metadata => exact ⟨h.recorded.works (works_metadata s).1, h.uploaded.metadata⟩
  | read n => exact ⟨h.recorded.works (works_read s n).1, h.uploaded.read n⟩
  | readTail => exact ⟨h.recorded.works (works_readTail s).1, h.uploaded.readTail h.recorded⟩

theorem synced_start (naming : Naming) (server : String → Option (List UInt8)) : (start server).Synced naming := by
  have hnone : ∀ (k : ℕ) (ending : Ending), ([] : List Ending)[k]? ≠ some ending := fun k ending hk => nomatch hk
  constructor
  · refine ⟨rfl, fun k hk => absurd hk (hnone k _), fun hwriting => ?_, fun k _ _ => rfl, .nil⟩
    rcases hwriting with hplace | hplace
    · exact nomatch hplace
    · exact nomatch hplace
  · refine ⟨fun k hsettled => absurd hsettled.lt (not_lt_zero k), fun k hk => absurd hk not_mem_nil, fun hbusy => ?_⟩
    rcases hbusy with htrue | hplace
    · exact nomatch htrue
    · exact absurd rfl hplace

section Drained

variable (h : s.Synced naming) (hdrained : s.Drained)
include h hdrained

/-- The uploader is done with every file that is closed. -/
theorem Synced.settled_of_drained : s.received = s.announced ∧ ∀ k, k < s.endings.length → s.Settled k := by
  have hinOrder := h.recorded.inOrder
  rw [hdrained.1] at hinOrder
  obtain ⟨hreceived, huploading⟩ : s.received = s.announced ∧ s.uploading = s.isOpen := by
    generalize s.received = n, s.announced = m, s.uploading = uploading, s.isOpen = isOpen at hinOrder
    cases hinOrder
    exact ⟨rfl, rfl⟩
  refine ⟨hreceived, fun k hk => ?_⟩
  unfold announced at hreceived
  cases hopen : s.isOpen with
  | true =>
    rw [hopen] at hreceived
    refine .inl ?_
    change s.received = s.endings.length + 1 at hreceived
    omega
  | false =>
    rw [hopen] at hreceived
    change s.received = s.endings.length at hreceived
    rcases lt_or_eq_of_le (succ_le_of_lt hk) with hlt | heq
    · exact .inl (hlt.trans_eq hreceived.symm)
    · refine .inr ⟨heq.trans hreceived.symm, ?_⟩
      rintro (htrue | hplace)
      · exact false_ne_true (hopen.symm.trans (huploading.symm.trans htrue))
      · exact hplace hdrained.2

theorem Synced.matches_of_drained (hk : k < s.endings.length) (hnewest : s.Newest naming k) : s.Matches naming k :=
  h.uploaded.settled k ((h.settled_of_drained hdrained).2 k hk) fun j hj hjr =>
    hnewest j hj (hjr.trans_le h.recorded.received_le)

theorem Synced.mirrored (hstranded : s.stranded = []) : s.Mirrored naming := by
  intro k hnewest
  constructor
  · intro hkept
    obtain ⟨hlt, -⟩ := List.getElem?_eq_some_iff.mp hkept
    exact ⟨s.disk.data k, contents_of_names (h.recorded.kept k hkept),
      (h.matches_of_drained hdrained hlt hnewest).1 hkept⟩
  · intro hremoved
    obtain ⟨hlt, -⟩ := List.getElem?_eq_some_iff.mp hremoved
    have hgone := h.recorded.gone k (.inl hremoved) hnewest
    constructor
    · unfold contents
      rw [hgone]
      rfl
    · refine ((h.matches_of_drained hdrained hlt hnewest).2 hremoved).mpr ?_
      rw [hstranded]
      exact List.not_mem_nil

/-- An upload that stopped leaves a file at the server that the recorder has removed. -/
theorem Synced.stranded_eq_nil (hnames : Function.Injective naming.name)
    (hrecorder : s.recorder ≠ .removed) (hmirrored : s.Mirrored naming) : s.stranded = [] := by
  apply List.eq_nil_iff_forall_not_mem.mpr
  intro k hk
  obtain ⟨hlt, hdead⟩ := h.uploaded.dead k hk
  have hnewest : s.Newest naming k := fun j hj _ heq => ne_of_gt hj (hnames heq)
  have hclosed : k < s.endings.length := by
    rw [(h.settled_of_drained hdrained).1] at hlt
    unfold announced at hlt
    by_contra hge
    cases hopen : s.isOpen with
    | false =>
      rw [hopen] at hlt
      exact hge hlt
    | true =>
      -- The file that is open is alive.
      rw [hopen] at hlt
      change k < s.endings.length + 1 at hlt
      obtain rfl : k = s.endings.length := by omega
      unfold isOpen at hopen
      rw [Bool.or_eq_true, decide_eq_true_eq, decide_eq_true_eq] at hopen
      exact hdead (h.recorded.writing (.inr (hopen.resolve_right hrecorder)))
  cases hending : s.endings[k] with
  | kept => exact hdead (h.recorded.kept k (List.getElem?_eq_some_iff.mpr ⟨hclosed, hending⟩))
  | removed =>
    have hremoved := List.getElem?_eq_some_iff.mpr ⟨hclosed, hending⟩
    exact ((h.matches_of_drained hdrained hclosed hnewest).2 hremoved).mp ((hmirrored k hnewest).2 hremoved).2 hk

end Drained

/-- An upload stops where a path leads to no file. -/
theorem stranded_openFile_iff (s : RecordUpload) : s.openFile.stranded = [] ↔ s.stranded = [] ∧ s.missing = false := by
  unfold openFile missing
  split
  next purpose hplace =>
    split
    next file hfile =>
      rw [hfile]
      exact (and_iff_left rfl).symm
    next hnone =>
      rw [hnone]
      constructor
      · intro hnil
        exact absurd hnil (append_ne_nil_of_right_ne_nil _ (cons_ne_nil _ _))
      · rintro ⟨-, hfound⟩
        exact nomatch hfound
  next => exact (and_iff_left rfl).symm

theorem stranded_recv (s : RecordUpload) (due : Bool) : (s.recv due).stranded = s.stranded := by
  unfold recv
  split
  next state rest _ _ =>
    cases state with
    | newFile filepath =>
      change (onNewFile _ filepath).stranded = s.stranded
      unfold onNewFile handleNewFile
      split
      · rfl
      · rfl
    | newFrame =>
      change (onNewFrame _ due).stranded = s.stranded
      unfold onNewFrame
      split_ifs with hdue
      · rfl
      · rfl
    | writeTail => rfl
    | removeFile =>
      change (onRemoveFile _).stranded = s.stranded
      unfold onRemoveFile
      split_ifs with hrunning
      · rfl
      · rfl
  next => rfl

theorem Synced.stranded_step_iff (h : s.Synced naming) (event : RecordUploadEvent) :
    (s.step naming event).stranded = [] ↔ s.stranded = [] ∧ s.FindsFile event := by
  have hother : ∀ {s' : RecordUpload}, event ≠ .openFile → s'.stranded = s.stranded →
      (s'.stranded = [] ↔ s.stranded = [] ∧ s.FindsFile event) := by
    intro s' hevent hsame
    rw [hsame]
    exact (and_iff_left fun heq => absurd heq hevent).symm
  cases event with
  | create => exact hother nofun h.recorded.create.2.stranded
  | announce => exact hother nofun h.recorded.announce.2.stranded
  | write pos bytes => exact hother nofun (h.recorded.write pos bytes).2.stranded
  | newFrame => exact hother nofun h.recorded.newFrame.2.stranded
  | keep => exact hother nofun h.recorded.keep.2.stranded
  | remove => exact hother nofun h.recorded.remove.2.stranded
  | announceRemoval => exact hother nofun h.recorded.announceRemoval.2.stranded
  | recv due => exact hother nofun (stranded_recv s due)
  | openFile =>
    have hstep : (s.step naming .openFile).stranded = s.openFile.stranded := rfl
    rw [hstep, stranded_openFile_iff]
    exact and_congr_right fun _ => ⟨fun hfound _ => hfound, fun hfinds => hfinds rfl⟩
  | metadata => exact hother nofun (works_metadata s).2
  | read n => exact hother nofun (works_read s n).2
  | readTail => exact hother nofun (works_readTail s).2

/-- A drained channel leaves the server with the recordings when each path that was opened led to a file. Where all names
differ, and no removal is still to be sent, that is also necessary. -/
theorem mirrored_iff_found (naming : Naming) (server : String → Option (List UInt8)) (run : List RecordUploadEvent)
    (hdrained : (runEvents (step naming) (start server) run).Drained) :
    (RunMeets (step naming) FindsFile (start server) run → (runEvents (step naming) (start server) run).Mirrored naming) ∧
    (Function.Injective naming.name → (runEvents (step naming) (start server) run).recorder ≠ .removed →
      (runEvents (step naming) (start server) run).Mirrored naming →
        RunMeets (step naming) FindsFile (start server) run) := by
  have hsynced : (runEvents (step naming) (start server) run).Synced naming :=
    runEvents_invariant_of_step (fun _ event h => h.step event) (synced_start naming server) run
  have hstranded : (runEvents (step naming) (start server) run).stranded = [] ↔
      (start server).stranded = [] ∧ RunMeets (step naming) FindsFile (start server) run :=
    runEvents_iff (I := Synced naming) (P := fun s => s.stranded = []) (fun _ event h => h.step event)
      (fun _ event h => h.stranded_step_iff event) (synced_start naming server) run
  constructor
  · intro hfound
    exact hsynced.mirrored hdrained (hstranded.mpr ⟨rfl, hfound⟩)
  · intro hnames hrecorder hmirrored
    exact (hstranded.mp (hsynced.stranded_eq_nil hdrained hnames hrecorder hmirrored)).2

/-- Files of which each name has one letter more. -/
def sampleNaming : Naming :=
  .ofDir "/videos" (fun k => String.ofList (List.replicate (k + 1) 'v')) fun k => by
    have hne : ∀ text : String, 'v' ∉ text.toList → String.ofList (List.replicate (k + 1) 'v') ≠ text := by
      intro text htext heq
      apply htext
      rw [← heq, String.toList_ofList]
      exact List.mem_replicate.mpr ⟨Nat.succ_ne_zero k, rfl⟩
    refine ⟨fun hslash => ?_, hne "" (by decide), hne "." (by decide), hne ".." (by decide)⟩
    rw [String.toList_ofList] at hslash
    exact absurd (List.eq_of_mem_replicate hslash) (by decide)

/-- A file is recorded and read while it grows, and kept. -/
def keptRun : List RecordUploadEvent :=
  [.create, .announce, .write 0 [1, 2, 3], .newFrame, .recv false, .recv true, .openFile, .metadata, .write 3 [4], .newFrame,
    .write 0 [9], .keep, .recv false, .recv true, .openFile, .metadata, .read 7, .read 7, .openFile, .readTail]

theorem kept_run_mirrored : (runEvents (step sampleNaming) (start fun _ => none) keptRun).endings = [.kept] ∧
      (runEvents (step sampleNaming) (start fun _ => none) keptRun).Mirrored sampleNaming :=
  ⟨by decide, (mirrored_iff_found sampleNaming (fun _ => none) keptRun (by decide)).1 (by decide)⟩

/-- The recorder removes a file while the uploader is about to open it. -/
def removedRun : List RecordUploadEvent :=
  [.create, .announce, .newFrame, .recv false, .recv true, .remove, .openFile, .announceRemoval, .recv true]

theorem removed_run_not_mirrored : (runEvents (step sampleNaming) (start fun _ => none) removedRun).Drained ∧
      (runEvents (step sampleNaming) (start fun _ => none) removedRun).endings = [.removed] ∧
      (runEvents (step sampleNaming) (start fun _ => none) removedRun).server (sampleNaming.name 0) = some [] ∧
      ¬ (runEvents (step sampleNaming) (start fun _ => none) removedRun).Mirrored sampleNaming := by
  refine ⟨by decide, by decide, by decide, fun hmirrored => ?_⟩
  have hnext : (runEvents (step sampleNaming) (start fun _ => none) removedRun).disk.next = 1 := by decide
  have hnewest : (runEvents (step sampleNaming) (start fun _ => none) removedRun).Newest sampleNaming 0 := by
    intro j hj hjnext
    omega
  have hnone := ((hmirrored 0 hnewest).2 (by decide)).2
  exact absurd hnone (by decide)

end Runs

end RecordUpload

end UnyDesk
