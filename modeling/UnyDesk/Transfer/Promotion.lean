import UnyDesk.Transfer.Routing

/-!
# Which received files take the place of a destination

`modify_time` renames the file of the current entry, whatever that entry is: it runs on the first
block of another entry, on the first block of a new job and at the end. While a stream is open,
the file that it renames is the one that the blocks went to. Without a stream it renames what an
earlier transfer left behind.

A history of the calls, newest first, says what the sender has sent.
-/

namespace UnyDesk

open Lib FileSystem JobState TransferJob List Option

variable {faults : Faults} {request : SendConfirm}

/-- A call on a receiving job. -/
inductive ReceiveEvent
  | block (call : WriteCall)
  | confirm (request : SendConfirm) (faults : Faults)
  /-- The job is done: the final `modify_time`. -/
  | done (faults : Faults)

/-- The block that ends a file. -/
def FileTransferBlock.ends (block : FileTransferBlock) : Bool := block.data = [] && !block.compressed

/-- The confirmation asks for the file, from some position on. -/
def ConfirmUnion.accepts : ConfirmUnion → Bool
  | .skip value => !value
  | .offsetBlk _ => true

namespace ReceiveEvent

/-- The entry that the call is about. -/
def entry : ReceiveEvent → Option ℕ
  | .block call => some (asUsize call.block.fileNum)
  | .confirm request _ => some (asUsize request.fileNum)
  | .done _ => none

def isDone : ReceiveEvent → Bool
  | .done _ => true
  | _ => false

/-- A block of the entry. -/
def isBlockOf (k : ℕ) : ReceiveEvent → Bool
  | .block call => asUsize call.block.fileNum = k
  | _ => false

/-- The last block of the entry. -/
def endsFile (k : ℕ) : ReceiveEvent → Bool
  | .block call => asUsize call.block.fileNum = k && call.block.ends
  | _ => false

/-- A confirmation that lets the entry start at a position. -/
def isOffsetOf (k offset : ℕ) : ReceiveEvent → Bool
  | .confirm request _ => asUsize request.fileNum = k && request.union = some (.offsetBlk offset)
  | _ => false

end ReceiveEvent

section History

/-- The bytes of an entry that were sent. -/
def sentBytes (codec : Codec) (k : ℕ) : List ReceiveEvent → Bytes
  | [] => []
  | .block call :: history =>
    sentBytes codec k history ++ if asUsize call.block.fileNum = k then JobState.blockBytes codec call.block else []
  | _ :: history => sentBytes codec k history

/-- The newest confirmation for the entry asks for it. -/
def accepted (k : ℕ) : List ReceiveEvent → Bool
  | [] => false
  | .confirm request _ :: history =>
    match request.union with
    | some union => if asUsize request.fileNum = k then union.accepts else accepted k history
    | none => accepted k history
  | _ :: history => accepted k history

/-- Some block of the entry was sent. -/
def started (k : ℕ) (history : List ReceiveEvent) : Bool := history.any (ReceiveEvent.isBlockOf k)

/-- The entry was sent to its end. -/
def ended (k : ℕ) (history : List ReceiveEvent) : Bool := history.any (ReceiveEvent.endsFile k)

/-- The sender owes blocks of the entry. -/
def owed (k : ℕ) (history : List ReceiveEvent) : Bool :=
  (started k history || accepted k history) && !ended k history

/-- No entry but the given one is owed. -/
def owesOnly (k : Option ℕ) (history : List ReceiveEvent) : Bool :=
  history.all fun e => e.entry.all fun j => decide (some j = k) || !owed j history

variable {codec : Codec} {k : ℕ} {history : List ReceiveEvent}

end History

namespace JobState

section

variable (s : JobState)

/-- Something lies at the temporary path of the current entry. -/
def hasDownload : Bool :=
  decide (s.job.type = .generic) &&
    (s.job.destPath s.job.fileNum).any fun path => s.disk.existsAt (locate (downloadPath path))

/-- The block makes the job change to another file. -/
def switches (c : WriteCall) : Bool :=
  decide (c.block.id = s.job.id) && (s.job.files[asUsize c.block.fileNum]?).isSome &&
    (decide (asUsize c.block.fileNum ≠ asUsize s.job.fileNum) || s.job.dataStream.isNone)

/-- An unfinished file of this length and its digest are there to be resumed. -/
def resumable (fileNum : Int) (offset : ℕ) : Bool :=
  (s.job.destPath fileNum).any fun path =>
    s.disk.existsAt (locate (digestPath path)) &&
      (s.disk.contents (locate (downloadPath path))).map List.length = some offset

end

variable {s : JobState} {faults : Faults} {bytes : Bytes}

end JobState

/-- A receiving job and the calls made on it so far. -/
structure Reception where
  state : JobState
  history : List ReceiveEvent := []

namespace Reception

variable {file : OpenFile}

/-- The next call. -/
def step (codec : Codec) (t : Reception) (e : ReceiveEvent) : Reception where
  state :=
    match e with
    | .block call => t.state.afterWrite codec call
    | .confirm request faults => (t.state.confirm faults request).getD t.state
    | .done faults => t.state.modifyTime faults
  history := e :: t.history

section

variable (t : Reception)

/-- The entry that the job is at. -/
def current : ℕ := asUsize t.state.job.fileNum

/-- A block of the file that is being sent, or of the next one. -/
def FollowsBlock (block : FileTransferBlock) : Prop :=
  t.history.any ReceiveEvent.isDone = false ∧ block.id = t.state.job.id ∧ 0 ≤ block.fileNum ∧
    block.fileNum < 2 ^ 31 ∧ asUsize block.fileNum < t.state.job.files.length ∧
    ended (asUsize block.fileNum) t.history = false ∧
    owesOnly (some (asUsize block.fileNum)) t.history = true
deriving Decidable

/-- A position past the start is where the unfinished file ends. -/
def resumesAtEnd (request : SendConfirm) : Bool :=
  match request.union with
  | some (.offsetBlk offset) => offset = 0 || t.state.resumable request.fileNum offset
  | _ => true

/-- A decision about a file before its first block. -/
def FollowsConfirm (request : SendConfirm) : Prop :=
  t.history.any ReceiveEvent.isDone = false ∧ 0 ≤ request.fileNum ∧ request.fileNum < 2 ^ 31 ∧
    asUsize request.fileNum < t.state.job.files.length ∧
    started (asUsize request.fileNum) t.history = false ∧
    owesOnly (some (asUsize request.fileNum)) t.history = true ∧ t.resumesAtEnd request = true
deriving Decidable

/-- The end of the job. -/
def FollowsDone : Prop :=
  t.history.any ReceiveEvent.isDone = false ∧ owesOnly none t.history = true
deriving Decidable

/-- The call comes from a sender that follows the protocol. It sends one file at a time, each once
and to its end; a file can be skipped or confirmed before its first block, and is resumed where
the unfinished file ends; after the end of the job nothing more is sent. -/
def Follows : ReceiveEvent → Prop
  | .block call => t.FollowsBlock call.block
  | .confirm request _ => t.FollowsConfirm request
  | .done _ => t.FollowsDone

end

instance (t : Reception) : ∀ e, Decidable (t.Follows e)
  | .block call => inferInstanceAs (Decidable (t.FollowsBlock call.block))
  | .confirm request _ => inferInstanceAs (Decidable (t.FollowsConfirm request))
  | .done _ => inferInstanceAs (Decidable t.FollowsDone)

/-- No step that would make the call fail does so, and `modify_time` does not find an unfinished
file of an earlier transfer while no stream is open. -/
def Undisturbed (t : Reception) (e : ReceiveEvent) : Prop :=
  match e with
  | .block call =>
    call.faults.writeAll = none ∧ (t.state.switches call = true → call.faults.sync = none ∧
          (∀ base entry, t.state.job.dataSource = .filePath base →
            t.state.job.files[asUsize call.block.fileNum]? = some entry →
            t.state.openingFails call.faults base entry = false) ∧
          (t.state.job.dataStream = none → t.state.hasDownload = false))
  | .confirm _ _ => True
  | .done _ => t.state.job.dataStream = none → t.state.hasDownload = false

/-- The bytes are those that were sent of the current entry, after those that were kept when it was
resumed. -/
def Complete (codec : Codec) (t : Reception) (bytes : Bytes) : Prop :=
  ∃ kept, bytes = kept ++ sentBytes codec t.current t.history ∧
    (kept = [] ∨ t.history.any (ReceiveEvent.isOffsetOf t.current kept.length) = true)

/-- The open file is the unfinished file of the current entry. -/
structure Receives (codec : Codec) (t : Reception) (file : OpenFile) : Prop where
  stream : t.state.job.dataStream = some (.fileStream file)
  writable : file.writable = true
  nonneg : 0 ≤ t.state.job.fileNum
  small : t.state.job.fileNum < 2 ^ 31
  path : t.state.job.blockPath t.state.job.fileNum = some file.path
  named : t.state.disk.names (locate file.path) = some file.inode
  pos : file.pos = (t.state.disk.data file.inode).length
  bytes : t.Complete codec (t.state.disk.data file.inode)
  sent : started t.current t.history = true ∨ accepted t.current t.history = true
  others : ∀ j, j ≠ t.current → started j t.history = true → ended j t.history = true

/-- What every call keeps. -/
structure Sound (codec : Codec) (t : Reception) : Prop where
  type : t.state.job.type = .generic
  source : ∃ base, t.state.job.dataSource = .filePath base
  phase : t.history.any ReceiveEvent.isDone = true ∨
    (t.state.job.dataStream = none ∧ ∀ j, started j t.history = true → ended j t.history = true) ∨
    ∃ file, t.Receives codec file

variable {codec : Codec} {t : Reception} {e : ReceiveEvent}

section Step

variable {call : WriteCall} {history : List ReceiveEvent} {job : TransferJob}

variable {request : SendConfirm} {faults : Faults}

/-- A confirmation that leaves the stream alone leaves the open file the unfinished file. -/
theorem Receives.cons (h : t.Receives codec file) (hjob : job = t.state.job ∨ job = t.state.job.setFileConfirmed true)
    (hsent : started t.current t.history = true ∨ accepted t.current (.confirm request faults :: t.history) = true) :
    Receives codec ⟨⟨job, t.state.disk⟩, .confirm request faults :: t.history⟩ file := by
  obtain ⟨kept, hkept, hoffset⟩ := h.bytes
  have hcomplete : Complete codec ⟨t.state, .confirm request faults :: t.history⟩ (t.state.disk.data file.inode) := by
    refine ⟨kept, hkept, hoffset.imp_right fun hmem => ?_⟩
    rw [any_cons]
    exact (congrArg (_ || ·) hmem).trans (Bool.or_true _)
  have hothers : ∀ j, j ≠ t.current → started j (.confirm request faults :: t.history) = true →
      ended j (.confirm request faults :: t.history) = true := h.others
  rcases hjob with rfl | rfl
  · exact ⟨h.stream, h.writable, h.nonneg, h.small, h.path, h.named, h.pos, hcomplete, hsent, hothers⟩
  · exact ⟨h.stream, h.writable, h.nonneg, h.small, h.path, h.named, h.pos, hcomplete, hsent, hothers⟩

end Step

end Reception

section Kind

variable {codec : Codec} {t : Reception} {e : ReceiveEvent} {s s' : JobState}

end Kind

end UnyDesk
