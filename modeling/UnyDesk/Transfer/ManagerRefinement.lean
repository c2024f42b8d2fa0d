import UnyDesk.Lib.Simulation
import UnyDesk.Transfer.ManagerRead

/-!
# The two ways to serve read jobs

The loop of the connection manager repeats the loop of the connection, on files that do not change. It
gives a job up at its first error and asks for the confirmation of a file when its job has the turn,
where the connection goes on after errors and asks for all jobs at once. Up to that, the manager sends
about each job what the connection sends.
-/

namespace UnyDesk

open Lib FileResponse ReadJobs TransferJob List JobState

variable {other : Int} {sent : List FileResponse} {m : FileResponse}

namespace FileResponse

/-- The job of a message. -/
def id : FileResponse → Int
  | .block b => b.id
  | .done id _ => id
  | .error id _ _ => id
  | .digest id _ _ _ _ => id

def isError : FileResponse → Bool
  | .error _ _ _ => true
  | _ => false

/-- The message is the last one that the connection relays about a job. -/
def isFinal : FileResponse → Bool
  | .error _ _ _ | .done _ _ => true
  | _ => false

/-- The message, as the manager gives it to the connection. -/
def fromCm : FileResponse → ReadData
  | .block b => .fileBlockFromCm b
  | .done id fileNum => .fileReadDone id fileNum
  | .error id e fileNum => .fileReadError id fileNum e
  | .digest id fileNum lastModified fileSize isResume => .fileDigestFromCm id fileNum lastModified fileSize isResume

end FileResponse

/-- The messages up to the first error. -/
def upToError : List FileResponse → List FileResponse
  | [] => []
  | m :: later => if m.isError then [m] else m :: upToError later

/-- Files that do not change. What a step on a file does depends on the path and on the position in it. -/
structure StaticSystem where
  disk : Disk
  reads : String → ℕ → ReadFaults
  seeks : String → Faults

/-- The position of the open file. -/
def TransferJob.position (job : TransferJob) : ℕ :=
  match job.dataStream with
  | some (.fileStream file) => file.pos
  | _ => 0

/-- The path of the current file. -/
def TransferJob.currentPath (job : TransferJob) : Option String :=
  match job.dataSource, job.currentEntry with
  | .filePath base, some entry => some (joinPath base entry.name)
  | _, _ => none

namespace StaticSystem

section

variable (sys : StaticSystem)

def readFaults (job : TransferJob) : ReadFaults :=
  job.currentPath.elim {} fun path => sys.reads path job.position

def seekFaults (job : TransferJob) : Faults := job.currentPath.elim {} sys.seeks

/-- What happens to the jobs of a list by their places in it. -/
def faultsOf (jobs : List TransferJob) (n : ℕ) : ReadFaults := jobs[n]?.elim {} sys.readFaults

end

end StaticSystem

/-- A round of the timer, or a confirmation. -/
inductive RoundEvent
  | tick
  | confirm (request : SendConfirm)

/-- Jobs that the connection serves itself. -/
structure DirectReads where
  jobs : List TransferJob
  sent : List FileResponse := []

/-- One event of jobs that the connection serves itself. -/
def DirectReads.step (codec : Codec) (sys : StaticSystem) (s : DirectReads) : RoundEvent → DirectReads
  | .tick =>
    let round := TransferJob.handleReadJobs codec sys.disk (sys.faultsOf s.jobs) s.jobs
    { jobs := round.2.1, sent := s.sent ++ round.1 }
  | .confirm r =>
    match getJob r.id s.jobs with
    | none => s
    | some job =>
      { s with jobs := setJob r.id (confirmed (sys.seekFaults job) r ⟨job, sys.disk⟩).job s.jobs }

/-- Jobs that are left to the manager. -/
structure ManagedReads where
  jobs : List TransferJob
  cmReadJobIds : Finset Int
  sent : List FileResponse := []

namespace ManagedReads

/-- New jobs of the manager. -/
def start (jobs : List TransferJob) : ManagedReads :=
  { jobs, cmReadJobIds := (jobs.map TransferJob.id).toFinset }

/-- One event of jobs that are left to the manager. -/
def step (codec : Codec) (sys : StaticSystem) (s : ManagedReads) : RoundEvent → ManagedReads
  | .tick =>
    let round := TransferJob.handleReadJobsTick codec sys.disk (sys.faultsOf s.jobs) s.jobs
    let relayed := relayAll s.cmReadJobIds round.1
    { jobs := round.2, cmReadJobIds := relayed.1, sent := s.sent ++ relayed.2 }
  | .confirm r =>
    if r.id ∈ s.cmReadJobIds then { s with jobs := confirmForRead sys.disk sys.seekFaults r.forRead s.jobs } else s

end ManagedReads

namespace TransferJob

/-- One job in the loop of the manager: what is sent, the job and whether it is finished. -/
def serveForCm (codec : Codec) (sys : StaticSystem) (job : TransferJob) : List ReadData × TransferJob × Bool :=
  match job.initReadJobForCm sys.disk (sys.readFaults job) with
  | (some e, sent, job) => (sent ++ [.fileReadError job.id job.fileNum e], job, true)
  | (none, sent, opened) =>
    let turn := opened.readTurnForCm codec sys.disk (sys.readFaults job)
    (sent ++ turn.1, turn.2.1, turn.2.2)

/-- The numbers of the jobs that the loop of the manager comes to. -/
def visited (sys : StaticSystem) : List TransferJob → List Int
  | [] => []
  | job :: jobs =>
    if job.isLastJob then visited sys jobs
    else if (job.initReadJobForCm sys.disk (sys.readFaults job)).1.isSome then job.id :: visited sys jobs
    else [job.id]

section Job

variable {codec : Codec} {disk : Disk} {faults : ReadFaults} {job : TransferJob}

/-- The manager opens a job as the connection does. -/
theorem initReadJobForCm_eq (disk : Disk) (faults : ReadFaults) (job : TransferJob) : job.initReadJobForCm disk faults =
      ((job.initDataStream disk faults).1, (job.initDataStream disk faults).2.1.map fromCm,
        (job.initDataStream disk faults).2.2) := by
  unfold initReadJobForCm initDataStreamForCm initDataStream
  rcases job.openDataStream disk faults with ⟨e | (_ | _), opened⟩
  · rfl
  · by_cases hneeds : opened.needsDigest = true
    · simp only [hneeds, if_true]
      rcases opened.getCurrentDigest disk faults with e | ⟨lastModified, fileSize⟩ <;> rfl
    · simp only [hneeds]
      rfl
  · rfl

/-- The manager reads a job as the connection does, and an error finishes it. -/
theorem readTurnForCm_eq (codec : Codec) (disk : Disk) (faults : ReadFaults) (job : TransferJob) :
    job.readTurnForCm codec disk faults =
      ((job.readTurn codec disk faults).1.map fromCm, (job.readTurn codec disk faults).2.1,
        (job.readTurn codec disk faults).2.2 || (job.readTurn codec disk faults).1.any isError) := by
  unfold readTurnForCm readTurn
  rcases job.read codec disk faults with ⟨e | (_ | block), job'⟩
  · rfl
  · by_cases hcompleted : job'.jobCompleted = true
    · simp only [hcompleted, if_true]
      cases job'.jobError <;> rfl
    · simp only [hcompleted]
      rfl
  · rfl

/-- What opening a job sends: the digest of its file at most, and nothing when it fails. -/
theorem initDataStream_sent (disk : Disk) (faults : ReadFaults) (job : TransferJob) :
    ((job.initDataStream disk faults).1.isSome → (job.initDataStream disk faults).2.1 = []) ∧
      (∀ m ∈ (job.initDataStream disk faults).2.1, m.isFinal = false ∧ m.isError = false ∧ m.id = job.id) ∧
      job.Kept (job.initDataStream disk faults).2.2 := by
  rcases openDataStream_cases disk faults job with ⟨e, hopen, -⟩ | ⟨hopen, -⟩ | ⟨opened, hopen, -, hkept, -⟩
  · simp only [initDataStream, hopen]
    exact ⟨by simp, by simp, kept_nextFile job⟩
  · simp only [initDataStream, hopen]
    exact ⟨by simp, by simp, rfl, rfl, rfl, rfl, rfl, fun h => h.withoutStream _ _ _ _⟩
  · simp only [initDataStream, hopen]
    by_cases hneeds : opened.needsDigest = true
    · simp only [hneeds, if_true]
      rcases opened.getCurrentDigest disk faults with e | ⟨lastModified, fileSize⟩
      · exact ⟨by simp, by simp, hkept⟩
      · refine ⟨by simp, fun m hm => ?_, hkept.trans ⟨rfl, rfl, rfl, rfl, rfl, fun h => h⟩⟩
        obtain rfl := mem_singleton.mp hm
        exact ⟨rfl, rfl, hkept.id⟩
    · simp only [hneeds]
      exact ⟨by simp, by simp, hkept⟩

/-- The read of a job sends one message about it at most, and the last one when it ends. -/
theorem readTurn_sent (codec : Codec) (disk : Disk) (faults : ReadFaults) (hshape : job.Shape) :
    (job.readTurn codec disk faults).1.length ≤ 1 ∧ (∀ m ∈ (job.readTurn codec disk faults).1, m.id = job.id) ∧
      (job.readTurn codec disk faults).1.any isFinal =
        ((job.readTurn codec disk faults).2.2 || (job.readTurn codec disk faults).1.any isError) := by
  have hnone : ∀ job' : TransferJob, job'.id = job.id → job.read codec disk faults = (.ok none, job') →
      (job.readTurn codec disk faults).1.length ≤ 1 ∧ (∀ m ∈ (job.readTurn codec disk faults).1, m.id = job.id) ∧
        (job.readTurn codec disk faults).1.any FileResponse.isFinal =
          ((job.readTurn codec disk faults).2.2 || (job.readTurn codec disk faults).1.any FileResponse.isError) := by
    intro job' hid hread
    simp only [readTurn, hread]
    by_cases hcompleted : job'.jobCompleted = true
    · simp only [hcompleted, if_true]
      cases job'.jobError <;> simp [FileResponse.id, FileResponse.isFinal, FileResponse.isError, hid]
    · simp [hcompleted]
  rcases read_cases codec disk faults hshape with ⟨-, -, -, hread⟩ | ⟨-, hread⟩ | ⟨e, hread⟩ | ⟨e, hread⟩ | hread |
    ⟨block, job', hread, hpiece⟩
  · exact hnone _ (by rfl) hread
  · exact hnone { job with dataStream := none } rfl hread
  · simp [readTurn, hread, FileResponse.id, FileResponse.isFinal, FileResponse.isError]
  · simp [readTurn, hread, FileResponse.id, FileResponse.isFinal, FileResponse.isError, nextFile]
  · simp [readTurn, hread, FileResponse.id, FileResponse.isFinal, FileResponse.isError]
  · simp [readTurn, hread, FileResponse.id, FileResponse.isFinal, FileResponse.isError, hpiece.id]

/-- One job in the loop of the connection, when it has the turn: what is sent, the job and whether it has
ended. -/
def serve (codec : Codec) (sys : StaticSystem) (job : TransferJob) : List FileResponse × TransferJob × Bool :=
  let opened := job.initJob sys.disk (sys.readFaults job)
  let turn := opened.2.readTurn codec sys.disk (sys.readFaults job)
  (opened.1 ++ turn.1, turn.2.1, turn.2.2)

end Job

end TransferJob

section UpToError

variable {sent later : List FileResponse}

theorem upToError_append (h : ∀ m ∈ sent, m.isError = false) : upToError (sent ++ later) = sent ++ upToError later := by
  induction sent with
  | nil => rfl
  | cons m sent ih =>
    rw [cons_append, upToError, h m mem_cons_self, ih fun m hm => h m (mem_cons_of_mem _ hm)]
    rfl

theorem upToError_of_none (h : sent.any isError = false) : upToError sent = sent := by
  induction sent with
  | nil => rfl
  | cons m sent ih =>
    rw [any_cons, Bool.or_eq_false_iff] at h
    rw [upToError, h.1, ih h.2]
    rfl

theorem upToError_of_length (h : sent.length ≤ 1) : upToError sent = sent := by
  rcases sent with _ | ⟨m, _ | ⟨m', sent⟩⟩
  · rfl
  · rw [upToError, upToError]
    split <;> rfl
  · simp at h

theorem mem_of_mem_upToError (h : m ∈ upToError sent) : m ∈ sent := by
  induction sent with
  | nil => exact h
  | cons first sent ih =>
    rw [upToError] at h
    split at h
    next => exact mem_singleton.mp h ▸ mem_cons_self
    next => exact (mem_cons.mp h).elim (fun heq => heq ▸ mem_cons_self) fun h => mem_cons_of_mem _ (ih h)

end UpToError

namespace TransferJob

variable {codec : Codec} {sys : StaticSystem} {job : TransferJob}

section ServeForCm

variable (codec : Codec) (sys : StaticSystem)

/-- The manager sends about a job what the connection sends, up to an error, which finishes the job. -/
theorem serveForCm_spec (hlast : job.isLastJob = false) (hshape : job.Shape) :
    (job.serveForCm codec sys).1 = (upToError (job.serve codec sys).1).map fromCm ∧
      (job.serveForCm codec sys).2.2 = ((job.serve codec sys).2.2 || (job.serve codec sys).1.any isError) ∧
      ((job.serveForCm codec sys).2.2 = false → (job.serveForCm codec sys).2.1 = (job.serve codec sys).2.1) ∧
      job.Kept (job.serveForCm codec sys).2.1 := by
  obtain ⟨hnothing, hsent, hkept⟩ := initDataStream_sent sys.disk (sys.readFaults job) job
  simp only [serveForCm, initReadJobForCm_eq, serve, initJob, hlast, Bool.false_eq_true, if_false]
  rcases hdata : job.initDataStream sys.disk (sys.readFaults job) with ⟨_ | e, sent, opened⟩
  · rw [hdata] at hsent hkept
    obtain ⟨hlength, -, -⟩ := readTurn_sent codec sys.disk (sys.readFaults job) (hkept.shape hshape)
    obtain ⟨hkept', -⟩ := readTurn_kept codec sys.disk (sys.readFaults job) (hkept.shape hshape)
    have hnoerror : ∀ m ∈ sent, m.isError = false := fun m hm => (hsent m hm).2.1
    have hany : sent.any isError = false := by
      rw [any_eq_false]
      exact fun m hm => by simp [hnoerror m hm]
    simp only [readTurnForCm_eq]
    refine ⟨?_, ?_, by simp, hkept.trans hkept'⟩
    · rw [upToError_append hnoerror, upToError_of_length hlength, map_append]
    · rw [any_append, hany, Bool.false_or]
  · rw [hdata] at hnothing hkept
    obtain rfl : sent = [] := hnothing (by simp)
    exact ⟨rfl, by simp [isError], fun h => Bool.noConfusion h, hkept⟩

theorem serve_kept (hshape : job.Shape) : job.Kept (job.serve codec sys).2.1 := by
  have hopened : job.Kept (job.initJob sys.disk (sys.readFaults job)).2 := initJob_kept
  exact hopened.trans (readTurn_kept codec sys.disk (sys.readFaults job) (hopened.shape hshape)).1

/-- A round of the connection over one job. -/
theorem handleReadJobs_serve (hlast : job.isLastJob = false) :
    handleReadJobs codec sys.disk (sys.faultsOf [job]) [job] =
      ((job.serve codec sys).1, if (job.serve codec sys).2.2 then [] else [(job.serve codec sys).2.1],
        if (job.serve codec sys).2.2 then some (job.serve codec sys).2.1 else none) := by
  have hfaults : sys.faultsOf [job] 0 = sys.readFaults job := rfl
  have hopened : (job.initJob sys.disk (sys.readFaults job)).2.isLastJob = false := initJob_kept.isLastJob.trans hlast
  simp only [handleReadJobs, mapIdx_cons, mapIdx_nil, map_cons, map_nil, firstTurn, hfaults, hopened,
    Bool.false_eq_true, if_false, flatten_cons, flatten_nil, append_nil, serve]
  split
  next hended => simp [hended, removeJob]
  next hgoes => simp [hgoes]

/-- All messages of a turn are about the job, and only the last one can be final. -/
theorem serve_sent (hlast : job.isLastJob = false) (hshape : job.Shape) :
    (∀ m ∈ (job.serve codec sys).1, m.id = job.id) ∧ (upToError (job.serve codec sys).1).any isFinal =
        ((job.serve codec sys).2.2 || (job.serve codec sys).1.any isError) ∧
      (∀ m ∈ (upToError (job.serve codec sys).1).dropLast, m.isFinal = false) := by
  obtain ⟨hnothing, hsent, hkept⟩ := initDataStream_sent sys.disk (sys.readFaults job) job
  simp only [serve, initJob, hlast, Bool.false_eq_true, if_false]
  rcases hdata : job.initDataStream sys.disk (sys.readFaults job) with ⟨_ | e, sent, opened⟩
  · rw [hdata] at hsent hkept
    obtain ⟨hlength, hids, hfinal⟩ := readTurn_sent codec sys.disk (sys.readFaults job) (hkept.shape hshape)
    have hnoerror : ∀ m ∈ sent, m.isError = false := fun m hm => (hsent m hm).2.1
    have hany : sent.any isError = false := by
      rw [any_eq_false]
      exact fun m hm => by simp [hnoerror m hm]
    have hany' : sent.any isFinal = false := by
      rw [any_eq_false]
      exact fun m hm => by simp [(hsent m hm).1]
    rw [upToError_append hnoerror, upToError_of_length hlength]
    refine ⟨fun m hm => ?_, ?_, fun m hm => ?_⟩
    · rcases mem_append.mp hm with hm | hm
      · exact (hsent m hm).2.2
      · exact (hids m hm).trans hkept.id
    · rw [any_append, any_append, hany, hany', Bool.false_or, Bool.false_or, hfinal]
    · -- Without its last message, a turn sends a digest at most.
      rcases hturn : (opened.readTurn codec sys.disk (sys.readFaults job)).1 with _ | ⟨last, _ | ⟨m', rest⟩⟩
      · rw [hturn, append_nil] at hm
        exact (hsent m (dropLast_subset _ hm)).1
      · rw [hturn, dropLast_concat] at hm
        exact (hsent m hm).1
      · simp [hturn] at hlength
  · rw [hdata] at hnothing hkept
    obtain rfl : sent = [] := hnothing (by simp)
    obtain ⟨-, hids, -⟩ := readTurn_sent codec sys.disk (sys.readFaults job) (hkept.shape hshape)
    refine ⟨fun m hm => ?_, ?_, ?_⟩
    · rcases mem_cons.mp hm with rfl | hm
      · exact hkept.id
      · exact (hids m hm).trans hkept.id
    · simp [upToError, isError, isFinal]
    · simp [upToError, isError]

end ServeForCm

end TransferJob

section Relay

variable {ids : Finset Int} {id : Int}

theorem relay_fromCm (hid : id ∈ ids) (hm : m.id = id) :
    relay ids m.fromCm = (if m.isFinal then ids.erase id else ids, [m]) := by
  subst hm
  cases m <;> simp_all [relay, FileResponse.fromCm, FileResponse.id, FileResponse.isFinal]

/-- All messages about a job that is known are relayed, and the job is forgotten after the final one. -/
theorem relayAll_fromCm (hid : id ∈ ids) (hsent : ∀ m ∈ sent, m.id = id)
    (hfinal : ∀ m ∈ sent.dropLast, m.isFinal = false) :
    relayAll ids (sent.map fromCm) = (if sent.any isFinal then ids.erase id else ids, sent) := by
  induction sent with
  | nil => rfl
  | cons m sent ih =>
    rw [map_cons, relayAll, relay_fromCm hid (hsent m mem_cons_self)]
    cases sent with
    | nil => simp [relayAll]
    | cons m' rest =>
      have hm : m.isFinal = false := hfinal m (by simp)
      have hrest := ih (fun x hx => hsent x (mem_cons_of_mem _ hx)) (fun x hx => hfinal x (by simp_all [dropLast]))
      simp only [hm, Bool.false_eq_true, if_false, hrest, any_cons, Bool.false_or, singleton_append]
      rfl

theorem relayAll_append (ids : Finset Int) (sent later : List ReadData) : relayAll ids (sent ++ later) =
      ((relayAll (relayAll ids sent).1 later).1, (relayAll ids sent).2 ++ (relayAll (relayAll ids sent).1 later).2) := by
  induction sent generalizing ids with
  | nil => rfl
  | cons data sent ih => simp only [cons_append, relayAll, ih, append_assoc]

end Relay

section Lists

variable {jobs : List TransferJob}

/-- The messages of one job, by the number that is asked for. -/
theorem filter_of_id {own : Int} (h : ∀ m ∈ sent, m.id = own) (id : Int) :
    sent.filter (fun m => m.id = id) = if own = id then sent else [] := by
  split
  next hid =>
    rw [filter_eq_self]
    exact fun m hm => decide_eq_true ((h m hm).trans hid)
  next hid =>
    rw [filter_eq_nil_iff]
    exact fun m hm heq => hid ((h m hm).symm.trans (of_decide_eq_true heq))

/-- What occurs once is not to be found before its place. -/
theorem not_mem_before {A B : Type*} {f : A → B} {a : A} {before after : List A}
    (h : ((before ++ a :: after).map f).Nodup) : f a ∉ before.map f := by
  rw [map_append, map_cons, nodup_append] at h
  exact fun hmem => h.2.2 _ hmem _ mem_cons_self rfl

variable {id : Int} {job job' : TransferJob} {before after : List TransferJob}

/-- With different numbers, the job of a number is found behind the others. -/
theorem getJob_append_cons (h : job.id ∉ before.map TransferJob.id) :
    getJob job.id (before ++ job :: after) = some job := by
  rw [getJob, find?_append]
  have hnone : before.find? (fun j => j.id = job.id) = none := by
    rw [find?_eq_none]
    intro j hj heq
    exact h (mem_map.mpr ⟨j, hj, by simpa using heq⟩)
  simp [hnone]

theorem setJob_append_cons (h : id ∉ before.map TransferJob.id) (hid : job.id = id) :
    setJob id job' (before ++ job :: after) = before ++ job' :: after := by
  induction before with
  | nil => rw [nil_append, setJob, if_pos hid, nil_append]
  | cons first before ih =>
    rw [map_cons, mem_cons, not_or] at h
    rw [cons_append, setJob, if_neg (Ne.symm h.1), ih h.2, cons_append]

theorem removeJob_append_cons (h : id ∉ before.map TransferJob.id) (hid : job.id = id) :
    TransferJob.removeJob id (before ++ job :: after) = before ++ after := by
  induction before with
  | nil => rw [nil_append, removeJob, if_pos hid, nil_append]
  | cons first before ih =>
    rw [map_cons, mem_cons, not_or] at h
    rw [cons_append, removeJob, if_neg (Ne.symm h.1), ih h.2, cons_append]

theorem getJob_setJob_of_ne (h : other ≠ id) (hid : job'.id = id) (jobs : List TransferJob) :
    getJob other (setJob id job' jobs) = getJob other jobs := by
  induction jobs with
  | nil => rfl
  | cons first jobs ih =>
    rw [setJob, getJob_cons]
    by_cases hfirst : first.id = id
    · rw [if_pos hfirst, getJob_cons, hid, hfirst, if_neg (Ne.symm h), if_neg (Ne.symm h)]
    · rw [if_neg hfirst, getJob_cons, ih]

theorem getJob_removeJob_of_ne (h : other ≠ id) (jobs : List TransferJob) :
    getJob other (removeJob id jobs) = getJob other jobs := by
  induction jobs with
  | nil => rfl
  | cons first jobs ih =>
    rw [removeJob, getJob_cons]
    by_cases hfirst : first.id = id
    · rw [if_pos hfirst, hfirst, if_neg (Ne.symm h)]
    · rw [if_neg hfirst, getJob_cons, ih]

theorem getJob_setJob (h : getJob id jobs = some job) (hid : job'.id = id) :
    getJob id (setJob id job' jobs) = some job' := by
  induction jobs with
  | nil => simp [getJob] at h
  | cons first jobs ih =>
    rw [getJob_cons] at h
    rw [setJob]
    by_cases hfirst : first.id = id
    · rw [if_pos hfirst, getJob_cons, if_pos hid]
    · rw [if_neg hfirst] at h ⊢
      rw [getJob_cons, if_neg hfirst, ih h]

theorem getJob_eq_none_iff : getJob id jobs = none ↔ id ∉ jobs.map TransferJob.id := by
  simp [getJob]

theorem getJob_id (h : getJob id jobs = some job) : job ∈ jobs ∧ job.id = id :=
  ⟨mem_of_find?_eq_some h, by simpa using find?_some h⟩

theorem getJob_removeJob (h : (jobs.map TransferJob.id).Nodup) : getJob id (TransferJob.removeJob id jobs) = none := by
  rw [getJob_eq_none_iff, map_id_removeJob]
  exact h.not_mem_erase

end Lists

namespace ManagedReads

variable {d : DirectReads} {r : SendConfirm}

/-- The part of a round of the manager that is about one job. -/
def visit (codec : Codec) (sys : StaticSystem) (s : ManagedReads) (id : Int) : ManagedReads :=
  match getJob id s.jobs with
  | none => s
  | some job =>
    let served := job.serveForCm codec sys
    let relayed := relayAll s.cmReadJobIds served.1
    { jobs := if served.2.2 then TransferJob.removeJob id s.jobs else setJob id served.2.1 s.jobs
      cmReadJobIds := relayed.1
      sent := s.sent ++ relayed.2 }

/-- The loop over the later jobs of a list, as visits one after the other. -/
theorem visits_eq (codec : Codec) (sys : StaticSystem) {faults : ℕ → ReadFaults} {before jobs : List TransferJob} {i : ℕ}
    (hfaults : ∀ k job, jobs[k]? = some job → faults (i + k) = sys.readFaults job)
    (hshape : ∀ job ∈ jobs, job.Shape) (hids : ((before ++ jobs).map TransferJob.id).Nodup)
    (ids : Finset Int) (sent : List FileResponse) :
    (TransferJob.visited sys jobs).foldl (visit codec sys) ⟨before ++ jobs, ids, sent⟩ =
      (let round := TransferJob.tickJobs codec sys.disk faults i jobs
      ⟨round.2.2.foldl (fun jobs id => TransferJob.removeJob id jobs) (before ++ round.2.1),
        (relayAll ids round.1).1, sent ++ (relayAll ids round.1).2⟩) := by
  induction jobs generalizing before i ids sent with
  | nil => simp [TransferJob.visited, TransferJob.tickJobs, relayAll]
  | cons job jobs ih =>
    have hfaults' : ∀ k j, jobs[k]? = some j → faults (i + 1 + k) = sys.readFaults j := by
      intro k j hj
      rw [Nat.add_assoc, Nat.add_comm 1 k]
      exact hfaults (k + 1) j (by simpa using hj)
    have hshape' : ∀ j ∈ jobs, j.Shape := fun j hj => hshape j (mem_cons_of_mem _ hj)
    have hnew : job.id ∉ before.map TransferJob.id := by
      rw [map_append, map_cons, nodup_append] at hids
      intro hmem
      exact hids.2.2 _ hmem _ mem_cons_self rfl
    have hfirst : faults i = sys.readFaults job := hfaults 0 job rfl
    by_cases hlast : job.isLastJob = true
    · have hbefore : before ++ job :: jobs = (before ++ [job]) ++ jobs := by simp
      have hrest := @ih (before ++ [job]) (i + 1) hfaults' hshape' (by rw [← hbefore]; exact hids) ids sent
      rw [TransferJob.visited, if_pos hlast, hbefore, hrest, TransferJob.tickJobs, if_pos hlast]
      simp only [append_assoc, singleton_append]
    · have hkept := (TransferJob.serveForCm_spec codec sys (by simpa using hlast) (hshape job mem_cons_self)).2.2.2
      have hremoved : ((before ++ jobs).map TransferJob.id).Nodup := by
        refine List.Nodup.sublist ?_ hids
        exact List.Sublist.map _ (List.Sublist.append_left (sublist_cons_self job jobs) before)
      have hvisit : visit codec sys ⟨before ++ job :: jobs, ids, sent⟩ job.id = (let served := job.serveForCm codec sys
          let relayed := relayAll ids served.1
          ⟨if served.2.2 then before ++ jobs else before ++ served.2.1 :: jobs, relayed.1, sent ++ relayed.2⟩) := by
        simp only [visit, getJob_append_cons hnew, removeJob_append_cons hnew rfl, setJob_append_cons hnew rfl]
      rw [TransferJob.visited, if_neg hlast, TransferJob.tickJobs, if_neg hlast, hfirst]
      rcases hinit : job.initReadJobForCm sys.disk (sys.readFaults job) with ⟨_ | e, begun, opened⟩
      · -- The job takes the turn.
        have hserve : job.serveForCm codec sys = (let turn := opened.readTurnForCm codec sys.disk (sys.readFaults job)
            (begun ++ turn.1, turn.2.1, turn.2.2)) := by simp only [TransferJob.serveForCm, hinit]
        have hid : (opened.readTurnForCm codec sys.disk (sys.readFaults job)).2.1.id = job.id := by
          rw [hserve] at hkept
          exact hkept.id
        simp only [Option.isSome_none, Bool.false_eq_true, if_false, foldl_cons, foldl_nil, hvisit, hserve]
        cases (opened.readTurnForCm codec sys.disk (sys.readFaults job)).2.2 with
        | false => simp
        | true => simp [removeJob_append_cons hnew hid, hid]
      · -- The job is finished, and the next one is looked at.
        have hserve : job.serveForCm codec sys =
            (begun ++ [.fileReadError opened.id opened.fileNum e], opened, true) := by
          simp only [TransferJob.serveForCm, hinit]
        have hid : opened.id = job.id := by
          rw [hserve] at hkept
          exact hkept.id
        simp only [Option.isSome_some, if_true, foldl_cons, hvisit, hserve]
        rw [ih hfaults' hshape' hremoved]
        simp only [relayAll_append, relayAll, hid, removeJob_append_cons hnew hid, append_assoc, append_nil]

/-- What holds of the jobs of a manager at all times. -/
structure Steady (s : ManagedReads) : Prop where
  ids : (s.jobs.map TransferJob.id).Nodup
  known : ∀ job ∈ s.jobs, job.id ∈ s.cmReadJobIds
  jobs : ∀ job ∈ s.jobs, job.isLastJob = false ∧ job.Shape

/-- A round is a visit of the jobs that the loop comes to. -/
theorem step_tick (codec : Codec) (sys : StaticSystem) {s : ManagedReads} (hs : s.Steady) :
    s.step codec sys .tick = (TransferJob.visited sys s.jobs).foldl (visit codec sys) s := by
  have hvisits := @visits_eq codec sys (sys.faultsOf s.jobs) [] s.jobs 0
    (fun k job hjob => by simp [StaticSystem.faultsOf, hjob]) (fun job hjob => (hs.jobs job hjob).2) hs.ids
    s.cmReadJobIds s.sent
  simp only [nil_append] at hvisits
  simp only [step, handleReadJobsTick]
  exact hvisits.symm

variable {codec : Codec} {sys : StaticSystem} {s : ManagedReads} {id : Int} {job : TransferJob}

/-- What a visit of a job does. -/
theorem visit_spec (codec : Codec) (sys : StaticSystem) (hs : s.Steady) (hget : getJob id s.jobs = some job) :
    visit codec sys s id = (let sent := upToError (job.serve codec sys).1
      let finished := (job.serve codec sys).2.2 || (job.serve codec sys).1.any isError
      { jobs :=
          if finished then removeJob id s.jobs else setJob id (job.serve codec sys).2.1 s.jobs
        cmReadJobIds := if finished then s.cmReadJobIds.erase id else s.cmReadJobIds
        sent := s.sent ++ sent }) := by
  obtain ⟨hmem, hid⟩ := getJob_id hget
  obtain ⟨hlast, hshape⟩ := hs.jobs job hmem
  obtain ⟨hsent, hfinished, hjob, -⟩ := serveForCm_spec codec sys hlast hshape
  obtain ⟨hids, hfinal, hbefore⟩ := serve_sent codec sys hlast hshape
  have hupto : ∀ m ∈ upToError (job.serve codec sys).1, m.id = id := by
    intro m hm
    exact (hids m (mem_of_mem_upToError hm)).trans hid
  have hrelay := relayAll_fromCm (hid ▸ hs.known job hmem) hupto hbefore
  rw [visit, hget]
  simp only [hsent, hrelay, hfinished, hfinal]
  cases hfin : ((job.serve codec sys).2.2 || (job.serve codec sys).1.any isError) with
  | true => rfl
  | false => simp only [Bool.false_eq_true, if_false, hjob (hfinished.trans hfin)]

theorem Steady.visit (hs : s.Steady) (codec : Codec) (sys : StaticSystem) (id : Int) :
    (visit codec sys s id).Steady := by
  cases hget : getJob id s.jobs with
  | none =>
    have hnone : ManagedReads.visit codec sys s id = s := by simp only [ManagedReads.visit, hget]
    rw [hnone]
    exact hs
  | some job =>
    obtain ⟨hmem, hid⟩ := getJob_id hget
    obtain ⟨hlast, hshape⟩ := hs.jobs job hmem
    have hkept := TransferJob.serve_kept codec sys hshape
    rw [visit_spec codec sys hs hget]
    dsimp only
    cases hfin : ((job.serve codec sys).2.2 || (job.serve codec sys).1.any FileResponse.isError) with
    | true =>
      have hnodup : ((TransferJob.removeJob id s.jobs).map TransferJob.id).Nodup := by
        rw [TransferJob.map_id_removeJob]
        exact hs.ids.erase id
      simp only [if_true]
      refine ⟨hnodup, fun j hj => ?_, fun j hj => hs.jobs j (TransferJob.mem_removeJob hj)⟩
      refine Finset.mem_erase.mpr ⟨fun heq => ?_, hs.known j (TransferJob.mem_removeJob hj)⟩
      have hnot : id ∉ (TransferJob.removeJob id s.jobs).map TransferJob.id :=
        getJob_eq_none_iff.mp (getJob_removeJob hs.ids)
      have hlisted : j.id ∈ (TransferJob.removeJob id s.jobs).map TransferJob.id := mem_map_of_mem hj
      rw [heq] at hlisted
      exact hnot hlisted
    | false =>
      have hid' : (job.serve codec sys).2.1.id = id := hkept.id.trans hid
      refine ⟨?_, fun j hj => ?_, fun j hj => ?_⟩
      · simp only [Bool.false_eq_true, if_false, ReadJobs.map_id_setJob hid']
        exact hs.ids
      · rcases ReadJobs.mem_setJob hj with rfl | hj
        · exact hkept.id ▸ hs.known job hmem
        · exact hs.known j hj
      · rcases ReadJobs.mem_setJob hj with rfl | hj
        · exact ⟨hkept.isLastJob.trans hlast, hkept.shape hshape⟩
        · exact hs.jobs j hj

/-- The messages about a job. -/
def sentFor (s : ManagedReads) (id : Int) : List FileResponse := s.sent.filter fun m => m.id = id

/-- A visit of another job. -/
theorem visit_of_ne (hs : s.Steady) (codec : Codec) (sys : StaticSystem) (hne : id ≠ other) :
    getJob id (visit codec sys s other).jobs = getJob id s.jobs ∧
      (visit codec sys s other).sentFor id = s.sentFor id := by
  cases hget : getJob other s.jobs with
  | none => simp only [visit, hget, and_self]
  | some job =>
    obtain ⟨hmem, hid⟩ := getJob_id hget
    obtain ⟨hlast, hshape⟩ := hs.jobs job hmem
    have hkept := serve_kept codec sys hshape
    rw [visit_spec codec sys hs hget]
    constructor
    · dsimp only
      split
      · exact getJob_removeJob_of_ne hne s.jobs
      · exact getJob_setJob_of_ne hne (hkept.id.trans hid) s.jobs
    · have hsent : ∀ m ∈ upToError (job.serve codec sys).1, m.id = other := fun m hm =>
        ((serve_sent codec sys hlast hshape).1 m (mem_of_mem_upToError hm)).trans hid
      simp only [sentFor, filter_append, filter_of_id hsent, if_neg (Ne.symm hne), append_nil]

/-- The manager has done for a job what the connection does for it: the job is the same, and there was no
error, or the job is gone and its messages are those up to the error. -/
def Matches (id : Int) (s : ManagedReads) (d : DirectReads) : Prop :=
  (∃ job, getJob id s.jobs = some job ∧ d.jobs = [job] ∧ d.sent.any FileResponse.isError = false ∧
      s.sentFor id = d.sent) ∨
    getJob id s.jobs = none ∧ s.sentFor id = upToError d.sent ∧ (d.jobs = [] ∨ d.sent.any FileResponse.isError = true)

/-- A visit of the job is a round of the connection for the job alone. -/
theorem Matches.visit_self (hs : s.Steady) (codec : Codec) (sys : StaticSystem)
    (hget : getJob id s.jobs = some job) (h : Matches id s d) :
    Matches id (visit codec sys s id) (d.step codec sys .tick) := by
  obtain ⟨hmem, hid⟩ := getJob_id hget
  obtain ⟨hlast, hshape⟩ := hs.jobs job hmem
  rcases h with ⟨found, hfound, hjobs, hnoerror, hsent⟩ | ⟨hnone, -⟩
  · obtain rfl := Option.some.inj (hget.symm.trans hfound)
    have hown : (upToError (job.serve codec sys).1).filter (fun m => m.id = id) = upToError (job.serve codec sys).1 := by
      rw [filter_of_id fun m hm =>
        ((serve_sent codec sys hlast hshape).1 m (mem_of_mem_upToError hm)).trans hid, if_pos rfl]
    have hall : ∀ m ∈ d.sent, m.isError = false := by
      intro m hm
      simpa using any_eq_false.mp hnoerror m hm
    have hsent' : (visit codec sys s id).sentFor id = upToError (d.step codec sys .tick).sent := by
      rw [visit_spec codec sys hs hget]
      simp only [sentFor, DirectReads.step, hjobs, handleReadJobs_serve codec sys hlast, filter_append, hown]
      rw [upToError_append hall, ← hsent]
      rfl
    cases herror : (job.serve codec sys).1.any isError with
    | true =>
      refine .inr ⟨?_, hsent', .inr ?_⟩
      · rw [visit_spec codec sys hs hget]
        simp only [herror, Bool.or_true, if_true]
        exact getJob_removeJob hs.ids
      · simp only [DirectReads.step, hjobs, handleReadJobs_serve codec sys hlast, any_append, herror, Bool.or_true]
    | false =>
      cases hended : (job.serve codec sys).2.2 with
      | true =>
        refine .inr ⟨?_, hsent', .inl ?_⟩
        · rw [visit_spec codec sys hs hget]
          simp only [hended, Bool.true_or, if_true]
          exact getJob_removeJob hs.ids
        · simp only [DirectReads.step, hjobs, handleReadJobs_serve codec sys hlast, hended, if_true]
      | false =>
        have hnoerror' : (d.step codec sys .tick).sent.any isError = false := by
          simp only [DirectReads.step, hjobs, handleReadJobs_serve codec sys hlast, any_append, herror,
            hnoerror, Bool.or_false]
        refine .inl ⟨(job.serve codec sys).2.1, ?_, ?_, hnoerror', ?_⟩
        · rw [visit_spec codec sys hs hget]
          simp only [hended, herror, Bool.or_false, Bool.false_eq_true, if_false]
          exact getJob_setJob hget ((serve_kept codec sys hshape).id.trans hid)
        · simp only [DirectReads.step, hjobs, handleReadJobs_serve codec sys hlast, hended, Bool.false_eq_true,
            if_false]
        · rw [hsent']
          exact upToError_of_none hnoerror'
  · simp [hget] at hnone

theorem Matches.visit_other (hs : s.Steady) (codec : Codec) (sys : StaticSystem)
    (hne : id ≠ other) (h : Matches id s d) : Matches id (visit codec sys s other) d := by
  obtain ⟨hget, hsent⟩ := visit_of_ne hs codec sys hne
  unfold Matches at h ⊢
  rw [hget, hsent]
  exact h

/-- A round of the manager is a round of the connection for a job that the loop comes to, and nothing for
the other ones. -/
theorem Matches.visits (codec : Codec) (sys : StaticSystem) {others : List Int}
    (hothers : others.Nodup) (hs : s.Steady) (hlisted : id ∈ others → (getJob id s.jobs).isSome) (h : Matches id s d) :
    (others.foldl (visit codec sys) s).Steady ∧
      Matches id (others.foldl (visit codec sys) s) (if id ∈ others then d.step codec sys .tick else d) := by
  induction others generalizing s d with
  | nil => exact ⟨hs, h⟩
  | cons other others ih =>
    rw [nodup_cons] at hothers
    rw [foldl_cons]
    by_cases heq : id = other
    · subst heq
      obtain ⟨job, hget⟩ := Option.isSome_iff_exists.mp (hlisted mem_cons_self)
      have hrest := ih hothers.2 (hs.visit codec sys id) (fun hmem => absurd hmem hothers.1)
        (h.visit_self hs codec sys hget)
      rw [if_neg hothers.1] at hrest
      rw [if_pos mem_cons_self]
      exact hrest
    · have hrest := ih hothers.2 (hs.visit codec sys other) (fun hmem => by
          rw [(visit_of_ne hs codec sys heq).1]
          exact hlisted (mem_cons_of_mem _ hmem))
        (h.visit_other hs codec sys heq)
      simpa only [mem_cons, heq, false_or] using hrest

/-- The rounds and confirmations that a job gets. -/
def answer (sys : StaticSystem) (id : Int) (s : ManagedReads) : RoundEvent → List RoundEvent
  | .tick => if id ∈ TransferJob.visited sys s.jobs then [.tick] else []
  | .confirm r => if r.id = id then [.confirm r] else []

/-- A confirmation carries a decision about the current file of its job. -/
def CarriesDecision (s : ManagedReads) : RoundEvent → Prop
  | .tick => True
  | .confirm r => ∀ job, getJob r.id s.jobs = some job → job.fileNum = r.fileNum ∧ r.union.isSome

theorem visited_sublist (sys : StaticSystem) (jobs : List TransferJob) :
    (TransferJob.visited sys jobs).Sublist (jobs.map TransferJob.id) := by
  induction jobs with
  | nil => exact .slnil
  | cons job jobs ih =>
    rw [visited, map_cons]
    split
    · exact ih.cons _
    · split
      · exact ih.cons_cons _
      · exact (nil_sublist _).cons_cons _

/-- The manager makes of a decision about the current file the same request. -/
theorem confirm_forRead {disk : Disk} {faults : Faults} (hnum : job.fileNum = r.fileNum) (hunion : r.union.isSome) :
    confirmed faults (r.forRead.request job) ⟨job, disk⟩ = confirmed faults r ⟨job, disk⟩ := by
  have hnum' : job.fileNum = (r.forRead.request job).fileNum := rfl
  unfold confirmed confirm
  rw [if_neg (not_not.mpr hnum), if_neg (not_not.mpr hnum')]
  match hr : r.union with
  | none => simp [hr] at hunion
  | some (.skip true) => simp [ConfirmForRead.request, SendConfirm.forRead, SendConfirm.skip, hr]
  | some (.skip false) =>
    simp [ConfirmForRead.request, SendConfirm.forRead, SendConfirm.skip, SendConfirm.offsetBlk, hr]
  | some (.offsetBlk offset) =>
    simp [ConfirmForRead.request, SendConfirm.forRead, SendConfirm.skip, SendConfirm.offsetBlk, hr, hnum]

section StepConfirm

variable (codec : Codec) (sys : StaticSystem)

/-- What a decision about the current file of a job does at the manager. -/
theorem step_confirm (hs : s.Steady)
    (hget : getJob r.id s.jobs = some job) (hnum : job.fileNum = r.fileNum) (hunion : r.union.isSome) :
    s.step codec sys (.confirm r) = { s with
        jobs := setJob r.id (confirmed (sys.seekFaults job) r ⟨job, sys.disk⟩).job s.jobs } := by
  obtain ⟨hmem, hid⟩ := getJob_id hget
  have hknown : r.id ∈ s.cmReadJobIds := hid ▸ hs.known job hmem
  have hget' : getJob r.forRead.id s.jobs = some job := hget
  simp only [step, if_pos hknown, confirmForRead, hget', confirm_forRead hnum hunion]
  rfl

/-- A confirmation for a job that the manager does not have. -/
theorem step_confirm_of_none (hget : getJob r.id s.jobs = none) : s.step codec sys (.confirm r) = s := by
  have hget' : getJob r.forRead.id s.jobs = none := hget
  simp only [step, confirmForRead, hget']
  split <;> rfl

theorem Steady.confirm (hs : s.Steady)
    (hr : s.CarriesDecision (.confirm r)) : (s.step codec sys (.confirm r)).Steady := by
  cases hget : getJob r.id s.jobs with
  | none =>
    rw [step_confirm_of_none codec sys hget]
    exact hs
  | some job =>
    obtain ⟨hmem, hid⟩ := getJob_id hget
    obtain ⟨hlast, hshape⟩ := hs.jobs job hmem
    obtain ⟨hkept, -⟩ := confirmed_cases (sys.seekFaults job) r job sys.disk
    obtain ⟨hnum, hunion⟩ := hr job hget
    rw [step_confirm codec sys hs hget hnum hunion]
    refine ⟨?_, fun j hj => ?_, fun j hj => ?_⟩
    · rw [map_id_setJob (hkept.id.trans hid)]
      exact hs.ids
    · rcases mem_setJob hj with rfl | hj
      · exact hkept.id ▸ hs.known job hmem
      · exact hs.known j hj
    · rcases mem_setJob hj with rfl | hj
      · exact ⟨hkept.isLastJob.trans hlast, hkept.shape hshape⟩
      · exact hs.jobs j hj

theorem Matches.confirm (hs : s.Steady) (h : Matches id s d) (hr : s.CarriesDecision (.confirm r)) :
    Matches id (s.step codec sys (.confirm r)) (runEvents (DirectReads.step codec sys) d (answer sys id s (.confirm r))) := by
  have hover : getJob id s.jobs = none → s.sentFor id = upToError d.sent →
      (d.jobs = [] ∨ d.sent.any isError = true) → Matches id s (d.step codec sys (.confirm r)) := by
    intro hnone hsent hend
    have hsame : (d.step codec sys (.confirm r)).sent = d.sent := by
      simp only [DirectReads.step]
      split <;> rfl
    refine .inr ⟨hnone, hsame ▸ hsent, hend.imp (fun hnil => ?_) fun herror => hsame ▸ herror⟩
    simp [DirectReads.step, hnil, getJob]
  simp only [answer]
  cases hget : getJob r.id s.jobs with
  | none =>
    rw [step_confirm_of_none codec sys hget]
    split
    next hid =>
      rcases h with ⟨job, hjob, -⟩ | ⟨hnone, hsent, hend⟩
      · simp [← hid, hget] at hjob
      · exact hover hnone hsent hend
    next => exact h
  | some job =>
    obtain ⟨hmem, hid⟩ := getJob_id hget
    obtain ⟨hkept, -⟩ := confirmed_cases (sys.seekFaults job) r job sys.disk
    obtain ⟨hnum, hunion⟩ := hr job hget
    rw [step_confirm codec sys hs hget hnum hunion]
    split
    next heq =>
      subst heq
      rcases h with ⟨found, hfound, hjobs, hnoerror, hsent⟩ | ⟨hnone, -⟩
      · obtain rfl := Option.some.inj (hget.symm.trans hfound)
        have hown : getJob r.id [job] = some job := by rw [getJob_cons, if_pos hid]
        refine .inl ⟨_, getJob_setJob hget (hkept.id.trans hid), ?_, ?_, ?_⟩
        · simp only [runEvents, DirectReads.step, hjobs, hown, setJob, if_pos hid]
        · simpa only [runEvents, DirectReads.step, hjobs, hown] using hnoerror
        · simp only [runEvents, DirectReads.step, hjobs, hown]
          exact hsent
      · simp [hget] at hnone
    next hne =>
      have hother := getJob_setJob_of_ne (Ne.symm hne) (hkept.id.trans hid) s.jobs
      unfold Matches at h ⊢
      dsimp only
      rw [hother]
      exact h

theorem Matches.step {e : RoundEvent} (hs : s.Steady) (h : Matches id s d) (he : s.CarriesDecision e) :
    (s.step codec sys e).Steady ∧
      Matches id (s.step codec sys e) (runEvents (DirectReads.step codec sys) d (answer sys id s e)) := by
  cases e with
  | tick =>
    rw [step_tick codec sys hs]
    have hlisted : id ∈ visited sys s.jobs → (getJob id s.jobs).isSome := by
      intro hmem
      rw [Option.isSome_iff_ne_none, Ne, getJob_eq_none_iff, not_not]
      exact (visited_sublist sys s.jobs).subset hmem
    have hvisits := h.visits codec sys (hs.ids.sublist (visited_sublist sys s.jobs)) hs hlisted
    simp only [answer]
    split
    next hmem =>
      rw [if_pos hmem] at hvisits
      exact hvisits
    next hmem =>
      rw [if_neg hmem] at hvisits
      exact hvisits
  | confirm r => exact ⟨hs.confirm codec sys he, h.confirm codec sys hs he⟩

end StepConfirm

end ManagedReads

end UnyDesk
