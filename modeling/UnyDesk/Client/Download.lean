import UnyDesk.Transfer.Delivery
import UnyDesk.Transfer.Failing
import UnyDesk.Transfer.Manager

/-!
# A download in which files fail

The read job of the controlled side and the loop of the client, with the messages between them in
order. The loop drops its job at the first error and reports it as done when the end is announced.
-/

namespace UnyDesk

open Lib JobState Remote TransferJob List

/-- Every file that did not fail is in its place, and the job is reported as done only if no file
failed. -/
def Spares (src : Source) (base : String) (disk : Disk) (failed : List Int) (reports : List Report) : Prop :=
  (∀ (n : ℕ) f, src.files[n]? = some f → (n : Int) ∉ failed → disk.contents (destOf base f) = some (src.content f)) ∧
    ∀ n, .jobDone src.id n ∈ reports → failed = []

/-- The system reports no failure on the receiving side, and what the loop decides about a file by
itself is to write it. -/
structure RemoteEnv.Writes (env : RemoteEnv) : Prop where
  faults : env.faults = {}
  check : env.digestCheck ≠ .ok .isSame
  strategy : env.overwriteStrategy ≠ some false

/-- The job after marks that do not touch what it has received. -/
def Marked (job job' : TransferJob) : Prop :=
  job' = { job with
    digest := job'.digest
    fileConfirmed := job'.fileConfirmed
    fileSkipped := job'.fileSkipped } ∧
  (job.fileSkipped = false → job'.fileSkipped = false)

section Marks

variable {job job' : TransferJob}

theorem Marked.refl (job : TransferJob) : Marked job job := ⟨rfl, id⟩

theorem Marked.setDigest (job : TransferJob) (size modified : ℕ) : Marked job (job.setDigest size modified) :=
  ⟨rfl, id⟩

theorem Marked.setFileConfirmed (h : Marked job job') : Marked job (job'.setFileConfirmed true) := by
  refine ⟨?_, fun _ => rfl⟩
  rw [h.1]
  rfl

/-- A confirmation from the start of a file sets a mark. -/
theorem Marked.confirmed (h : Marked job job') (faults : Faults) (id fileNum : Int) (disk : Disk) :
    ∃ job'', confirmed faults ⟨id, fileNum, some (.offsetBlk 0)⟩ ⟨job', disk⟩ = ⟨job'', disk⟩ ∧ Marked job job'' := by
  by_cases hnum : job'.fileNum = fileNum
  · exact ⟨_, by simp [JobState.confirmed, JobState.confirm, hnum], h.setFileConfirmed⟩
  · exact ⟨job', by simp [JobState.confirmed, JobState.confirm, hnum], h⟩

end Marks

namespace Remote

variable {r : Remote} {env : RemoteEnv} {job : TransferJob} {id : Int}

theorem onWriteJob_single (hjobs : r.writeJobs = [job]) (hid : job.id = id) (f : JobState → JobState) :
    r.onWriteJob id f = { r with writeJobs := [(f ⟨job, r.disk⟩).job], disk := (f ⟨job, r.disk⟩).disk } := by
  simp [onWriteJob, getJob, hjobs, hid, setJob]

theorem onWriteJob_other (hjobs : ∀ job ∈ r.writeJobs, job.id ≠ id) (f : JobState → JobState) :
    r.onWriteJob id f = r := by
  have hnone : getJob id r.writeJobs = none := by
    simpa [getJob] using hjobs
  simp [onWriteJob, hnone]

theorem getJob_single {jobs : List TransferJob} (hjobs : jobs = [job]) {found : TransferJob}
    (h : getJob id jobs = some found) : found = job ∧ job.id = id := by
  rw [hjobs, getJob, find?_singleton] at h
  split at h
  next hid => exact ⟨(Option.some.inj h).symm, of_decide_eq_true hid⟩
  next => exact absurd h nofun

/-- A confirmation from the start of a file. -/
theorem confirm_single (hjobs : r.writeJobs = [job]) {first : TransferJob} (hmarked : Marked first job)
    (faults : Faults) (id fileNum : Int) :
    ∃ job', r.onWriteJob id (confirmed faults ⟨id, fileNum, some (.offsetBlk 0)⟩) =
      { r with writeJobs := [job'] } ∧ Marked first job' := by
  by_cases hid : job.id = id
  · obtain ⟨job', heq, hmarked'⟩ := hmarked.confirmed faults id fileNum r.disk
    refine ⟨job', ?_, hmarked'⟩
    rw [onWriteJob_single hjobs hid, heq]
  · refine ⟨job, ?_, hmarked⟩
    rw [onWriteJob_other (by simpa [hjobs] using hid), ← hjobs]

/-- A digest leaves marks and perhaps asks the user. -/
theorem handleDownloadDigest_single (hwrites : env.Writes) (hjobs : r.writeJobs = [job])
    (hresume : job.isResume = false) (id fileNum : Int) (lastModified fileSize : ℕ) :
    ∃ job' asked, r.handleDownloadDigest env id fileNum lastModified fileSize =
      { r with writeJobs := [job'], reports := r.reports ++ asked } ∧ Marked job job' := by
  have hsame : ∃ job' asked, r = { r with writeJobs := [job'], reports := r.reports ++ asked } ∧ Marked job job' :=
    ⟨job, [], by rw [append_nil, ← hjobs], Marked.refl job⟩
  unfold handleDownloadDigest
  split
  next => exact hsame
  next found hfound =>
    obtain ⟨rfl, hid⟩ := getJob_single hjobs hfound
    split
    next entry base hentry hsource =>
      extract_lets digested confirm
      have hdigested : digested = { r with writeJobs := [found.setDigest fileSize lastModified] } :=
        onWriteJob_single hjobs hid _
      have hmarked := Marked.setDigest found fileSize lastModified
      have hconfirm : ∃ job' asked, confirm (.offsetBlk 0) =
          { r with writeJobs := [job'], reports := r.reports ++ asked } ∧ Marked found job' := by
        obtain ⟨job', heq, hmarked'⟩ :=
          confirm_single (r := digested) (by rw [hdigested]) hmarked env.faults id fileNum
        refine ⟨job', [], ?_, hmarked'⟩
        rw [append_nil]
        exact heq.trans (by rw [hdigested])
      split
      next => exact ⟨_, [], by rw [hdigested, append_nil], hmarked⟩
      next hcheck => exact absurd hcheck hwrites.check
      next => exact hconfirm
      next =>
        have hanswer : ∀ i t, digestAnswer env found.isResume i t = none ∨
            digestAnswer env found.isResume i t = some (.offsetBlk 0) := by
          intro i t
          cases hstrategy : env.overwriteStrategy with
          | none => exact .inl (by simp [digestAnswer, hresume, hstrategy])
          | some overwrite =>
            cases overwrite with
            | true => exact .inr (by simp [digestAnswer, hresume, hstrategy, overrideAnswer])
            | false => exact absurd hstrategy hwrites.strategy
        split
        next answer heq =>
          rcases hanswer _ _ with hnone | hsome
          · rw [heq] at hnone
            exact absurd hnone nofun
          · rw [heq, Option.some.injEq] at hsome
            rw [hsome]
            exact hconfirm
        next => exact ⟨_, [_], by rw [hdigested]; rfl, hmarked⟩
    next => exact hsame

/-- The report of a status does not touch files and transfers. -/
theorem transfers_handleJobStatus (s : Remote) (env : RemoteEnv) (id fileNum : Int) (err : Option String) :
    (s.handleJobStatus env id fileNum err).disk = s.disk ∧
      (s.handleJobStatus env id fileNum err).writeJobs = s.writeJobs := by
  have hreport : ∀ s : Remote, (s.reportStatus id fileNum err).disk = s.disk ∧
      (s.reportStatus id fileNum err).writeJobs = s.writeJobs := by
    intro s
    cases err <;> exact ⟨rfl, rfl⟩
  unfold handleJobStatus
  split
  next => exact hreport s
  next job _ =>
    by_cases hconfirm : job.noConfirm = true
    · rw [if_pos hconfirm]
      extract_lets next
      split
      next => split <;> first | exact hreport _ | exact ⟨rfl, rfl⟩
      next => exact hreport _
    · rw [if_neg hconfirm]
      exact hreport s

/-- The end of the write job puts its last file in place. -/
theorem transfers_handleDone (env : RemoteEnv) (hjobs : r.writeJobs = [job]) (hid : job.id = id) (fileNum : Int) :
    (r.handleDone env id fileNum).disk = job.modifyTime r.disk env.faults ∧
      (r.handleDone env id fileNum).writeJobs = [] := by
  have hremoved : removeJob id r.writeJobs = [] := by
    simp [hjobs, removeJob, hid]
  have hget : getJob id r.writeJobs = some job := by
    simp [getJob, hjobs, hid]
  simp only [handleDone, hget, hremoved]
  cases job.type with
  | generic => exact transfers_handleJobStatus _ env id fileNum job.jobError
  | printer => exact ⟨rfl, rfl⟩

/-- The loop has no removal job, no read job and at most one write job, which was not skipped. -/
structure Fit (r : Remote) : Prop where
  removeJobs : ∀ id, r.removeJobs id = none
  readJobs : r.readJobs = []
  writeJobs : r.writeJobs = [] ∨ ∃ job, r.writeJobs = [job] ∧ job.type = .generic ∧ job.isResume = false ∧
    job.fileSkipped = false

/-- The loop stays fit and takes no report back. -/
def StaysFit (r r' : Remote) : Prop := r'.Fit ∧ ∀ x ∈ r.reports, x ∈ r'.reports

theorem handleJobStatus_of_none (hnone : ∀ id, r.removeJobs id = none) (id fileNum : Int) (err : Option String) :
    r.handleJobStatus env id fileNum err = r.reportStatus id fileNum err := by
  simp [handleJobStatus, hnone]

namespace Fit

/-- The report of a status. -/
theorem handleJobStatus {s : Remote} (hs : s.Fit) (hreports : s.reports = r.reports) (id fileNum : Int)
    (err : Option String) : StaysFit r (s.handleJobStatus env id fileNum err) := by
  rw [handleJobStatus_of_none hs.removeJobs, StaysFit, ← hreports]
  cases err with
  | none => exact ⟨⟨hs.removeJobs, hs.readJobs, hs.writeJobs⟩, fun x hx => mem_append_left _ hx⟩
  | some e => exact ⟨⟨hs.removeJobs, hs.readJobs, hs.writeJobs⟩, fun x hx => mem_append_left _ hx⟩

/-- A job that is found is the only one; without it the loop has none. -/
theorem found (h : r.Fit) {job : TransferJob} (hfound : getJob id r.writeJobs = some job) :
    job.type = .generic ∧ job.jobError = none ∧ removeJob id r.writeJobs = [] := by
  rcases h.writeJobs with hjobs | ⟨only, hjobs, htype, -, hskipped⟩
  · simp [hjobs, getJob] at hfound
  · obtain ⟨rfl, hid⟩ := getJob_single hjobs hfound
    refine ⟨htype, ?_, ?_⟩
    · simp [jobError, jobSkipped, hskipped]
    · simp [hjobs, removeJob, hid]

/-- The end of a job is always reported as done. -/
theorem handleDone (h : r.Fit) (env : RemoteEnv) (id fileNum : Int) :
    StaysFit r (r.handleDone env id fileNum) ∧ .jobDone id fileNum ∈ (r.handleDone env id fileNum).reports := by
  have hreport : ∀ s : Remote, s.Fit → s.reports = r.reports → StaysFit r (s.handleJobStatus env id fileNum none) ∧
        .jobDone id fileNum ∈ (s.handleJobStatus env id fileNum none).reports := by
    intro s hs hreports
    refine ⟨hs.handleJobStatus hreports id fileNum none, ?_⟩
    rw [handleJobStatus_of_none hs.removeJobs]
    exact mem_append_right _ (mem_singleton.mpr rfl)
  unfold Remote.handleDone
  split
  next => exact hreport r h rfl
  next job hfound =>
    obtain ⟨htype, herror, hremoved⟩ := h.found hfound
    rw [htype, herror]
    exact hreport _ ⟨h.removeJobs, h.readJobs, .inl hremoved⟩ rfl

theorem handleError (h : r.Fit) (env : RemoteEnv) (id : Int) (error : String) (fileNum : Int) :
    StaysFit r (r.handleError env id error fileNum) := by
  unfold Remote.handleError
  split
  next job _ hfound =>
    obtain ⟨htype, -, hremoved⟩ := h.found hfound
    rw [htype]
    have hdropped : Fit { r with writeJobs := TransferJob.removeJob id r.writeJobs } :=
      ⟨h.removeJobs, h.readJobs, .inl hremoved⟩
    exact hdropped.handleJobStatus rfl id fileNum _
  next hfound => simp [h.readJobs, getJob] at hfound
  next => exact h.handleJobStatus rfl id fileNum _

/-- A block goes to the write job or nowhere. -/
theorem block (codec : Codec) (h : r.Fit) (faults : Faults) (b : FileTransferBlock) :
    StaysFit r (r.onWriteJob b.id fun js => (js.write codec faults b).2) := by
  rcases h.writeJobs with hjobs | ⟨job, hjobs, htype, hresume, hskipped⟩
  · rw [onWriteJob_other (by simp [hjobs])]
    exact ⟨h, fun x hx => hx⟩
  by_cases hid : job.id = b.id
  · rw [onWriteJob_single hjobs hid]
    have hsteady := steady_write codec ⟨job, r.disk⟩ faults b
    simp only [steady, Prod.mk.injEq] at hsteady
    obtain ⟨-, htype', -, hresume', hskipped'⟩ := hsteady
    refine ⟨⟨h.removeJobs, h.readJobs, .inr ⟨_, rfl, ?_, ?_, ?_⟩⟩, fun x hx => hx⟩
    · exact htype'.trans htype
    · exact hresume'.trans hresume
    · exact hskipped'.trans hskipped
  · rw [onWriteJob_other (by simpa [hjobs] using hid)]
    exact ⟨h, fun x hx => hx⟩

/-- Marks keep the loop fit. -/
theorem marked (h : r.Fit) {job job' : TransferJob} (hjobs : r.writeJobs = [job]) (hmarked : Marked job job')
    (asked : List Report) : StaysFit r { r with writeJobs := [job'], reports := r.reports ++ asked } := by
  rcases h.writeJobs with hnil | ⟨only, hjobs', htype, hresume, hskipped⟩
  · rw [hnil] at hjobs
    exact absurd hjobs nofun
  obtain rfl : only = job := by simpa [hjobs'] using hjobs
  refine ⟨⟨h.removeJobs, h.readJobs, .inr ⟨job', rfl, ?_, ?_, hmarked.2 hskipped⟩⟩, fun x hx => mem_append_left _ hx⟩
  · rw [hmarked.1]
    exact htype
  · rw [hmarked.1]
    exact hresume

theorem digest (hwrites : env.Writes) (h : r.Fit) (id fileNum : Int) (lastModified fileSize : ℕ) :
    StaysFit r (r.handleDownloadDigest env id fileNum lastModified fileSize) := by
  rcases h.writeJobs with hjobs | ⟨job, hjobs, htype, hresume, hskipped⟩
  · have hsame : r.handleDownloadDigest env id fileNum lastModified fileSize = r := by
      simp [handleDownloadDigest, hjobs, getJob]
    rw [hsame]
    exact ⟨h, fun x hx => hx⟩
  · obtain ⟨job', asked, heq, hmarked⟩ :=
      handleDownloadDigest_single hwrites hjobs hresume id fileNum lastModified fileSize
    rw [heq]
    exact h.marked hjobs hmarked asked

/-- Every message of a read job keeps the loop fit, and an end is reported. -/
theorem handle (codec : Codec) (hwrites : env.Writes) (h : r.Fit) (m : FileResponse) :
    StaysFit r (r.handleMsgFromPeer codec env m.toMessage) ∧
      ∀ id n, m = .done id n → .jobDone id n ∈ (r.handleMsgFromPeer codec env m.toMessage).reports := by
  cases m with
  | block b => exact ⟨h.block codec env.faults b, nofun⟩
  | done id n =>
    obtain ⟨hfit, hdone⟩ := h.handleDone env id n
    refine ⟨hfit, ?_⟩
    rintro _ _ ⟨⟩
    exact hdone
  | error id e n => exact ⟨h.handleError env id e n, nofun⟩
  | digest id n lastModified fileSize isResume => exact ⟨h.digest hwrites id n lastModified fileSize, nofun⟩

/-- The user lets a file be written. -/
theorem answer (h : r.Fit) (env : RemoteEnv) (id fileNum : Int) :
    StaysFit r (r.handleMsgFromUi env .user (.setConfirmOverrideFile id fileNum true false)) := by
  change StaysFit r (r.onWriteJob id (confirmed env.faults ⟨id, fileNum, some (.offsetBlk 0)⟩))
  rcases h.writeJobs with hjobs | ⟨job, hjobs, -⟩
  · rw [onWriteJob_other (by simp [hjobs])]
    exact ⟨h, fun x hx => hx⟩
  · obtain ⟨job', heq, hmarked⟩ := confirm_single hjobs (Marked.refl job) env.faults id fileNum
    rw [heq]
    simpa using h.marked hjobs hmarked []

end Fit

end Remote

/-- A download: the controlled side, the loop of the client, how many messages the loop has taken, and
the record of the files that failed. -/
structure Download where
  sender : Sender
  remote : Remote
  taken : ℕ := 0
  failed : List Int := []

inductive DownloadEvent
  /-- A round of the read job. -/
  | tick (faults : ReadFaults)
  /-- A confirmation arrives at the read job. -/
  | confirm (request : SendConfirm)
  /-- The loop takes the next message of the read job. -/
  | deliver (env : RemoteEnv)
  /-- The user lets an existing file be written. -/
  | answer (env : RemoteEnv) (fileNum : Int)

/-- Every file is confirmed for writing, and nothing fails on the receiving side. -/
def DownloadEvent.Confirms (files : List FileEntry) : DownloadEvent → Prop
  | .tick _ => True
  | .confirm request => (SendEvent.confirm request).Undisturbed files
  | .deliver env => env.Writes
  | .answer _ _ => True

namespace Download

variable {receiver : TransferJob} {detection : Bool}

/-- The start of a download whose file list the loop has received. -/
def start (src : Source) (receiver : TransferJob) (disk : Disk) : Download :=
  { sender := src.sender, remote := { disk, writeJobs := [receiver] } }

def step (codec : Codec) (src : Source) (d : Download) : DownloadEvent → Download
  | .tick faults =>
    { d with
      sender := d.sender.step codec src.disk (.tick faults)
      failed := d.failed ++ d.sender.failing src.disk faults }
  | .confirm request => { d with sender := d.sender.step codec src.disk (.confirm request) }
  | .deliver env =>
    match d.sender.sent[d.taken]? with
    | none => d
    | some m => { d with remote := d.remote.handleMsgFromPeer codec env m.toMessage, taken := d.taken + 1 }
  | .answer env fileNum =>
    { d with remote := d.remote.handleMsgFromUi env .user (.setConfirmOverrideFile src.id fileNum true false) }

/-- The read job has ended and its messages have arrived. -/
def Ended (d : Download) : Prop := d.sender.jobs = [] ∧ d.taken = d.sender.sent.length

/-- Whatever fails: the end that was announced is reported as done once it was taken. -/
structure Reports (src : Source) (d : Download) : Prop where
  sender : d.sender.Announces src
  remote : d.remote.Fit
  taken : d.taken ≤ d.sender.sent.length
  done : ∀ n, .done src.id n ∈ d.sender.sent.take d.taken → .jobDone src.id n ∈ d.remote.reports

variable {codec : Codec} {src : Source} {base : String} {d : Download} {e : DownloadEvent}

theorem Reports.send (h : Reports src d) (disk : Disk) (e : SendEvent) (failed : List Int)
    (hsender : (d.sender.step codec disk e).Announces src) :
    Reports src { d with sender := d.sender.step codec disk e, failed } := by
  obtain ⟨htake, hle⟩ := d.sender.take_sent_step codec h.taken disk e
  refine ⟨hsender, h.remote, hle, ?_⟩
  intro n hn
  rw [htake] at hn
  exact h.done n hn

theorem Reports.step (h : Reports src d) (he : e.Confirms src.files) : Reports src (d.step codec src e) := by
  cases e with
  | tick faults => exact h.send src.disk _ _ (h.sender.tick src.disk faults)
  | confirm request => exact h.send src.disk _ _ (h.sender.confirm src.disk he.1)
  | deliver env =>
    cases hm : d.sender.sent[d.taken]? with
    | none =>
      simp only [Download.step, hm]
      exact h
    | some m =>
      simp only [Download.step, hm]
      obtain ⟨⟨hfit, hkept⟩, hdone⟩ := h.remote.handle codec he m
      have hlt : d.taken < d.sender.sent.length := (List.getElem?_eq_some_iff.mp hm).1
      refine ⟨h.sender, hfit, hlt, ?_⟩
      intro n hn
      rw [List.take_add_one, hm] at hn
      rcases List.mem_append.mp hn with hn | hn
      · exact hkept _ (h.done n hn)
      · exact hdone src.id n (List.mem_singleton.mp hn).symm
  | answer env fileNum =>
    obtain ⟨hfit, hkept⟩ := h.remote.answer env src.id fileNum
    exact ⟨h.sender, hfit, h.taken, fun n hn => hkept _ (h.done n hn)⟩

/-- The job of an ended download is reported as done. -/
theorem Reports.jobDone (h : Reports src d) (hended : d.Ended) : ∃ n, .jobDone src.id n ∈ d.remote.reports := by
  rcases h.sender with ⟨job, hjobs, -⟩ | ⟨-, earlier, n, hsent⟩
  · rw [hended.1] at hjobs
    exact absurd hjobs nofun
  · refine ⟨n, h.done n ?_⟩
    rw [hended.2, take_length, hsent]
    exact mem_append_right _ (mem_singleton.mpr rfl)

/-- The loop is to receive the rest of the blocks, or has received everything. -/
structure Delivers (codec : Codec) (src : Source) (base : String) (d : Download) : Prop where
  sender : d.sender.Tracks codec src
  taken : d.taken ≤ d.sender.sent.length
  remote : (∃ job todo, d.remote.writeJobs = [job] ∧ job.isResume = false ∧
      Receives codec src base ⟨job, d.remote.disk⟩ todo ∧
      sentBlocks (d.sender.sent.take d.taken) ++ todo = src.blocks codec ∧
      ∀ n, .done src.id n ∉ d.sender.sent.take d.taken) ∨
    d.sender.jobs = [] ∧ d.remote.writeJobs = [] ∧ d.taken = d.sender.sent.length ∧
      Placed src base d.remote.disk src.files

theorem Delivers.send (h : Delivers codec src base d) (e : SendEvent) (failed : List Int)
    (hsender : (d.sender.step codec src.disk e).Tracks codec src) :
    Delivers codec src base { d with sender := d.sender.step codec src.disk e, failed } := by
  obtain ⟨htake, hle⟩ := d.sender.take_sent_step codec h.taken src.disk e
  refine ⟨hsender, hle, ?_⟩
  rcases h.remote with ⟨job, todo, hjobs, hresume, hreceives, htodo, hnone⟩ | ⟨hjobs, hwrites, hall, hplaced⟩
  · refine .inl ⟨job, todo, hjobs, hresume, hreceives, ?_, ?_⟩
    · rw [htake]
      exact htodo
    · rw [htake]
      exact hnone
  · -- A sender without a job sends nothing.
    have hidle : (d.sender.step codec src.disk e).jobs = [] ∧
        (d.sender.step codec src.disk e).sent = d.sender.sent := by
      cases e with
      | tick faults => simp [Sender.step, hjobs, handleReadJobs, firstTurn]
      | confirm request => simp [Sender.step, hjobs, confirmJob]
    refine .inr ⟨hidle.1, hwrites, ?_, hplaced⟩
    rw [hidle.2]
    exact hall

theorem Delivers.deliver (hcodec : ∀ bytes, codec.decompress (codec.compress bytes) = bytes)
    (happart : Apart base src.files)
    (hvalid : ∀ f ∈ src.files, validateFileNameNoTraversal f.name = .ok ()) {env : RemoteEnv}
    (hwrites : env.Writes) (h : Delivers codec src base d) {m : FileResponse}
    (hm : d.sender.sent[d.taken]? = some m) :
    Delivers codec src base
      { d with remote := d.remote.handleMsgFromPeer codec env m.toMessage, taken := d.taken + 1 } := by
  have hlt : d.taken < d.sender.sent.length := (List.getElem?_eq_some_iff.mp hm).1
  have htake : d.sender.sent.take (d.taken + 1) = d.sender.sent.take d.taken ++ [m] := by
    rw [List.take_add_one, hm]
    rfl
  rcases h.remote with ⟨job, todo, hjobs, hresume, hreceives, htodo, hnone⟩ | ⟨-, -, hall, -⟩
  · have hnone' : (∀ n, m ≠ .done src.id n) → ∀ n, .done src.id n ∉ d.sender.sent.take (d.taken + 1) := by
      intro hne n hmem
      rw [htake] at hmem
      rcases List.mem_append.mp hmem with hmem | hmem
      · exact hnone n hmem
      · exact hne n (List.mem_singleton.mp hmem).symm
    rcases h.sender.next_message hm htodo with ⟨b, later, rfl, rfl⟩ | ⟨k, t, z, r, rfl⟩ | ⟨⟨n, rfl⟩, rfl, hended, hall⟩
    · have hid : job.id = b.id := by
        have hmem : b ∈ src.blocks codec := by
          rw [← htodo]
          exact List.mem_append_right _ List.mem_cons_self
        rw [hreceives.job.id, mem_fileBlocks hmem]
      obtain ⟨-, hreceives'⟩ := hreceives.write hcodec happart hvalid
      have hsteady := steady_write codec ⟨job, d.remote.disk⟩ {} b
      simp only [steady, Prod.mk.injEq] at hsteady
      have hremote : d.remote.handleMsgFromPeer codec env (FileResponse.block b).toMessage = _ :=
        onWriteJob_single hjobs hid fun js => (js.write codec env.faults b).2
      rw [hremote, hwrites.faults]
      refine ⟨h.sender, hlt, .inl ⟨_, later, rfl, hsteady.2.2.2.1.trans hresume, hreceives', ?_,
        hnone' fun n hdone => by cases hdone⟩⟩
      rw [htake, sentBlocks_append, List.append_assoc]
      exact htodo
    · obtain ⟨job', asked, hremote, hmarked⟩ :=
        handleDownloadDigest_single hwrites hjobs hresume src.id k t z
      have hremote' : d.remote.handleMsgFromPeer codec env (FileResponse.digest src.id k t z r).toMessage = _ :=
        hremote
      rw [hremote']
      refine ⟨h.sender, hlt, .inl ⟨job', todo, rfl, ?_, hreceives.mark hmarked.1, ?_,
        hnone' fun n hdone => by cases hdone⟩⟩
      · rw [hmarked.1]
        exact hresume
      · rw [htake, sentBlocks_append, List.append_assoc]
        exact htodo
    · have hbefore := hreceives.complete happart hvalid
      have hdone := transfers_handleDone env hjobs hreceives.job.id n
      refine ⟨h.sender, hlt, .inr ⟨hended, hdone.2, hall, ?_⟩⟩
      change Placed src base (d.remote.handleDone env src.id n).disk src.files
      rw [hdone.1, hwrites.faults]
      exact hbefore.placed
  · omega

/-- As long as no file fails, the files are delivered. -/
theorem Delivers.step (hcodec : ∀ bytes, codec.decompress (codec.compress bytes) = bytes)
    (hreadable : src.Readable) (happart : Apart base src.files)
    (hvalid : ∀ f ∈ src.files, validateFileNameNoTraversal f.name = .ok ()) (he : e.Confirms src.files)
    (hfailed : (d.step codec src e).failed = []) (h : Delivers codec src base d) :
    Delivers codec src base (d.step codec src e) := by
  cases e with
  | tick faults =>
    have hfailing : d.sender.failing src.disk faults = [] := (append_eq_nil_iff.mp hfailed).2
    exact h.send _ _ (h.sender.tick_of_failing hcodec hreadable hfailing)
  | confirm request => exact h.send _ _ (h.sender.step hcodec hreadable he)
  | deliver env =>
    cases hm : d.sender.sent[d.taken]? with
    | none =>
      simp only [Download.step, hm]
      exact h
    | some m =>
      simp only [Download.step, hm]
      exact h.deliver hcodec happart hvalid he hm
  | answer env fileNum =>
    refine ⟨h.sender, h.taken, ?_⟩
    simp only [Download.step, handleMsgFromUi, Bool.false_eq_true, if_false]
    rcases h.remote with ⟨job, todo, hjobs, hresume, hreceives, hrest⟩ | ⟨hended, hjobs, hall, hplaced⟩
    · obtain ⟨job', heq, hmarked⟩ := confirm_single hjobs (Marked.refl job) env.faults src.id fileNum
      have heq' : d.remote.onWriteJob src.id (confirmed env.faults
          ⟨src.id, fileNum, some (overrideAnswer true 0)⟩) = _ := heq
      rw [heq']
      refine .inl ⟨job', todo, rfl, ?_, hreceives.mark hmarked.1, hrest⟩
      rw [hmarked.1]
      exact hresume
    · rw [onWriteJob_other (by simp [hjobs])]
      exact .inr ⟨hended, hjobs, hall, hplaced⟩

theorem failed_step (hfailed : (d.step codec src e).failed = []) : d.failed = [] := by
  cases e with
  | tick faults => exact (append_eq_nil_iff.mp hfailed).1
  | confirm request => exact hfailed
  | deliver env =>
    simp only [Download.step] at hfailed
    split at hfailed <;> exact hfailed
  | answer env fileNum => exact hfailed

/-- A new download. -/
theorem delivers_start (hcodec : ∀ bytes, codec.decompress (codec.compress bytes) = bytes)
    (hreceiver : (newWrite src.id .generic (.filePath base) 0 detection).setFiles src.files none =
      .ok receiver) (disk : Disk) : Delivers codec src base (start src receiver disk) := by
  have hbefore := before_new hreceiver disk
  refine ⟨sender_tracks hcodec src, Nat.zero_le _, .inl ⟨receiver, src.blocks codec, rfl, ?_,
    hbefore.receives codec, rfl, by simp [start, Source.sender]⟩⟩
  rw [setFiles_eq hreceiver]
  rfl

theorem reports_start (hreceiver : (newWrite src.id .generic (.filePath base) 0 detection).setFiles src.files none =
      .ok receiver) (disk : Disk) : Reports src (start src receiver disk) := by
  refine ⟨.inl ⟨src.job, rfl, ⟨rfl, rfl, rfl, rfl, rfl, rfl, rfl, rfl⟩⟩, ⟨fun _ => rfl, rfl, .inr ⟨receiver, rfl, ?_⟩⟩,
    Nat.zero_le _, by simp [start]⟩
  rw [setFiles_eq hreceiver]
  exact ⟨rfl, rfl, rfl⟩

section Run

variable {receiver : TransferJob} {detection : Bool} {disk : Disk} {events : List DownloadEvent}

/-- Once a file has failed, the report of an ended download is not true. -/
theorem failed_of_spares
    (hreceiver : (newWrite src.id .generic (.filePath base) 0 detection).setFiles src.files none = .ok receiver)
    (hevents : ∀ e ∈ events, e.Confirms src.files)
    (hended : (runEvents (step codec src) (start src receiver disk) events).Ended) :
    let d := runEvents (step codec src) (start src receiver disk) events
    Spares src base d.remote.disk d.failed d.remote.reports → d.failed = [] := by
  rintro d ⟨-, hdone⟩
  have hrun : RunMeets (step codec src) (fun _ e => e.Confirms src.files) (start src receiver disk) events :=
    runMeets_of_forall hevents _
  have hreports : Reports src d :=
    runEvents_invariant (fun s e hs he => Reports.step hs he) (reports_start hreceiver disk) hrun
  obtain ⟨n, hn⟩ := hreports.jobDone hended
  exact hdone n hn

/-- A download in which no file fails leaves every file in its place. -/
theorem spares (hcodec : ∀ bytes, codec.decompress (codec.compress bytes) = bytes)
    (hreadable : src.Readable) (happart : Apart base src.files)
    (hreceiver : (newWrite src.id .generic (.filePath base) 0 detection).setFiles src.files none = .ok receiver)
    (hevents : ∀ e ∈ events, e.Confirms src.files)
    (hended : (runEvents (step codec src) (start src receiver disk) events).Ended)
    (hfailed : (runEvents (step codec src) (start src receiver disk) events).failed = []) :
    let d := runEvents (step codec src) (start src receiver disk) events
    Spares src base d.remote.disk d.failed d.remote.reports := by
  intro d
  have hvalid := names_valid (validate_of_setFiles hreceiver)
  have hrun : RunMeets (step codec src) (fun _ e => e.Confirms src.files) (start src receiver disk) events :=
    runMeets_of_forall hevents _
  have hdelivers : d.failed = [] → Delivers codec src base d := by
    refine runEvents_invariant (I := fun d => d.failed = [] → Delivers codec src base d) ?_
      (fun _ => delivers_start hcodec hreceiver disk) hrun
    intro s e hs he hfailed
    exact (hs (failed_step hfailed)).step hcodec hreadable happart hvalid he hfailed
  have hend := hdelivers hfailed
  refine ⟨?_, fun _ _ => hfailed⟩
  intro n f hf _
  rcases hend.remote with ⟨job, todo, -, -, -, -, hnone⟩ | ⟨-, -, -, hplaced⟩
  · -- The end was taken, so the job is not receiving any more.
    rcases hend.sender.announces with ⟨job, hjobs, -⟩ | ⟨-, earlier, n, hsent⟩
    · rw [hended.1] at hjobs
      exact absurd hjobs nofun
    · refine absurd ?_ (hnone n)
      rw [hended.2, take_length, hsent]
      exact mem_append_right _ (mem_singleton.mpr rfl)
  · exact (hplaced f (mem_of_getElem? hf)).1

end Run

end Download

end UnyDesk
