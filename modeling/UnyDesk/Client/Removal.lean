import UnyDesk.Client.Remote
import UnyDesk.Lib.Machine

/-!
# Where removals of local files come from

A removal job for a local directory is filled from a listing of that directory, and the loop then
removes one file after the other. The invariant attributes every message of this chain to a listing
that was taken when the user created the job. One message of the peer breaks it: a directory listing
replaces the files of a removal job, whichever side the job is for.
-/

namespace UnyDesk

open Lib Function List

/-- What the attribution of removals depends on. -/
def Remote.removal (s : Remote) :
    (Int → Option RemoveJob) × List (Origin × Data) × List (Int × RemoveJob) × List Removal :=
  (s.removeJobs, s.channel, s.created, s.removed)

/-- The path belongs to a file that was listed when a local removal job of this number was created. -/
def Remote.Listed (s : Remote) (id : Int) (path : String) : Prop :=
  ∃ job, (id, job) ∈ s.created ∧ ∃ entry ∈ job.files, path = job.path ++ job.sep ++ entry.name

/-- Local removal jobs, the messages of the chain and its removals are as they were listed. -/
structure Remote.Attributed (s : Remote) : Prop where
  jobs : ∀ id job, s.removeJobs id = some job → job.isRemote = false →
    ∃ first, (id, first) ∈ s.created ∧ first.path = job.path ∧ first.sep = job.sep ∧ first.files = job.files
  channel : ∀ id path n, (Origin.chain, Data.removeFile id path n false) ∈ s.channel → s.Listed id path
  removed : ∀ r ∈ s.removed, r.origin = .chain → s.Listed r.id r.path

/-- The event is no directory listing of the peer for a local removal job. A listing for a write job
does not reach the removal job of that number. -/
def ListingsStay (s : Remote) : RemoteEvent → Prop
  | .peer _ (.dir id _) => getJob id s.writeJobs = none → ∀ job, s.removeJobs id = some job → job.isRemote = true
  | _ => True

namespace Remote

variable {origin : Origin}

section Frame

variable (s : Remote)

@[simp] theorem removal_onWriteJob (id : Int) (f : JobState → JobState) :
    (s.onWriteJob id f).removal = s.removal := by
  unfold onWriteJob
  split <;> rfl

@[simp] theorem removal_onReadJob (id : Int) (f : TransferJob → TransferJob) :
    (s.onReadJob id f).removal = s.removal := by
  unfold onReadJob
  split <;> rfl

@[simp] theorem removal_reportStatus (id fileNum : Int) (err : Option String) :
    (s.reportStatus id fileNum err).removal = s.removal := by
  cases err <;> rfl

theorem removal_confirmDeleteFiles (id fileNum : Int) : (s.confirmDeleteFiles id fileNum).removal = s.removal := by
  unfold confirmDeleteFiles
  split <;> rfl

end Frame

variable {s s' : Remote} {env : RemoteEnv}

section Attributed

variable (hs : s.Attributed) {id : Int}
include hs

namespace Attributed

theorem of_removal (h : s'.removal = s.removal) : s'.Attributed := by
  simp only [removal, Prod.mk.injEq] at h
  obtain ⟨hjobs, hchannel, hcreated, hremoved⟩ := h
  refine ⟨?_, ?_, ?_⟩
  · rw [hjobs, hcreated]
    exact hs.jobs
  · rw [hchannel]
    unfold Listed
    rw [hcreated]
    exact hs.channel
  · rw [hremoved]
    unfold Listed
    rw [hcreated]
    exact hs.removed

/-- A removal job may be dropped. -/
theorem dropJob (id : Int) (hjobs : s'.removeJobs = update s.removeJobs id none)
    (hrest : s'.channel = s.channel ∧ s'.created = s.created ∧ s'.removed = s.removed) : s'.Attributed := by
  obtain ⟨hchannel, hcreated, hremoved⟩ := hrest
  refine ⟨?_, ?_, ?_⟩
  · intro id' job hjob hlocal
    rw [hjobs] at hjob
    by_cases hid : id' = id
    · simp [hid] at hjob
    · rw [update_of_ne hid] at hjob
      rw [hcreated]
      exact hs.jobs id' job hjob hlocal
  · intro id' path n hmem
    rw [hchannel] at hmem
    unfold Listed
    rw [hcreated]
    exact hs.channel id' path n hmem
  · intro r hr
    rw [hremoved] at hr
    unfold Listed
    rw [hcreated]
    exact hs.removed r hr

/-- A message for a file of a removal job may be put into the channel. -/
theorem push {job : RemoveJob} (hjob : s.removeJobs id = some job)
    {entry : FileEntry} (hentry : entry ∈ job.files) (n : ℕ) :
    Attributed { s with channel := s.channel ++ [(.chain, removalOf id job n entry)] } := by
  refine ⟨hs.jobs, ?_, hs.removed⟩
  intro id' path k hmem
  rcases mem_append.mp hmem with hmem | hmem
  · exact hs.channel id' path k hmem
  · obtain ⟨rfl, rfl, -, hlocal⟩ : id' = id ∧ path = job.path ++ job.sep ++ entry.name ∧
        k = wrapI32 n ∧ false = job.isRemote := by
      simpa [removalOf] using hmem
    obtain ⟨first, hmem, hpath, hsep, hfiles⟩ := hs.jobs _ job hjob hlocal.symm
    refine ⟨first, hmem, entry, ?_, by rw [hpath, hsep]⟩
    rw [hfiles]
    exact hentry

/-- The next message of the chain is for a listed file. -/
theorem handleJobStatus (id fileNum : Int) (err : Option String) :
    (s.handleJobStatus env id fileNum err).Attributed := by
  unfold Remote.handleJobStatus
  split
  next => exact hs.of_removal (removal_reportStatus s id fileNum err)
  next job hjob =>
    by_cases hconfirm : job.noConfirm = true
    · rw [if_pos hconfirm]
      extract_lets n
      split
      next entry hentry =>
        have hnext := hs.push hjob (mem_of_getElem? hentry) n
        split
        next => exact hnext.of_removal (removal_reportStatus _ id fileNum err)
        next => exact hnext
      next =>
        have hdropped : Attributed { s with removeJobs := Function.update s.removeJobs id none } :=
          hs.dropJob id rfl ⟨rfl, rfl, rfl⟩
        exact hdropped.of_removal (removal_reportStatus _ id fileNum err)
    · rw [if_neg hconfirm]
      exact hs.of_removal (removal_reportStatus s id fileNum err)

theorem cancelTransferJob (id : Int) : (s.cancelTransferJob env id).Attributed :=
  hs.dropJob id rfl ⟨rfl, rfl, rfl⟩

/-- A job may be changed as long as its files and their place stay. -/
theorem setJob {old job : RemoveJob} (hold : s.removeJobs id = some old) (hjob : job.isRemote = false →
      old.isRemote = false ∧ old.path = job.path ∧ old.sep = job.sep ∧ old.files = job.files) :
    Attributed { s with removeJobs := update s.removeJobs id (some job) } := by
  refine ⟨?_, hs.channel, hs.removed⟩
  intro id' job' hjob' hlocal
  by_cases hid : id' = id
  · subst hid
    simp only [update_self, Option.some.injEq] at hjob'
    obtain ⟨hlocal', hpath, hsep, hfiles⟩ := hjob (hjob' ▸ hlocal)
    obtain ⟨first, hmem, hpath', hsep', hfiles'⟩ := hs.jobs _ old hold hlocal'
    rw [← hjob']
    exact ⟨first, hmem, hpath'.trans hpath, hsep'.trans hsep, hfiles'.trans hfiles⟩
  · simp only [update_of_ne hid] at hjob'
    exact hs.jobs id' job' hjob' hlocal

theorem setNoConfirm (id : Int) : (s.setNoConfirm id).Attributed := by
  unfold Remote.setNoConfirm
  split
  next => exact hs
  next job hjob => exact hs.setJob hjob fun hlocal => ⟨hlocal, rfl, rfl, rfl⟩

theorem startRead (id : Int) (type : JobType) (path : String) (fileNum : Int)
    (isLastJob : Bool) : (s.startRead env id type path fileNum isLastJob).Attributed := by
  unfold Remote.startRead
  split
  next => exact hs.handleJobStatus id _ _
  next => exact hs.of_removal rfl

/-- A new local job is recorded with its listing. -/
theorem removeDirAll (id : Int) (path : String) (isRemote : Bool) :
    (s.removeDirAll env id path isRemote).Attributed := by
  unfold Remote.removeDirAll
  split
  next hremote =>
    refine ⟨?_, hs.channel, hs.removed⟩
    intro id' job hjob hlocal
    by_cases hid : id' = id
    · subst hid
      simp only [Function.update_self, Option.some.injEq] at hjob
      rw [← hjob] at hlocal
      simp [hremote] at hlocal
    · simp only [Function.update_of_ne hid] at hjob
      exact hs.jobs id' job hjob hlocal
  next =>
    split
    next => exact hs.handleJobStatus id _ _
    next files _ =>
      have hgrows : ∀ id path, s.Listed id path → ∀ entry : Int × RemoveJob,
          ∃ job, (id, job) ∈ s.created ++ [entry] ∧ ∃ e ∈ job.files, path = job.path ++ job.sep ++ e.name := by
        rintro id path ⟨job, hmem, hpath⟩ entry
        exact ⟨job, mem_append_left _ hmem, hpath⟩
      refine ⟨?_, fun id' path' n hmem => hgrows _ _ (hs.channel id' path' n hmem) _,
        fun r hr hchain => hgrows _ _ (hs.removed r hr hchain) _⟩
      intro id' job hjob hlocal
      by_cases hid : id' = id
      · subst hid
        simp only [Function.update_self, Option.some.injEq] at hjob
        exact ⟨job, mem_append_right _ (by simp [hjob]), rfl, rfl, rfl⟩
      · simp only [Function.update_of_ne hid] at hjob
        obtain ⟨first, hmem, hrest⟩ := hs.jobs id' job hjob hlocal
        exact ⟨first, mem_append_left _ hmem, hrest⟩

theorem removeLocalFile {path : String} (hlisted : origin = .chain → s.Listed id path) (fileNum : Int) :
    (s.removeLocalFile env origin id path fileNum).Attributed := by
  unfold Remote.removeLocalFile
  extract_lets disk after
  have hafter : after.Attributed := by
    refine ⟨hs.jobs, hs.channel, ?_⟩
    intro r hr hchain
    rcases mem_append.mp hr with hr | hr
    · exact hs.removed r hr hchain
    · obtain rfl := mem_singleton.mp hr
      exact hlisted hchain
  exact hafter.handleJobStatus id fileNum _

theorem renameLocalFile (id : Int) (path newName : String) : (s.renameLocalFile env id path newName).Attributed := by
  unfold Remote.renameLocalFile
  extract_lets disk
  have hafter : Attributed { s with disk } := hs.of_removal rfl
  exact hafter.handleJobStatus id _ _

/-- A message of the channel keeps the attribution, if the chain asks for listed files only. -/
theorem handleMsgFromUi {data : Data}
    (hlisted : ∀ id path n, data = .removeFile id path n false → origin = .chain → s.Listed id path) :
    (s.handleMsgFromUi env origin data).Attributed := by
  cases data with
  | sendFiles id type path target fileNum isRemote =>
    cases isRemote with
    | true => exact hs.of_removal rfl
    | false => exact hs.startRead id type path fileNum false
  | addJob id type path target fileNum isRemote =>
    cases isRemote with
    | true => exact hs.of_removal rfl
    | false => exact hs.startRead id type path fileNum true
  | resumeJob id isRemote =>
    cases isRemote with
    | true => exact hs.of_removal (by simp [Remote.handleMsgFromUi])
    | false => exact hs.of_removal (by simp [Remote.handleMsgFromUi])
  | setNoConfirm id => exact hs.setNoConfirm id
  | confirmDeleteFiles id fileNum => exact hs.of_removal (removal_confirmDeleteFiles s id fileNum)
  | setConfirmOverrideFile id fileNum needOverride isUpload =>
    cases isUpload with
    | true => exact hs.of_removal (by simp [Remote.handleMsgFromUi])
    | false => exact hs.of_removal (by simp [Remote.handleMsgFromUi])
  | removeDirAll id path isRemote => exact hs.removeDirAll id path isRemote
  | cancelJob id => exact hs.cancelTransferJob id
  | removeDir id path => exact hs
  | removeFile id path fileNum isRemote =>
    cases isRemote with
    | true => exact hs
    | false => exact hs.removeLocalFile (hlisted id path fileNum rfl) fileNum
  | createDir id path isRemote =>
    cases isRemote with
    | true => exact hs
    | false => exact hs.handleJobStatus id _ _
  | renameFile id path newName isRemote =>
    cases isRemote with
    | true => exact hs
    | false => exact hs.renameLocalFile id path newName
  | other => exact hs

/-- A directory listing keeps the attribution unless it is for a local removal job. -/
theorem handleDir (hstay : getJob id s.writeJobs = none → ∀ job, s.removeJobs id = some job → job.isRemote = true)
    (entries : List FileEntry) : (s.handleDir env id entries).Attributed := by
  unfold Remote.handleDir
  extract_lets listed
  split
  next =>
    split
    next => exact (hs.cancelTransferJob id).handleJobStatus id _ _
    next => exact hs.of_removal rfl
  next job hnone hjob =>
    refine hs.setJob hjob fun hlocal => ?_
    have hremote := hstay hnone job hjob
    rw [hremote] at hlocal
    exact absurd hlocal (by decide)
  next => exact hs

end Attributed

end Attributed

theorem removal_handleUploadDigest (s : Remote) (id fileNum : Int) (transferredSize : ℕ) (isIdentical : Bool) :
    (s.handleUploadDigest env id fileNum transferredSize isIdentical).removal = s.removal := by
  unfold handleUploadDigest
  split
  next => rfl
  next =>
    split
    next =>
      split
      next => exact removal_onReadJob s id _
      next => rfl
    next => rfl

theorem removal_handleDownloadDigest (s : Remote) (id fileNum : Int) (lastModified fileSize : ℕ) :
    (s.handleDownloadDigest env id fileNum lastModified fileSize).removal = s.removal := by
  unfold handleDownloadDigest
  split
  next => rfl
  next =>
    split
    next =>
      extract_lets digested confirm
      have hdigested : digested.removal = s.removal := removal_onWriteJob s id _
      have hconfirm : ∀ answer, (confirm answer).removal = s.removal := fun answer =>
        (removal_onWriteJob digested id _).trans hdigested
      split
      next => exact hdigested
      next => exact hconfirm _
      next => exact hconfirm _
      next =>
        split
        next => exact hconfirm _
        next => exact hdigested
    next => rfl

section

variable (hs : s.Attributed)
include hs

theorem Attributed.endJob (type : JobType) (id fileNum : Int) (err : Option String) :
    (s.endJob env type id fileNum err).Attributed := by
  cases type with
  | generic => exact hs.handleJobStatus id fileNum err
  | printer => exact hs

theorem Attributed.handleDone (id fileNum : Int) : (s.handleDone env id fileNum).Attributed := by
  unfold Remote.handleDone
  split
  next => exact hs.handleJobStatus id fileNum none
  next =>
    apply Attributed.endJob
    exact hs.of_removal rfl

theorem Attributed.handleError (id : Int) (error : String) (fileNum : Int) :
    (s.handleError env id error fileNum).Attributed := by
  unfold Remote.handleError
  split
  next =>
    apply Attributed.endJob
    exact hs.of_removal rfl
  next =>
    apply Attributed.endJob
    exact hs.of_removal rfl
  next => exact hs.handleJobStatus id fileNum (some error)

/-- The next message of the channel. -/
theorem Attributed.receive {data : Data} {channel : List (Origin × Data)}
    (hchannel : s.channel = (origin, data) :: channel) :
    Attributed (Remote.handleMsgFromUi env { s with channel } origin data) := by
  have hrest : Attributed { s with channel } := by
    refine ⟨hs.jobs, ?_, hs.removed⟩
    intro id path n hmem
    exact hs.channel id path n (hchannel ▸ mem_cons_of_mem _ hmem)
  refine hrest.handleMsgFromUi ?_
  rintro id path n rfl rfl
  exact hs.channel id path n (hchannel ▸ mem_cons_self)

end

/-- Every event but a listing for a local removal job keeps the attribution. -/
theorem Attributed.step (codec : Codec) (hs : s.Attributed) {e : RemoteEvent} (he : ListingsStay s e) :
    (s.step codec e).Attributed := by
  cases e with
  | ui data =>
    refine ⟨hs.jobs, ?_, hs.removed⟩
    intro id path n hmem
    rcases mem_append.mp hmem with hmem | hmem
    · exact hs.channel id path n hmem
    · simp at hmem
  | receive env =>
    cases hchannel : s.channel with
    | nil =>
      simp only [Remote.step, hchannel]
      exact hs
    | cons head channel =>
      simp only [Remote.step, hchannel]
      exact hs.receive hchannel
  | peer env message =>
    cases message with
    | dir id entries => exact hs.handleDir he entries
    | digest id fileNum lastModified fileSize transferredSize isUpload isIdentical =>
      cases isUpload with
      | true => exact hs.of_removal (removal_handleUploadDigest s id fileNum transferredSize isIdentical)
      | false => exact hs.of_removal (removal_handleDownloadDigest s id fileNum lastModified fileSize)
    | block block => exact hs.of_removal (removal_onWriteJob s block.id _)
    | done id fileNum => exact hs.handleDone id fileNum
    | error id error fileNum => exact hs.handleError id error fileNum
    | sendConfirm request => exact hs.of_removal (removal_onReadJob s request.id _)
    | other => exact hs
  | tick env => exact hs.of_removal rfl

end Remote

/-- In every run of the loop, with any events of the user interface, the timer and the peer, in which no
directory listing of the peer is for a local removal job, every file that the chain removes was
listed below the path of a local removal job when the user created that job. -/
theorem chain_removes_listed_files (codec : Codec) (disk : Disk) (events : List RemoteEvent)
    (hrun : RunMeets (Remote.step codec) ListingsStay { disk } events) :
    ∀ r ∈ (runEvents (Remote.step codec) { disk } events).removed, r.origin = .chain →
      ∃ job, (r.id, job) ∈ (runEvents (Remote.step codec) { disk } events).created ∧
        ∃ entry ∈ job.files, r.path = job.path ++ job.sep ++ entry.name := by
  have hstart : Remote.Attributed { disk } := ⟨by simp, by simp, by simp⟩
  have hend := runEvents_invariant (I := Remote.Attributed) (fun s e hs he => hs.step codec he) hstart hrun
  exact hend.removed

/-- The user removes a directory with two files and removes the first one after the confirmation. The
peer sends the listing of another job in between. -/
def removalEvents : List RemoteEvent :=
  [.ui (.removeDirAll 7 "/home/d" false), .receive { listing := .ok [⟨"a", 0, 0⟩, ⟨"b", 0, 0⟩] },
    .ui (.setNoConfirm 7), .receive {}, .peer {} (.dir 8 [⟨"../x", 0, 0⟩]),
    .ui (.removeFile 7 "/home/d/a" 0 false), .receive {}, .receive {}]

theorem chain_removes_listed_files_two_files :
    ⟨.chain, 7, "/home/d/b"⟩ ∈ (runEvents (Remote.step ⟨id, id⟩) { disk := .empty } removalEvents).removed ∧
      ∃ job, (7, job) ∈ (runEvents (Remote.step ⟨id, id⟩) { disk := .empty } removalEvents).created ∧
        ∃ entry ∈ job.files, "/home/d/b" = job.path ++ job.sep ++ entry.name := by
  have hremoved : ⟨.chain, 7, "/home/d/b"⟩ ∈
      (runEvents (Remote.step ⟨id, id⟩) { disk := .empty } removalEvents).removed := by
    decide
  have hother : (runEvents (Remote.step ⟨id, id⟩) { disk := .empty } (removalEvents.take 4)).removeJobs 8 = none := by
    decide
  refine ⟨hremoved, chain_removes_listed_files ⟨id, id⟩ .empty removalEvents ?_ _ hremoved rfl⟩
  refine ⟨trivial, trivial, trivial, trivial, fun _ job hjob => ?_, trivial, trivial, trivial, trivial⟩
  exact absurd (hother.symm.trans hjob) nofun

/-- The listing of the peer takes the place of the local one, and the next end of a job that the peer
reports removes a file outside of the directory. -/
theorem peer_listing_removes_other_file : ¬ ∀ events : List RemoteEvent,
      ∀ r ∈ (runEvents (Remote.step ⟨id, id⟩) { disk := .empty } events).removed, r.origin = .chain →
        ∃ job, (r.id, job) ∈ (runEvents (Remote.step ⟨id, id⟩) { disk := .empty } events).created ∧
          ∃ entry ∈ job.files, r.path = job.path ++ job.sep ++ entry.name := by
  let events : List RemoteEvent :=
    [.ui (.removeDirAll 7 "/home/d" false), .receive { listing := .ok [⟨"a", 0, 0⟩] }, .ui (.setNoConfirm 7),
      .receive {}, .peer {} (.dir 7 [⟨"../x", 0, 0⟩]), .peer {} (.done 7 (-1)), .receive {}]
  intro h
  have hremoved : ⟨.chain, 7, "/home/d/../x"⟩ ∈
      (runEvents (Remote.step ⟨id, id⟩) { disk := .empty } events).removed := by
    decide
  have hcreated : (runEvents (Remote.step ⟨id, id⟩) { disk := .empty } events).created =
      [(7, { files := [⟨"a", 0, 0⟩], path := "/home/d", sep := "/", isRemote := false })] := by
    decide
  obtain ⟨job, hjob, entry, hentry, hpath⟩ := h events _ hremoved rfl
  rw [hcreated, List.mem_singleton] at hjob
  obtain ⟨-, rfl⟩ := Prod.mk.inj hjob
  rw [List.mem_singleton.mp hentry] at hpath
  exact absurd hpath (by decide)

end UnyDesk
