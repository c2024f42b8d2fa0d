import UnyDesk.Client.Download

/-!
# An upload in which files fail

The read job of a client and the connection manager of the controlled side, with the messages of both
directions in order. The manager drops its job at the first error.
-/

namespace UnyDesk

open Lib Remote TransferJob List JobState Download

/-- An entry as the manager gets it: its name and time, without its size. -/
def FileEntry.unsized (f : FileEntry) : FileEntry := { name := f.name, modifiedTime := f.modifiedTime }

open FileEntry

/-- The files as the manager gets them. -/
def Source.unsized (src : Source) : Source := { src with files := src.files.map FileEntry.unsized }

section Unsized

variable {codec : Codec} {src : Source} {base : String}

theorem content_unsized (src : Source) (f : FileEntry) : src.unsized.content f.unsized = src.content f := rfl

theorem fileBlocks_unsized (n : ℕ) (files : List FileEntry) :
    src.unsized.fileBlocks codec n (files.map FileEntry.unsized) = src.fileBlocks codec n files := by
  induction files generalizing n with
  | nil => rfl
  | cons f files ih =>
    have hname : src.unsized.job.blockName src.base f.unsized = src.job.blockName src.base f := by
      have hlength : src.unsized.job.files.length = src.job.files.length := length_map _
      unfold blockName
      rw [hlength]
      rfl
    have hdata : src.unsized.dataBlock codec n f.unsized = src.dataBlock codec n f := by
      funext buf
      unfold Source.dataBlock
      rw [← hname]
      rfl
    rw [map_cons, Source.fileBlocks, Source.fileBlocks, ih, hdata, content_unsized]
    rfl

theorem blocks_unsized : src.unsized.blocks codec = src.blocks codec := fileBlocks_unsized 0 src.files

theorem apart_unsized (h : Apart base src.files) : Apart base src.unsized.files := by
  intro f' hf' g' hg' hne
  obtain ⟨f, hf, rfl⟩ := mem_map.mp hf'
  obtain ⟨g, hg, rfl⟩ := mem_map.mp hg'
  refine h f hf g hg ?_
  rintro rfl
  exact hne rfl

theorem forM_unsized (check : String → Except String Unit) (files : List FileEntry) :
    (files.map unsized).forM (fun f => check f.name) = files.forM fun f => check f.name := by
  induction files with
  | nil => rfl
  | cons f files ih =>
    change (check f.name >>= fun _ => (files.map unsized).forM _) = (check f.name >>= fun _ => files.forM _)
    rw [ih]

/-- The check of the names does not look at sizes. -/
theorem validate_unsized (files : List FileEntry) : validateTransferFileNames (files.map unsized) =
      validateTransferFileNames files := by
  have hall := forM_unsized (fun name =>
    if name = "" then .error "empty file name in multi-file transfer" else validateFileNameNoTraversal name) files
  unfold validateTransferFileNames
  split
  next h =>
    obtain ⟨f, rfl, hf⟩ := map_eq_singleton_iff.mp h
    obtain ⟨name, size, time⟩ := f
    obtain ⟨rfl, -, -⟩ := mk.inj hf
    rfl
  next hne =>
    split
    next => exact absurd rfl (hne _ _)
    next => exact hall

end Unsized

/-- A reply of the manager that lets the read job go on. -/
def PeerMessage.Allows (src : Source) : PeerMessage → Prop
  | .done _ _ => True
  | .digest _ fileNum _ _ _ isUpload _ => isUpload = true ∧ fileNum < src.files.length
  | .sendConfirm request => request.union = some (.offsetBlk 0) ∧ request.fileNum < src.files.length
  | _ => False

/-- The client sends the files of the source and does nothing else. -/
structure Remote.Sends (codec : Codec) (src : Source) (r : Remote) : Prop where
  removeJobs : ∀ id, r.removeJobs id = none
  writeJobs : r.writeJobs = []
  disk : r.disk = src.disk
  sender : ∃ ended, Sender.Tracks codec src ⟨r.readJobs, ended, r.toPeer⟩

/-- The client goes on sending; its messages stay, and so does the end of its job. -/
def Remote.GoesOn (codec : Codec) (src : Source) (r r' : Remote) : Prop :=
  r'.Sends codec src ∧ r'.toPeer = r.toPeer ∧ (r.readJobs = [] → r'.readJobs = [])

section Client

variable {codec : Codec} {src : Source} {r : Remote} {env : RemoteEnv}

theorem Remote.Sends.jobs (h : r.Sends codec src) : r.readJobs = [] ∨ ∃ job, r.readJobs = [job] ∧ SameJob src job := by
  obtain ⟨ended, htracks⟩ := h.sender
  rcases htracks.announces with hjob | ⟨hnil, -⟩
  · exact .inr hjob
  · exact .inl hnil

section Sends

variable (h : r.Sends codec src) (faults : Faults) (request : SendConfirm)
  (hunion : request.union = some (.offsetBlk 0))
include h hunion

/-- A confirmation from the start of a file, as the account of the sender has it. -/
theorem Remote.Sends.onReadJob : (r.onReadJob request.id fun job => (confirmed faults request ⟨job, r.disk⟩).job) =
      { r with readJobs := confirmJob src.disk request r.readJobs } := by
  rcases h.jobs with hnil | ⟨job, hjobs, -⟩
  · simp [Remote.onReadJob, hnil, getJob, confirmJob]
    rw [← hnil]
  · by_cases hid : job.id = request.id
    · by_cases hnum : job.fileNum = request.fileNum
      · simp [Remote.onReadJob, hjobs, getJob, hid, setJob, confirmJob, confirmed, confirm, hnum, hunion]
      · simp [Remote.onReadJob, hjobs, getJob, hid, setJob, confirmJob, confirmed, confirm, hnum]
    · simp [Remote.onReadJob, hjobs, getJob, hid, confirmJob]
      rw [← hjobs]

theorem Remote.Sends.confirm (hrange : request.fileNum < src.files.length) : Remote.GoesOn codec src r
      (r.onReadJob request.id fun job => (confirmed faults request ⟨job, r.disk⟩).job) := by
  rw [h.onReadJob faults request hunion]
  obtain ⟨ended, htracks⟩ := h.sender
  have hnext := htracks.confirm (.inr hunion) hrange
  refine ⟨⟨h.removeJobs, h.writeJobs, h.disk, ended, hnext⟩, rfl, ?_⟩
  intro hnil
  simp [hnil, confirmJob]

end Sends

/-- The reports of a client do not matter for what it sends. -/
theorem Remote.Sends.report (h : r.Sends codec src) (reports : List Report) :
    Remote.GoesOn codec src r { r with reports } :=
  ⟨⟨h.removeJobs, h.writeJobs, h.disk, h.sender⟩, rfl, id⟩

theorem Remote.Sends.digest (hstrategy : env.overwriteStrategy ≠ some false) (h : r.Sends codec src)
    (id : Int) {fileNum : Int} (hrange : fileNum < src.files.length) (transferredSize : ℕ) (isIdentical : Bool) :
    Remote.GoesOn codec src r (r.handleUploadDigest env id fileNum transferredSize isIdentical) := by
  have hsame : Remote.GoesOn codec src r r := h.report r.reports
  unfold handleUploadDigest
  split
  next => exact hsame
  next job hfound =>
    split
    next entry base hentry hsource =>
      split
      next answer hanswer =>
        rcases h.jobs with hnil | ⟨only, hjobs, honly⟩
        · simp [hnil, getJob] at hfound
        obtain ⟨rfl, -⟩ := getJob_single hjobs hfound
        obtain rfl : answer = .offsetBlk 0 := by
          cases hchoice : env.overwriteStrategy with
          | none => simp [digestAnswer, honly.isResume, hchoice] at hanswer
          | some overwrite =>
            cases overwrite with
            | true => simpa [digestAnswer, honly.isResume, hchoice, overrideAnswer] using hanswer.symm
            | false => exact absurd hchoice hstrategy
        exact h.confirm env.faults ⟨id, fileNum, some (.offsetBlk 0)⟩ rfl hrange
      next => exact h.report _
    next => exact hsame

/-- Every reply of the manager lets the client go on. -/
theorem Remote.Sends.handle (hstrategy : env.overwriteStrategy ≠ some false) (h : r.Sends codec src)
    {m : PeerMessage} (hm : m.Allows src) :
    Remote.GoesOn codec src r (r.handleMsgFromPeer codec env m) := by
  cases m with
  | done id fileNum =>
    have hdone : r.handleDone env id fileNum = r.reportStatus id fileNum none := by
      simp [handleDone, h.writeJobs, getJob, handleJobStatus_of_none h.removeJobs]
    change Remote.GoesOn codec src r (r.handleDone env id fileNum)
    rw [hdone]
    exact h.report _
  | digest id fileNum lastModified fileSize transferredSize isUpload isIdentical =>
    obtain ⟨rfl, hrange⟩ := hm
    exact h.digest hstrategy id hrange transferredSize isIdentical
  | sendConfirm request => exact h.confirm env.faults request hm.1 hm.2
  | dir id entries => exact hm.elim
  | block b => exact hm.elim
  | error id e fileNum => exact hm.elim
  | other => exact hm.elim

end Client

/-- An upload: both sides, how many messages of the other one each side has taken, and the record of
the files that failed. -/
structure Upload where
  client : Remote
  manager : Manager
  up : ℕ := 0
  down : ℕ := 0
  failed : List Int := []

inductive UploadEvent
  /-- A round of the read job. -/
  | tick (faults : ReadFaults)
  /-- The manager takes the next message of the client. -/
  | toManager (env : ManagerEnv)
  /-- The client takes the next message of the manager. -/
  | toClient (env : RemoteEnv)
  /-- The user lets an existing file be written. -/
  | answer (env : RemoteEnv) (fileNum : Int)
  /-- What the client or its user decided about a file arrives at the manager. -/
  | forward (env : ManagerEnv) (fileNum : Int)

/-- Every file is confirmed for writing, and nothing fails on the receiving side. -/
def UploadEvent.Confirms (files : List FileEntry) : UploadEvent → Prop
  | .tick _ => True
  | .toManager env => env.faults = {} ∧ env.digestCheck ≠ .ok .isSame ∧ ∀ err, env.digestCheck ≠ .error err
  | .toClient env => env.overwriteStrategy ≠ some false
  | .answer _ fileNum => fileNum < files.length
  | .forward _ _ => True

namespace Upload

/-- The start of an upload, after the manager was told of it. -/
def start (codec : Codec) (src : Source) (base : String) (detection : Bool) (disk : Disk) : Upload where
  client := { disk := src.disk, readJobs := [src.job] }
  manager := Manager.handleFs codec {} { disk }
    (.newWrite src.id base 0 (src.files.map fun f => (f.name, f.modifiedTime)) detection src.job.totalSize)

def step (codec : Codec) (src : Source) (u : Upload) : UploadEvent → Upload
  | .tick faults =>
    { u with
      client := u.client.step codec (.tick { reads := fun _ => faults })
      failed := u.failed ++ Sender.failing src.disk { jobs := u.client.readJobs } faults }
  | .toManager env =>
    match u.client.toPeer[u.up]? with
    | none => u
    | some m => { u with manager := u.manager.handleFs codec env m.toFs, up := u.up + 1 }
  | .toClient env =>
    match u.manager.toPeer[u.down]? with
    | none => u
    | some m => { u with client := u.client.handleMsgFromPeer codec env m, down := u.down + 1 }
  | .answer env fileNum =>
    { u with client := u.client.handleMsgFromUi env .user (.setConfirmOverrideFile src.id fileNum true true) }
  | .forward env fileNum =>
    { u with manager := u.manager.handleFs codec env (.sendConfirm ⟨src.id, fileNum, some (.offsetBlk 0)⟩) }

/-- The read job has ended and all messages have arrived. -/
def Ended (u : Upload) : Prop :=
  u.client.readJobs = [] ∧ u.up = u.client.toPeer.length ∧ u.down = u.manager.toPeer.length

/-- The manager is to receive the rest of the blocks, or has received everything. -/
structure Delivers (codec : Codec) (src : Source) (base : String) (u : Upload) : Prop where
  client : u.client.Sends codec src
  up : u.up ≤ u.client.toPeer.length
  replies : ∀ m ∈ u.manager.toPeer, m.Allows src
  manager : (∃ job todo, u.manager.writeJobs = [job] ∧ Receives codec src.unsized base ⟨job, u.manager.disk⟩ todo ∧
      sentBlocks (u.client.toPeer.take u.up) ++ todo = src.blocks codec ∧
      ∀ n, .done src.id n ∉ u.client.toPeer.take u.up) ∨
    u.client.readJobs = [] ∧ u.manager.writeJobs = [] ∧ u.up = u.client.toPeer.length ∧
      Placed src.unsized base u.manager.disk src.unsized.files

variable {codec : Codec} {src : Source} {base : String} {u : Upload} {e : UploadEvent}

/-- A client that goes on. -/
theorem Delivers.client_step (h : Delivers codec src base u) {client : Remote}
    (hclient : Remote.GoesOn codec src u.client client) (down : ℕ) :
    Delivers codec src base { u with client, down } := by
  obtain ⟨hsends, hsame, hended⟩ := hclient
  refine ⟨hsends, ?_, h.replies, ?_⟩
  · rw [hsame]
    exact h.up
  · rw [hsame]
    rcases h.manager with hreceiving | ⟨hjobs, hrest⟩
    · exact .inl hreceiving
    · exact .inr ⟨hended hjobs, hrest⟩

theorem Delivers.tick (hcodec : ∀ bytes, codec.decompress (codec.compress bytes) = bytes)
    (hreadable : src.Readable) (h : Delivers codec src base u) {faults : ReadFaults}
    (hfailing : Sender.failing src.disk { jobs := u.client.readJobs } faults = []) (failed : List Int) :
    Delivers codec src base { u with client := u.client.step codec (.tick { reads := fun _ => faults }), failed } := by
  obtain ⟨ended, htracks⟩ := h.client.sender
  let sender : Sender := ⟨u.client.readJobs, ended, u.client.toPeer⟩
  have hfailing' : sender.failing src.disk faults = [] := hfailing
  have hnext := htracks.tick_of_failing hcodec hreadable hfailing'
  obtain ⟨htake, hle⟩ := sender.take_sent_step codec h.up src.disk (.tick faults)
  -- The round of the client is that of a sender with its job.
  have hround : u.client.step codec (.tick { reads := fun _ => faults }) = { u.client with
        readJobs := (sender.step codec src.disk (.tick faults)).jobs
        toPeer := (sender.step codec src.disk (.tick faults)).sent } := by
    simp only [Remote.step, h.client.disk]
    rfl
  rw [hround]
  refine ⟨⟨h.client.removeJobs, h.client.writeJobs, h.client.disk, _, hnext⟩, hle, h.replies, ?_⟩
  rcases h.manager with ⟨job, todo, hjobs, hreceives, htodo, hnone⟩ | ⟨hjobs, hwrites, hall, hplaced⟩
  · refine .inl ⟨job, todo, hjobs, hreceives, ?_, ?_⟩
    · rw [htake]
      exact htodo
    · rw [htake]
      exact hnone
  · have hidle : (sender.step codec src.disk (.tick faults)).jobs = [] ∧
        (sender.step codec src.disk (.tick faults)).sent = u.client.toPeer := by
      simp [Sender.step, sender, hjobs, TransferJob.handleReadJobs, TransferJob.firstTurn]
    refine .inr ⟨hidle.1, hwrites, ?_, hplaced⟩
    rw [hidle.2]
    exact hall

end Upload

namespace Manager

variable {codec : Codec} {src : Source} {base : String} {m : Manager} {env : ManagerEnv} {job : TransferJob}

/-- A block that the job accepts. -/
theorem writeBlock_single (hjobs : m.writeJobs = [job]) {b : FileTransferBlock} (hid : job.id = b.id)
    (hok : (write codec ⟨job, m.disk⟩ env.faults b).1 = none) :
    m.writeBlock codec env b = { m with
        writeJobs := [(write codec ⟨job, m.disk⟩ env.faults b).2.job]
        disk := (write codec ⟨job, m.disk⟩ env.faults b).2.disk } := by
  simp [writeBlock, getJob, hjobs, hid, hok, setJob]

/-- A digest sets the digest of the job and is answered so that the read job goes on. -/
theorem checkDigest_single (hcheck : env.digestCheck ≠ .ok .isSame ∧ ∀ err, env.digestCheck ≠ .error err)
    (hjobs : m.writeJobs = [job]) (hfiles : job.files = src.unsized.files) (id fileNum : Int)
    (fileSize lastModified : ℕ) :
    ∃ job' replies, m.checkDigest env id fileNum fileSize lastModified true =
      { m with writeJobs := [job'], toPeer := m.toPeer ++ replies } ∧ Marked job job' ∧
      ∀ reply ∈ replies, PeerMessage.Allows src reply := by
  have hsame : ∃ job' replies, m = { m with writeJobs := [job'], toPeer := m.toPeer ++ replies } ∧
      Marked job job' ∧ ∀ reply ∈ replies, PeerMessage.Allows src reply :=
    ⟨job, [], by rw [List.append_nil, ← hjobs], Marked.refl job, nofun⟩
  unfold checkDigest
  split
  next => exact hsame
  next found hfound =>
    obtain ⟨rfl, hid⟩ := getJob_single hjobs hfound
    split
    next entry base hentry hsource =>
      have hrange : fileNum < src.files.length := by
        have hlt := (List.getElem?_eq_some_iff.mp hentry).1
        rw [hfiles, Source.unsized, List.length_map] at hlt
        unfold asUsize at hlt
        split at hlt <;> omega
      have hset : setJob id (found.setDigest fileSize lastModified) m.writeJobs =
          [found.setDigest fileSize lastModified] := by
        simp [hjobs, setJob, hid]
      split
      next err herr => exact absurd herr (hcheck.2 err)
      next result hresult =>
        rw [hset]
        extract_lets digested
        have hreply : ∀ reply : PeerMessage, reply.Allows src → ∃ job' replies, digested.send reply =
            { m with writeJobs := [job'], toPeer := m.toPeer ++ replies } ∧ Marked found job' ∧
            ∀ reply ∈ replies, PeerMessage.Allows src reply := by
          intro reply hallows
          refine ⟨_, [reply], rfl, Marked.setDigest found fileSize lastModified, ?_⟩
          intro sent hsent
          rw [List.mem_singleton.mp hsent]
          exact hallows
        split
        next => exact absurd hresult hcheck.1
        next => exact hreply _ ⟨rfl, hrange⟩
        next => exact hreply _ ⟨rfl, hrange⟩
    next => exact hsame

/-- The end of the job puts its last file in place and is answered. -/
theorem writeDone_single (hjobs : m.writeJobs = [job]) {id : Int} (hid : job.id = id) (fileNum : Int) :
    m.handleFs codec env (.writeDone id fileNum) =
      { disk := job.modifyTime m.disk env.faults, writeJobs := [],
        toPeer := m.toPeer ++ [.done id fileNum] } := by
  simp [handleFs, getJob, hjobs, hid, removeJob, send]

variable (codec env) in
/-- What the client decided about a file sets a mark. -/
theorem sendConfirm_single (hjobs : m.writeJobs = [job]) (id fileNum : Int) :
    ∃ job', m.handleFs codec env (.sendConfirm ⟨id, fileNum, some (.offsetBlk 0)⟩) =
      { m with writeJobs := [job'] } ∧ Marked job job' := by
  by_cases hid : job.id = id
  · obtain ⟨job', heq, hmarked⟩ := (Marked.refl job).confirmed env.faults id fileNum m.disk
    refine ⟨job', ?_, hmarked⟩
    simp [handleFs, getJob, hjobs, hid, setJob, heq]
  · refine ⟨job, ?_, Marked.refl job⟩
    simp only [handleFs, getJob, hjobs, find?_singleton, decide_eq_true_eq, if_neg hid]
    rw [← hjobs]

end Manager

namespace Upload

variable {codec : Codec} {src : Source} {base : String} {u : Upload} {e : UploadEvent}

theorem Delivers.toManager (hcodec : ∀ bytes, codec.decompress (codec.compress bytes) = bytes)
    (happart : Apart base src.files)
    (hvalid : ∀ f ∈ src.unsized.files, validateFileNameNoTraversal f.name = .ok ()) {env : ManagerEnv}
    (henv : (UploadEvent.toManager env).Confirms src.files) (h : Delivers codec src base u) {m : FileResponse}
    (hm : u.client.toPeer[u.up]? = some m) :
    Delivers codec src base { u with manager := u.manager.handleFs codec env m.toFs, up := u.up + 1 } := by
  obtain ⟨hfaults, hcheck⟩ := henv
  have hlt : u.up < u.client.toPeer.length := (List.getElem?_eq_some_iff.mp hm).1
  have htake : u.client.toPeer.take (u.up + 1) = u.client.toPeer.take u.up ++ [m] := by
    rw [List.take_add_one, hm]
    rfl
  rcases h.manager with ⟨job, todo, hjobs, hreceives, htodo, hnone⟩ | ⟨-, -, hall, -⟩
  · have hnone' : (∀ n, m ≠ .done src.id n) → ∀ n, .done src.id n ∉ u.client.toPeer.take (u.up + 1) := by
      intro hne n hmem
      rw [htake] at hmem
      rcases List.mem_append.mp hmem with hmem | hmem
      · exact hnone n hmem
      · exact hne n (List.mem_singleton.mp hmem).symm
    obtain ⟨ended, htracks⟩ := h.client.sender
    rcases htracks.next_message hm htodo with
      ⟨b, later, rfl, rfl⟩ | ⟨k, t, z, r, rfl⟩ | ⟨⟨n, rfl⟩, rfl, hended, hall⟩
    · have hid : job.id = b.id := by
        have hmem : b ∈ src.blocks codec := by
          rw [← htodo]
          exact List.mem_append_right _ List.mem_cons_self
        exact hreceives.job.id.trans (mem_fileBlocks hmem).symm
      obtain ⟨hok, hreceives'⟩ := hreceives.write hcodec (apart_unsized happart) hvalid
      have hmanager : u.manager.handleFs codec env (FileResponse.block b).toFs = _ :=
        Manager.writeBlock_single hjobs hid (by rw [hfaults]; exact hok)
      rw [hmanager, hfaults]
      refine ⟨h.client, hlt, h.replies, .inl ⟨_, later, rfl, hreceives', ?_, hnone' nofun⟩⟩
      rw [htake, sentBlocks_append, List.append_assoc]
      exact htodo
    · obtain ⟨job', replies, hchecked, hmarked, hallows⟩ :=
        Manager.checkDigest_single hcheck hjobs hreceives.job.files src.id k z t
      have hmanager : u.manager.handleFs codec env (FileResponse.digest src.id k t z r).toFs = _ := hchecked
      rw [hmanager]
      refine ⟨h.client, hlt, ?_, .inl ⟨job', todo, rfl, hreceives.mark hmarked.1, ?_, hnone' nofun⟩⟩
      · intro reply hreply
        rcases List.mem_append.mp hreply with hreply | hreply
        · exact h.replies reply hreply
        · exact hallows reply hreply
      · rw [htake, sentBlocks_append, List.append_assoc]
        exact htodo
    · have hbefore := hreceives.complete (apart_unsized happart) hvalid
      have hmanager : u.manager.handleFs codec env (FileResponse.done src.id n).toFs = _ :=
        Manager.writeDone_single hjobs hreceives.job.id n
      rw [hmanager, hfaults]
      refine ⟨h.client, hlt, ?_, .inr ⟨hended, rfl, hall, hbefore.placed⟩⟩
      intro reply hreply
      rcases List.mem_append.mp hreply with hreply | hreply
      · exact h.replies reply hreply
      · rw [List.mem_singleton.mp hreply]
        trivial
  · omega

theorem Delivers.forward (h : Delivers codec src base u) (env : ManagerEnv) (fileNum : Int) :
    Delivers codec src base (u.step codec src (.forward env fileNum)) := by
  rcases h.manager with ⟨job, todo, hjobs, hreceives, hrest⟩ | ⟨hended, hjobs, hrest⟩
  · obtain ⟨job', heq, hmarked⟩ := Manager.sendConfirm_single codec env hjobs src.id fileNum
    simp only [Upload.step, heq]
    exact ⟨h.client, h.up, h.replies, .inl ⟨job', todo, rfl, hreceives.mark hmarked.1, hrest⟩⟩
  · have hsame : u.step codec src (.forward env fileNum) = u := by
      simp [Upload.step, Manager.handleFs, getJob, hjobs]
    rw [hsame]
    exact h

theorem Delivers.step (hcodec : ∀ bytes, codec.decompress (codec.compress bytes) = bytes)
    (hreadable : src.Readable) (happart : Apart base src.files)
    (hvalid : ∀ f ∈ src.unsized.files, validateFileNameNoTraversal f.name = .ok ()) (he : e.Confirms src.files)
    (hfailed : (u.step codec src e).failed = []) (h : Delivers codec src base u) :
    Delivers codec src base (u.step codec src e) := by
  cases e with
  | tick faults => exact h.tick hcodec hreadable (append_eq_nil_iff.mp hfailed).2 _
  | toManager env =>
    cases hm : u.client.toPeer[u.up]? with
    | none =>
      simp only [Upload.step, hm]
      exact h
    | some m =>
      simp only [Upload.step, hm]
      exact h.toManager hcodec happart hvalid he hm
  | toClient env =>
    cases hm : u.manager.toPeer[u.down]? with
    | none =>
      simp only [Upload.step, hm]
      exact h
    | some m =>
      simp only [Upload.step, hm]
      exact h.client_step (h.client.handle he (h.replies m (mem_of_getElem? hm))) _
  | answer env fileNum =>
    exact h.client_step (h.client.confirm env.faults ⟨src.id, fileNum, some (.offsetBlk 0)⟩ rfl he) _
  | forward env fileNum => exact h.forward env fileNum

theorem failed_step (hfailed : (u.step codec src e).failed = []) : u.failed = [] := by
  cases e with
  | tick faults => exact (append_eq_nil_iff.mp hfailed).1
  | toManager env =>
    simp only [Upload.step] at hfailed
    split at hfailed <;> exact hfailed
  | toClient env =>
    simp only [Upload.step] at hfailed
    split at hfailed <;> exact hfailed
  | answer env fileNum => exact hfailed
  | forward env fileNum => exact hfailed

/-- A new upload. -/
theorem delivers_start (hcodec : ∀ bytes, codec.decompress (codec.compress bytes) = bytes)
    (hnames : validateTransferFileNames src.files = .ok ()) (detection : Bool) (disk : Disk) :
    Delivers codec src base (start codec src base detection disk) := by
  have hfiles : (src.files.map fun f => (f.name, f.modifiedTime)).map
      (fun f => ({ name := f.1, modifiedTime := f.2 } : FileEntry)) = src.unsized.files := by
    rw [map_map]
    rfl
  have hnames' : validateTransferFileNames src.unsized.files = .ok () :=
    (validate_unsized src.files).trans hnames
  let receiver : TransferJob :=
    { newWrite src.id .generic (.filePath base) 0 detection with
      files := src.unsized.files
      totalSize := src.job.totalSize }
  have hmanager : (start codec src base detection disk).manager = { disk, writeJobs := [receiver] } := by
    simp only [start, Manager.handleFs, Manager.newWrite, hfiles]
    simp [setFiles, hnames', newWrite, failWith, bind, Except.bind, pure, Except.pure, receiver]
  have hbefore : Before src.unsized base ⟨receiver, disk⟩ [] :=
    ⟨⟨rfl, rfl, rfl, rfl⟩, .inr rfl, by simp [Placed], rfl⟩
  obtain htracks := sender_tracks hcodec src
  refine ⟨⟨fun _ => rfl, rfl, rfl, none, htracks⟩, Nat.zero_le _, ?_, ?_⟩
  · rw [hmanager]
    exact fun m hm => by cases hm
  · rw [hmanager]
    refine .inl ⟨receiver, src.blocks codec, rfl, ?_, rfl, fun n hdone => by cases hdone⟩
    rw [← blocks_unsized]
    exact hbefore.receives codec

/-- An upload in which no file fails leaves every file in its place. -/
theorem spares (hcodec : ∀ bytes, codec.decompress (codec.compress bytes) = bytes)
    (hreadable : src.Readable) (happart : Apart base src.files)
    (hnames : validateTransferFileNames src.files = .ok ()) (detection : Bool) (disk : Disk)
    {events : List UploadEvent} (hevents : ∀ e ∈ events, e.Confirms src.files)
    (hended : (runEvents (step codec src) (start codec src base detection disk) events).Ended)
    (hfailed : (runEvents (step codec src) (start codec src base detection disk) events).failed = []) :
    let u := runEvents (step codec src) (start codec src base detection disk) events
    Spares src base u.manager.disk u.failed u.client.reports := by
  intro u
  have hvalid := names_valid ((validate_unsized src.files).trans hnames)
  have hrun : RunMeets (step codec src) (fun _ e => e.Confirms src.files) (start codec src base detection disk)
      events := runMeets_of_forall hevents _
  have hdelivers : u.failed = [] → Delivers codec src base u := by
    refine runEvents_invariant (I := fun u => u.failed = [] → Delivers codec src base u) ?_
      (fun _ => delivers_start hcodec hnames detection disk) hrun
    intro s e hs he hfailed
    exact (hs (failed_step hfailed)).step hcodec hreadable happart hvalid he hfailed
  have hend := hdelivers hfailed
  refine ⟨?_, fun _ _ => hfailed⟩
  intro n f hf _
  rcases hend.manager with ⟨job, todo, -, -, -, hnone⟩ | ⟨-, -, -, hplaced⟩
  · -- The end was taken, so the job is not receiving any more.
    obtain ⟨ended, htracks⟩ := hend.client.sender
    rcases htracks.announces with ⟨job, hjobs, -⟩ | ⟨-, earlier, n, hsent⟩
    · rw [hended.1] at hjobs
      exact absurd hjobs nofun
    · have hall : u.client.toPeer.take u.up = earlier ++ [.done src.id n] := by
        rw [← hsent, take_of_length_le]
        exact hended.2.1.ge
      refine absurd ?_ (hnone n)
      rw [hall]
      exact mem_append_right _ (mem_singleton.mpr rfl)
  · exact (hplaced f.unsized (mem_map_of_mem (mem_of_getElem? hf))).1

end Upload

/-- Transfers in which files fail, in both directions, with every file confirmed for writing and no
failure on the receiving side. When a download has ended, every file that did not fail is in its place
and the job is reported as done only if no file failed: this holds only if no file failed at all, and
then it holds, unless a file goes where another one is received. For uploads it holds as well if no
file failed. -/
theorem files_spared_unless_one_fails (codec : Codec)
    (hcodec : ∀ bytes, codec.decompress (codec.compress bytes) = bytes) (src : Source) (hreadable : src.Readable)
    (base : String) (disk : Disk) (detection : Bool) (receiver : TransferJob)
    (hreceiver : (TransferJob.newWrite src.id .generic (.filePath base) 0 detection).setFiles src.files none =
      .ok receiver) :
    (∀ events : List DownloadEvent, (∀ e ∈ events, e.Confirms src.files) →
      let d := runEvents (Download.step codec src) (Download.start src receiver disk) events
      d.Ended → (Spares src base d.remote.disk d.failed d.remote.reports → d.failed = []) ∧
        (Apart base src.files → d.failed = [] → Spares src base d.remote.disk d.failed d.remote.reports)) ∧
    ∀ events : List UploadEvent, (∀ e ∈ events, e.Confirms src.files) →
      let u := runEvents (Upload.step codec src) (Upload.start codec src base detection disk) events
      u.Ended → Apart base src.files → u.failed = [] → Spares src base u.manager.disk u.failed u.client.reports := by
  refine ⟨?_, ?_⟩
  · intro events hevents d hended
    refine ⟨failed_of_spares hreceiver hevents hended, ?_⟩
    exact fun happart => spares hcodec hreadable happart hreceiver hevents hended
  · intro events hevents u hended happart
    exact Upload.spares hcodec hreadable happart (validate_of_setFiles hreceiver) detection disk hevents hended

theorem files_spared_unless_one_fails_sample :
    let events : List DownloadEvent := List.replicate 4 (.tick {}) ++ List.replicate 4 (.deliver {})
    let d := runEvents (Download.step ⟨id, id⟩ sampleSource) (Download.start sampleSource sampleReceiver sampleDisk) events
    let events' : List UploadEvent :=
      List.replicate 4 (.tick {}) ++ List.replicate 4 (.toManager {}) ++ [.toClient {}]
    let u := runEvents (Upload.step ⟨id, id⟩ sampleSource)
      (Upload.start ⟨id, id⟩ sampleSource "/dst" false sampleDisk) events'
    (d.Ended ∧ Spares sampleSource "/dst" d.remote.disk d.failed d.remote.reports) ∧
      u.Ended ∧ Spares sampleSource "/dst" u.manager.disk u.failed u.client.reports := by
  intro events d events' u
  have hwrites : RemoteEnv.Writes {} := ⟨rfl, nofun, nofun⟩
  obtain ⟨hdown, hup⟩ := files_spared_unless_one_fails ⟨id, id⟩ (fun _ => rfl) sampleSource sampleSource_readable "/dst"
    sampleDisk false sampleReceiver setFiles_sampleSource
  have hdended : d.Ended := by
    unfold Download.Ended
    decide
  have huended : u.Ended := by
    unfold Upload.Ended
    decide
  refine ⟨⟨hdended, (hdown events ?_ hdended).2 sampleSource_apart (by decide)⟩,
    huended, hup events' ?_ huended sampleSource_apart (by decide)⟩
  · intro e he
    simp only [events, List.mem_append, List.mem_replicate] at he
    rcases he with ⟨-, rfl⟩ | ⟨-, rfl⟩
    · trivial
    · exact hwrites
  · intro e he
    simp only [events', List.mem_append, List.mem_replicate, List.mem_singleton] at he
    rcases he with (⟨-, rfl⟩ | ⟨-, rfl⟩) | rfl
    · trivial
    · exact ⟨rfl, nofun, nofun⟩
    · exact nofun

/-- Two files with one byte each. -/
def pairSource : Source where
  id := 1
  base := "/src"
  files := [{ name := "a", size := 1 }, { name := "b", size := 1 }]
  disk := (FileSystem.empty.put (locate "/src/a") [1]).put (locate "/src/b") [2]
  detection := false

/-- The job that receives them. -/
def pairReceiver : TransferJob :=
  { id := 1, dataSource := .filePath "/dst", files := pairSource.files, totalSize := 2 }

/-- The first file cannot be opened. In both directions the second one, which does not fail, is lost, and
the download is reported as done. -/
theorem failing_file_loses_the_next : (¬ ∀ events : List DownloadEvent, (∀ e ∈ events, e.Confirms pairSource.files) →
      let d := runEvents (Download.step ⟨id, id⟩ pairSource) (Download.start pairSource pairReceiver .empty) events
      d.Ended → Spares pairSource "/dst" d.remote.disk d.failed d.remote.reports) ∧
    ¬ ∀ events : List UploadEvent, (∀ e ∈ events, e.Confirms pairSource.files) →
      let u := runEvents (Upload.step ⟨id, id⟩ pairSource) (Upload.start ⟨id, id⟩ pairSource "/dst" false .empty) events
      u.Ended → Spares pairSource "/dst" u.manager.disk u.failed u.client.reports := by
  have hwrites : RemoteEnv.Writes {} := ⟨rfl, nofun, nofun⟩
  have hsecond : pairSource.files[1]? = some { name := "b", size := 1 } := rfl
  refine ⟨?_, ?_⟩
  · let events : List DownloadEvent :=
      .tick { opened := some "Permission denied" } :: List.replicate 4 (.tick {}) ++ List.replicate 5 (.deliver {})
    intro h
    have hevents : ∀ e ∈ events, e.Confirms pairSource.files := by
      intro e he
      simp only [events, List.cons_append, List.mem_cons, List.mem_append, List.mem_replicate] at he
      rcases he with rfl | ⟨-, rfl⟩ | ⟨-, rfl⟩
      · trivial
      · trivial
      · exact hwrites
    have hended : (runEvents (Download.step ⟨id, id⟩ pairSource) (Download.start pairSource pairReceiver .empty) events).Ended := by
      unfold Download.Ended
      decide
    have hplaced := (h events hevents hended).1 1 _ hsecond (by decide)
    exact absurd hplaced (by decide)
  · let events : List UploadEvent :=
      .tick { opened := some "Permission denied" } :: List.replicate 4 (.tick {}) ++
        List.replicate 5 (.toManager {}) ++ [.toClient {}]
    intro h
    have hevents : ∀ e ∈ events, e.Confirms pairSource.files := by
      intro e he
      simp only [events, List.cons_append, List.mem_cons, List.mem_append, List.mem_replicate, List.not_mem_nil,
        or_false] at he
      rcases he with rfl | (⟨-, rfl⟩ | ⟨-, rfl⟩) | rfl
      · trivial
      · trivial
      · exact ⟨rfl, nofun, nofun⟩
      · exact nofun
    have hended : (runEvents (Upload.step ⟨id, id⟩ pairSource)
        (Upload.start ⟨id, id⟩ pairSource "/dst" false .empty) events).Ended := by
      unfold Upload.Ended
      decide
    have hplaced := (h events hevents hended).1 1 _ hsecond (by decide)
    exact absurd hplaced (by decide)

end UnyDesk
