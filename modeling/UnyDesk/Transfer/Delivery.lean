import UnyDesk.Transfer.Sending
import UnyDesk.Transfer.Switch

/-!
# Files delivered from end to end

A receiving job that gets the blocks of a read job in order puts every file in its place. While the
blocks of a file come in, the files before it are in place; the first block of the next file, or the
end of the job, puts this one in place as well.
-/

namespace UnyDesk

open Lib FileSystem JobState TransferJob List Source

section

variable (base : String)

/-- Where an entry goes, and the two files that are kept beside it while it is received. -/
def destOf (f : FileEntry) : Location := locate (joinPath base f.name)

def downloadOf (f : FileEntry) : Location := locate (downloadPath (joinPath base f.name))

def digestOf (f : FileEntry) : Location := locate (digestPath (joinPath base f.name))

/-- No entry is placed where another entry is received. -/
def Apart (files : List FileEntry) : Prop :=
  ∀ f ∈ files, ∀ g ∈ files, f ≠ g → destOf base f ≠ downloadOf base g ∧ destOf base f ≠ digestOf base g

theorem downloadOf_ne_digestOf (f g : FileEntry) : downloadOf base f ≠ digestOf base g :=
  locate_downloadPath_ne_digestPath _ _

end

section Names

variable {base : String} {files : List FileEntry} {f g : FileEntry}

theorem Apart.ne_download (h : Apart base files) (hf : f ∈ files) (hg : g ∈ files) :
    destOf base f ≠ downloadOf base g := by
  by_cases heq : f = g
  · rw [heq]
    exact (locate_downloadPath_ne _).symm
  · exact (h f hf g hg heq).1

theorem Apart.ne_digest (h : Apart base files) (hf : f ∈ files) (hg : g ∈ files) : destOf base f ≠ digestOf base g := by
  by_cases heq : f = g
  · rw [heq]
    exact (locate_digestPath_ne _).symm
  · exact (h f hf g hg heq).2

theorem forM_ok {A : Type} {check : A → Except String Unit} {l : List A} (h : l.forM check = .ok ()) :
    ∀ a ∈ l, check a = .ok () := by
  induction l with
  | nil => simp
  | cons a l ih =>
    change (check a >>= fun _ => l.forM check) = .ok () at h
    cases hcheck : check a with
    | error e => simp [hcheck, bind, Except.bind] at h
    | ok u =>
      have hrest : l.forM check = .ok () := by simpa [hcheck, bind, Except.bind] using h
      intro b hb
      rcases mem_cons.mp hb with rfl | hb
      · exact hcheck
      · exact ih hrest b hb

theorem validate_of_setFiles {job job' : TransferJob} {check : Option String}
    (h : job.setFiles files check = .ok job') : validateTransferFileNames files = .ok () := by
  cases hvalid : validateTransferFileNames files with
  | error e => simp [setFiles, hvalid, bind, Except.bind] at h
  | ok u => rfl

/-- The names of an accepted list are accepted one by one. -/
theorem names_valid (hnames : validateTransferFileNames files = .ok ()) :
    ∀ f ∈ files, validateFileNameNoTraversal f.name = .ok () := by
  unfold validateTransferFileNames at hnames
  split at hnames
  · intro f hf
    rw [mem_singleton.mp hf]
    exact (by decide : validateFileNameNoTraversal "" = .ok ())
  · intro f hf
    have hname := forM_ok hnames f hf
    split at hname
    · simp at hname
    · exact hname

/-- Entries that go to one place come from one file. -/
theorem content_eq_of_destOf {src : Source}
    (hf : validateFileNameNoTraversal f.name = .ok ()) (hg : validateFileNameNoTraversal g.name = .ok ())
    (h : destOf base f = destOf base g) : src.content f = src.content g := by
  unfold destOf at h
  rw [locate_joinPath (head?_ne_of_valid hf), locate_joinPath (head?_ne_of_valid hg)] at h
  have hcomponents := append_cancel_left h
  unfold content
  rw [locate_joinPath (head?_ne_of_valid hf), locate_joinPath (head?_ne_of_valid hg), hcomponents]

end Names

/-- Every finished entry is in place and nothing is left beside it. -/
def Placed (src : Source) (base : String) (disk : Disk) (finished : List FileEntry) : Prop :=
  ∀ f ∈ finished, disk.contents (destOf base f) = some (src.content f) ∧
    disk.contents (downloadOf base f) = none ∧ disk.contents (digestOf base f) = none

/-- The job receives the files of the source below the base path. -/
structure ReceiverJob (src : Source) (base : String) (job : TransferJob) : Prop where
  id : job.id = src.id
  type : job.type = .generic
  source : job.dataSource = .filePath base
  files : job.files = src.files

/-- The job has received the finished entries and so much of the next one. -/
structure Filling (src : Source) (base : String) (s : JobState) (finished : List FileEntry) (f : FileEntry)
    (got : Bytes) : Prop where
  job : ReceiverJob src base s.job
  num : s.job.fileNum = (finished.length : ℕ)
  stream : ∃ file, s.job.dataStream = some (.fileStream file) ∧ file.writable = true ∧
    file.pos = got.length ∧ s.disk.names (downloadOf base f) = some file.inode ∧ s.disk.data file.inode = got
  placed : ∀ g ∈ finished, s.disk.contents (destOf base g) = some (src.content g) ∧
    (downloadOf base g ≠ downloadOf base f → s.disk.contents (downloadOf base g) = none) ∧
    (digestOf base g ≠ digestOf base f → s.disk.contents (digestOf base g) = none)
  size : s.job.finishedSize = (finished.map fun g => (src.content g).length).sum + got.length

/-- The job has received the finished entries, and putting the last one in place completes them. -/
structure Before (src : Source) (base : String) (s : JobState) (finished : List FileEntry) : Prop where
  job : ReceiverJob src base s.job
  switch : asUsize s.job.fileNum ≠ finished.length ∨ s.job.dataStream = none
  placed : Placed src base (s.job.modifyTime s.disk {}) finished
  size : s.job.finishedSize = (finished.map fun g => (src.content g).length).sum

section Receive

variable {codec : Codec} {src : Source} {base : String} {s : JobState} {finished rest : List FileEntry}
  {f : FileEntry} {got : Bytes} {block : FileTransferBlock} {todo : List FileTransferBlock}

theorem entry_of_num (hjob : ReceiverJob src base s.job) (hfiles : src.files = finished ++ f :: rest)
    (hnum : block.fileNum = (finished.length : ℕ)) : s.job.files[asUsize block.fileNum]? = some f := by
  simp [hjob.files, hfiles, hnum]

/-- Without failures, the files of accepted names can be opened. -/
theorem opens_of_valid (hvalid : validateFileNameNoTraversal f.name = .ok ()) (s : JobState) (base : String) :
    s.openingFails {} base f = false := by
  simp [openingFails, hvalid, Except.isOk, Except.toBool]

variable (codec) in
/-- A further block of the file that is received. -/
theorem Filling.write (happart : Apart base src.files) (h : Filling src base s finished f got)
    (hfiles : src.files = finished ++ f :: rest) (hid : block.id = src.id)
    (hnum : block.fileNum = (finished.length : ℕ)) :
    (s.write codec {} block).1 = none ∧
      Filling src base (s.write codec {} block).2 finished f (got ++ blockBytes codec block) := by
  obtain ⟨file, hstream, hwritable, hpos, hnames, hdata⟩ := h.stream
  have heq := write_of_same codec (hid.trans h.job.id.symm) h.job.source
    (entry_of_num h.job hfiles hnum) (by rw [hnum, h.num]) hstream hwritable
    (rfl : ({} : Faults).writeAll = none)
  have hf : f ∈ src.files := by simp [hfiles]
  rw [heq]
  refine ⟨rfl, ⟨h.job.id, h.job.type, h.job.source, h.job.files⟩, h.num, ⟨_, rfl, hwritable, ?_, hnames, ?_⟩, ?_, ?_⟩
  · rw [length_append, ← hpos]
  · rw [write_data, hdata, hpos, overwrite_length]
  · intro g hg
    have hg' : g ∈ src.files := by simp [hfiles, hg]
    -- A write through the open file is seen at the download path of the entry only.
    have hkept : ∀ l, l ≠ downloadOf base f →
        (s.disk.write file.inode file.pos (blockBytes codec block)).contents l = s.disk.contents l := by
      intro l hl
      refine contents_write_of_ne (fun hname => hl ?_) _ _
      exact names_inj _ _ _ _ hname hnames
    obtain ⟨hdest, hdownload, hdigest⟩ := h.placed g hg
    refine ⟨?_, fun hne => ?_, fun hne => ?_⟩
    · rw [hkept _ (happart.ne_download hg' hf)]
      exact hdest
    · rw [hkept _ hne]
      exact hdownload hne
    · rw [hkept _ (downloadOf_ne_digestOf base f g).symm]
      exact hdigest hne
  · rw [length_append, ← Nat.add_assoc, ← h.size]

variable (codec) in
/-- The first block of a file, after the files before it. -/
theorem Before.write (happart : Apart base src.files)
    (hvalid : ∀ f ∈ src.files, validateFileNameNoTraversal f.name = .ok ()) (h : Before src base s finished)
    (hfiles : src.files = finished ++ f :: rest) (hid : block.id = src.id)
    (hnum : block.fileNum = (finished.length : ℕ)) :
    (s.write codec {} block).1 = none ∧
      Filling src base (s.write codec {} block).2 finished f (blockBytes codec block) := by
  have hf : f ∈ src.files := by simp [hfiles]
  have hswitch : asUsize block.fileNum ≠ asUsize s.job.fileNum ∨ s.job.dataStream = none := by
    rw [hnum, asUsize_natCast]
    exact h.switch.imp_left Ne.symm
  obtain ⟨inode, disk, heq, hnames, hdata, hrest⟩ := write_of_switch codec
    h.job.type (hid.trans h.job.id.symm) h.job.source (entry_of_num h.job hfiles hnum) hswitch rfl
    (opens_of_valid (hvalid f hf) s base) (rfl : ({} : Faults).writeAll = none)
  rw [heq]
  refine ⟨rfl, ⟨h.job.id, h.job.type, h.job.source, h.job.files⟩, hnum, ⟨_, rfl, rfl, rfl, hnames, ?_⟩, ?_, ?_⟩
  · rw [write_data, hdata]
    exact overwrite_length [] _
  · intro g hg
    have hg' : g ∈ src.files := by simp [hfiles, hg]
    have hkept : ∀ l, l ≠ downloadOf base f → l ≠ digestOf base f →
        (disk.write inode 0 (blockBytes codec block)).contents l = (s.job.modifyTime s.disk {}).contents l := by
      intro l hl hld
      rw [contents_write_of_ne (fun hname => hl (names_inj _ _ _ _ hname hnames))]
      exact (hrest l hl hld).2
    obtain ⟨hdest, hdownload, hdigest⟩ := h.placed g hg
    refine ⟨?_, fun hne => ?_, fun hne => ?_⟩
    · rw [hkept _ (happart.ne_download hg' hf) (happart.ne_digest hg' hf)]
      exact hdest
    · rw [hkept _ hne (downloadOf_ne_digestOf base g f)]
      exact hdownload
    · rw [hkept _ (downloadOf_ne_digestOf base f g).symm hne]
      exact hdigest
  · rw [← h.size]

/-- A file that was received to its end is put in place with the files before it. -/
theorem Filling.complete (happart : Apart base src.files)
    (hvalid : ∀ f ∈ src.files, validateFileNameNoTraversal f.name = .ok ())
    (h : Filling src base s finished f (src.content f)) (hfiles : src.files = finished ++ f :: rest) :
    Before src base s (finished ++ [f]) := by
  obtain ⟨file, hstream, -, -, hnames, hdata⟩ := h.stream
  have hf : f ∈ src.files := by simp [hfiles]
  have hentry : s.job.currentEntry = some f := by
    simp [TransferJob.currentEntry, h.job.files, hfiles, h.num]
  have hresolve := s.job.resolveEntryPath_of_valid base h.job.type (hvalid f hf)
  have hdisk : s.job.modifyTime s.disk {} =
      (s.disk.remove (digestOf base f)).rename (downloadOf base f) (destOf base f) := by
    simp [TransferJob.modifyTime, h.job.type, h.job.source, hentry, hresolve, digestOf, downloadOf, destOf]
  have hne : downloadOf base f ≠ destOf base f := locate_downloadPath_ne _
  have hnames' : (s.disk.remove (digestOf base f)).names (downloadOf base f) = some file.inode := by
    rw [remove_names_of_ne _ (downloadOf_ne_digestOf base f f), hnames]
  have hplace : (s.job.modifyTime s.disk {}).contents (destOf base f) = some (src.content f) := by
    rw [hdisk, contents_rename_target hne hnames', remove_data, hdata]
  have hgone : (s.job.modifyTime s.disk {}).contents (downloadOf base f) = none := by
    rw [hdisk, contents, rename_names_source hne, Option.map_none]
  have hdigest : (s.job.modifyTime s.disk {}).contents (digestOf base f) = none := by
    rw [hdisk, contents_rename_of_ne (downloadOf_ne_digestOf base f f).symm
      (happart.ne_digest hf hf).symm, contents_remove_self]
  have hkept : ∀ l, l ≠ destOf base f → l ≠ downloadOf base f → l ≠ digestOf base f →
      (s.job.modifyTime s.disk {}).contents l = s.disk.contents l := by
    intro l hdest hdownload hdigest
    rw [hdisk, contents_rename_of_ne hdownload hdest, contents_remove_of_ne _ hdigest]
  refine ⟨h.job, .inl ?_, ?_, ?_⟩
  · rw [h.num, asUsize_natCast, length_append, length_singleton]
    omega
  · intro g hg
    rcases mem_append.mp hg with hg | hg
    · have hg' : g ∈ src.files := by simp [hfiles, hg]
      obtain ⟨hgdest, hgdownload, hgdigest⟩ := h.placed g hg
      refine ⟨?_, ?_, ?_⟩
      · by_cases heq : destOf base g = destOf base f
        · rw [heq, hplace, content_eq_of_destOf (hvalid g hg') (hvalid f hf) heq]
        · rw [hkept _ heq (happart.ne_download hg' hf) (happart.ne_digest hg' hf)]
          exact hgdest
      · by_cases heq : downloadOf base g = downloadOf base f
        · rw [heq]
          exact hgone
        · rw [hkept _ (happart.ne_download hf hg').symm heq (downloadOf_ne_digestOf base g f)]
          exact hgdownload heq
      · by_cases heq : digestOf base g = digestOf base f
        · rw [heq]
          exact hdigest
        · rw [hkept _ (happart.ne_digest hf hg').symm (downloadOf_ne_digestOf base f g).symm heq]
          exact hgdigest heq
    · rw [mem_singleton.mp hg]
      exact ⟨hplace, hgone, hdigest⟩
  · rw [h.size, map_append, sum_append, map_singleton, sum_singleton]

/-- The receiving job gets the blocks one after the other. -/
def JobState.deliver (codec : Codec) (s : JobState) (blocks : List FileTransferBlock) : JobState :=
  runEvents (fun s b => (s.write codec {} b).2) s blocks

/-- Every call of `write` succeeds. -/
def JobState.Accepts (codec : Codec) (s : JobState) (blocks : List FileTransferBlock) : Prop :=
  RunMeets (fun s b => (s.write codec {} b).2) (fun s b => (s.write codec {} b).1 = none) s blocks

/-- The job has received all blocks but these, which are to come in this order. -/
def Receives (codec : Codec) (src : Source) (base : String) (s : JobState) (todo : List FileTransferBlock) : Prop :=
  (∃ finished rest, src.files = finished ++ rest ∧ Before src base s finished ∧
      todo = src.fileBlocks codec finished.length rest) ∨
    ∃ finished f rest got, ∃ pending : List FileTransferBlock,
      src.files = finished ++ f :: rest ∧ Filling src base s finished f got ∧
      (∀ b ∈ pending, b.id = src.id ∧ b.fileNum = (finished.length : ℕ)) ∧
      got ++ pending.flatMap (JobState.blockBytes codec) = src.content f ∧
      todo = pending ++ src.fileBlocks codec (finished.length + 1) rest

variable (codec) in
/-- A job before its first file is to receive all blocks. -/
theorem Before.receives (h : Before src base s []) : Receives codec src base s (src.blocks codec) :=
  .inl ⟨[], src.files, rfl, h, rfl⟩

section Apart

variable (hcodec : ∀ bytes, codec.decompress (codec.compress bytes) = bytes) (happart : Apart base src.files)
  (hvalid : ∀ f ∈ src.files, validateFileNameNoTraversal f.name = .ok ())
include hcodec happart hvalid

/-- The first of the blocks to come, with the files before it complete. -/
theorem Before.receive (hfiles : src.files = finished ++ rest) (h : Before src base s finished)
    (htodo : block :: todo = src.fileBlocks codec finished.length rest) :
    (s.write codec {} block).1 = none ∧ Receives codec src base (s.write codec {} block).2 todo := by
  cases rest with
  | nil => simp [fileBlocks] at htodo
  | cons f rest =>
    obtain ⟨first, later, hblocks⟩ := exists_cons_of_ne_nil
      (entryBlocks_ne_nil (src.dataBlock codec finished.length f) (src.lastBlock finished.length) (src.content f))
    rw [fileBlocks, hblocks, cons_append, cons.injEq] at htodo
    obtain ⟨rfl, rfl⟩ := htodo
    have hmem : ∀ b ∈ block :: later, b.id = src.id ∧ b.fileNum = (finished.length : ℕ) := fun b hb =>
      mem_entryBlocks (hblocks ▸ hb)
    have hbytes : (block :: later).flatMap (blockBytes codec) = src.content f := by
      rw [← hblocks]
      exact flatMap_entryBlocks hcodec _ _ _
    obtain ⟨hid, hnum⟩ := hmem block mem_cons_self
    obtain ⟨hok, hfilling⟩ := h.write codec happart hvalid hfiles hid hnum
    refine ⟨hok, .inr ⟨finished, f, rest, _, later, hfiles, hfilling, ?_, hbytes, rfl⟩⟩
    exact fun b hb => hmem b (mem_cons_of_mem block hb)

/-- The next block is accepted. -/
theorem Receives.write (h : Receives codec src base s (block :: todo)) :
    (s.write codec {} block).1 = none ∧ Receives codec src base (s.write codec {} block).2 todo := by
  rcases h with ⟨finished, rest, hfiles, hbefore, htodo⟩ |
    ⟨finished, f, rest, got, pending, hfiles, hfilling, hpending, hbytes, htodo⟩
  · exact hbefore.receive hcodec happart hvalid hfiles htodo
  · cases pending with
    | nil =>
      rw [flatMap_nil, append_nil] at hbytes
      subst hbytes
      have hbefore := hfilling.complete happart hvalid hfiles
      have hfiles' : src.files = (finished ++ [f]) ++ rest := by simp [hfiles]
      refine hbefore.receive hcodec happart hvalid hfiles' ?_
      rw [htodo, length_append, length_singleton, nil_append]
    | cons b pending =>
      rw [cons_append, cons.injEq] at htodo
      obtain ⟨rfl, rfl⟩ := htodo
      obtain ⟨hid, hnum⟩ := hpending block mem_cons_self
      obtain ⟨hok, hnext⟩ := hfilling.write codec happart hfiles hid hnum
      refine ⟨hok, .inr ⟨finished, f, rest, _, pending, hfiles, hnext, ?_, ?_, rfl⟩⟩
      · exact fun b hb => hpending b (mem_cons_of_mem block hb)
      · rw [append_assoc, ← flatMap_cons]
        exact hbytes

/-- A list of blocks, delivered one after the other. -/
theorem Receives.deliver {blocks todo : List FileTransferBlock} (h : Receives codec src base s (blocks ++ todo)) :
    s.Accepts codec blocks ∧ Receives codec src base (s.deliver codec blocks) todo := by
  induction blocks generalizing s with
  | nil => exact ⟨trivial, h⟩
  | cons b blocks ih =>
    obtain ⟨hok, hnext⟩ := h.write hcodec happart hvalid
    obtain ⟨haccepts, hreceives⟩ := ih hnext
    exact ⟨⟨hok, haccepts⟩, hreceives⟩

end Apart

theorem fileBlocks_eq_nil {n : ℕ} (h : src.fileBlocks codec n rest = []) : rest = [] := by
  cases rest with
  | nil => rfl
  | cons f rest => simp [fileBlocks, entryBlocks_ne_nil] at h

/-- When no block is left, the end of the job completes all files. -/
theorem Receives.complete (happart : Apart base src.files)
    (hvalid : ∀ f ∈ src.files, validateFileNameNoTraversal f.name = .ok ())
    (h : Receives codec src base s []) : Before src base s src.files := by
  rcases h with ⟨finished, rest, hfiles, hbefore, htodo⟩ |
    ⟨finished, f, rest, got, pending, hfiles, hfilling, -, hbytes, htodo⟩
  · obtain rfl := fileBlocks_eq_nil htodo.symm
    rw [hfiles, append_nil]
    exact hbefore
  · obtain ⟨rfl, hrest⟩ := append_eq_nil_iff.mp htodo.symm
    obtain rfl := fileBlocks_eq_nil hrest
    rw [flatMap_nil, append_nil] at hbytes
    subst hbytes
    rw [hfiles]
    exact hfilling.complete happart hvalid hfiles

theorem Receives.job (h : Receives codec src base s todo) : ReceiverJob src base s.job := by
  rcases h with ⟨_, _, -, hbefore, -⟩ | ⟨_, _, _, _, _, -, hfilling, -⟩
  · exact hbefore.job
  · exact hfilling.job

/-- Digests and confirmations do not touch what was received. -/
theorem Receives.mark {job job' : TransferJob} {disk : Disk} (h : Receives codec src base ⟨job, disk⟩ todo)
    (hjob : job' = { job with
      digest := job'.digest
      fileConfirmed := job'.fileConfirmed
      fileSkipped := job'.fileSkipped }) :
    Receives codec src base ⟨job', disk⟩ todo := by
  rw [hjob]
  rcases h with ⟨finished, rest, hfiles, hbefore, htodo⟩ |
    ⟨finished, f, rest, got, pending, hfiles, hfilling, hpending, hbytes, htodo⟩
  · refine .inl ⟨finished, rest, hfiles, ⟨?_, hbefore.switch, hbefore.placed, hbefore.size⟩, htodo⟩
    exact ⟨hbefore.job.id, hbefore.job.type, hbefore.job.source, hbefore.job.files⟩
  · refine .inr ⟨finished, f, rest, got, pending, hfiles, ?_, hpending, hbytes, htodo⟩
    exact ⟨⟨hfilling.job.id, hfilling.job.type, hfilling.job.source, hfilling.job.files⟩, hfilling.num,
      hfilling.stream, hfilling.placed, hfilling.size⟩

end Receive

/-- A job with an accepted list of files. -/
theorem setFiles_eq {job job' : TransferJob} {files : List FileEntry} (h : job.setFiles files none = .ok job') :
    job' = { job with totalSize := (files.map (·.size)).sum, files } := by
  cases hvalid : validateTransferFileNames files with
  | error e => simp [setFiles, hvalid, bind, Except.bind] at h
  | ok u =>
    cases hsource : job.dataSource <;>
      simpa [setFiles, hvalid, hsource, failWith, bind, Except.bind, pure, Except.pure] using h.symm

/-- A new receiving job is before its first file. -/
theorem before_new {src : Source} {base : String} {receiver : TransferJob} {detection : Bool}
    (hreceiver : (newWrite src.id .generic (.filePath base) 0 detection).setFiles src.files none =
      .ok receiver) (disk : Disk) : Before src base ⟨receiver, disk⟩ [] := by
  rw [setFiles_eq hreceiver]
  exact ⟨⟨rfl, rfl, rfl, rfl⟩, .inr rfl, by simp [Placed], rfl⟩

/-- A transfer from end to end. The source has any files, which do not change and can be read; their
names are accepted by the receiving job, and no entry goes where another one is received. The sender
is driven by ticks, with reads cut in any way, and by confirmations, in any order. When its job ends,
the receiving job, given the blocks in order and then the end, has every file in its place with the
bytes of the source and nothing left beside it, and both sides have counted all bytes. From every
point of the run, the job ends within a bounded number of rounds in which it is answered. -/
theorem transfer_delivers_every_file (codec : Codec)
    (hcodec : ∀ bytes, codec.decompress (codec.compress bytes) = bytes) (src : Source) (hreadable : src.Readable)
    (base : String) (disk : Disk) (detection : Bool) (receiver : TransferJob)
    (hreceiver : (TransferJob.newWrite src.id .generic (.filePath base) 0 detection).setFiles src.files none =
      .ok receiver)
    (happart : Apart base src.files) (events : List SendEvent)
    (hevents : ∀ e ∈ events, e.Undisturbed src.files) :
    let step := Sender.step codec src.disk
    let sender := runEvents step src.sender events
    let received := JobState.deliver codec ⟨receiver, disk⟩ (sentBlocks sender.sent)
    (sender.jobs = [] → (∃ earlier, sender.sent = earlier ++ [.done src.id src.files.length]) ∧
          JobState.Accepts codec ⟨receiver, disk⟩ (sentBlocks sender.sent) ∧
          Placed src base (received.modifyTime {}).disk src.files ∧
          sender.ended.map (·.finishedSize) = some src.total ∧ received.job.finishedSize = src.total) ∧
      ∀ plan : List (ReadFaults × ConfirmUnion), (∀ round ∈ plan, undisturbedRound round) →
        2 * (src.blocks codec).length + 2 ≤ plan.length →
          (∀ e ∈ sender.rounds codec src.disk plan, e.Undisturbed src.files) ∧
            (runEvents step sender (sender.rounds codec src.disk plan)).jobs = [] := by
  intro step sender received
  have htracks : sender.Tracks codec src := (sender_tracks hcodec src).run hcodec hreadable hevents
  refine ⟨?_, ?_⟩
  · intro hended
    rcases htracks with ⟨job, _, hjobs, -⟩ | ⟨job, earlier, -, hjob, hsize, hsent, hblocks, -⟩
    · simp [hended] at hjobs
    have hall : sentBlocks sender.sent = src.blocks codec := by
      rw [hsent, sentBlocks_append, hblocks]
      exact List.append_nil _
    have hvalid := names_valid (validate_of_setFiles hreceiver)
    have hstart : Receives codec src base ⟨receiver, disk⟩ (src.blocks codec ++ []) := by
      rw [List.append_nil]
      exact (before_new hreceiver disk).receives codec
    obtain ⟨haccepts, hreceives⟩ := hstart.deliver hcodec happart hvalid
    have hbefore := hreceives.complete happart hvalid
    have hreceived : received = JobState.deliver codec ⟨receiver, disk⟩ (src.blocks codec) := by
      rw [← hall]
    refine ⟨⟨earlier, hsent⟩, ?_, ?_, by rw [hjob, Option.map_some, hsize], ?_⟩
    · rw [hall]
      exact haccepts
    · rw [hreceived]
      exact hbefore.placed
    · rw [hreceived]
      exact hbefore.size
  · intro plan hplan hlength
    refine ⟨rounds_undisturbed hcodec hreadable hplan htracks, jobs_of_rounds hcodec hreadable hplan ?_⟩
    rcases htracks with ⟨job, todo, hjobs, -, howes, hblocks, -⟩ | ⟨job, earlier, hjobs, -⟩
    · refine .inr ⟨job, todo, hjobs, howes, .inl ?_⟩
      have htodo := congrArg List.length hblocks
      rw [List.length_append] at htodo
      omega
    · exact .inl hjobs

/-- A file with three bytes and an empty one. -/
def sampleSource : Source where
  id := 1
  base := "/src"
  files := [{ name := "a", size := 3 }, { name := "b" }]
  disk := (FileSystem.empty.put (locate "/src/a") [1, 2, 3]).put (locate "/src/b") []
  detection := false

/-- The job that receives it. -/
def sampleReceiver : TransferJob :=
  { id := 1, dataSource := .filePath "/dst", files := sampleSource.files, totalSize := 3 }

/-- Reads of one byte at a time. -/
def sampleEvents : List SendEvent := List.replicate 4 (.tick { reads := [.upTo 0, .upTo 0] })

/-- An existing file and the leftover of another transfer. -/
def sampleDisk : Disk := (FileSystem.empty.put (locate "/dst/a") [7]).put (locate "/dst/b.download") [9]

theorem sampleSource_readable : sampleSource.Readable := by
  unfold Source.Readable
  decide

theorem sampleSource_apart : Apart "/dst" sampleSource.files := by
  unfold Apart
  decide

theorem setFiles_sampleSource : (newWrite 1 .generic (.filePath "/dst") 0 false).setFiles sampleSource.files
    none = .ok sampleReceiver := by
  decide

theorem transfer_delivers_every_file_sample :
    (runEvents (Sender.step ⟨id, id⟩ sampleSource.disk) sampleSource.sender sampleEvents).jobs = [] ∧
      Placed sampleSource "/dst" ((JobState.deliver ⟨id, id⟩ ⟨sampleReceiver, sampleDisk⟩
          (sentBlocks (runEvents (Sender.step ⟨id, id⟩ sampleSource.disk) sampleSource.sender
            sampleEvents).sent)).modifyTime {}).disk sampleSource.files := by
  have hclean : ∀ e ∈ sampleEvents, e.Undisturbed sampleSource.files := by
    intro e he
    rw [List.eq_of_mem_replicate he]
    exact ⟨rfl, rfl, by simp⟩
  have hended : (runEvents (Sender.step ⟨id, id⟩ sampleSource.disk) sampleSource.sender sampleEvents).jobs =
      [] := by decide
  obtain ⟨-, -, hplaced, -⟩ := (transfer_delivers_every_file ⟨id, id⟩ (fun _ => rfl) sampleSource
    sampleSource_readable "/dst" sampleDisk false sampleReceiver setFiles_sampleSource sampleSource_apart sampleEvents
    hclean).1 hended
  exact ⟨hended, hplaced⟩

end UnyDesk
