import UnyDesk.Lib.Machine
import UnyDesk.Transfer.Read

/-!
# What a read job sends

Over files that do not change and without failures, a read job sends one fixed list of blocks: for
each file its bytes in pieces of the size of the buffer, then an empty block. How the reads are cut
and when confirmations come does not matter. The job ends when the list is used up.
-/

namespace UnyDesk

open Lib TransferJob List JobState

variable {n : ℕ}

/-- The loop fills the buffer with what comes next, however the reads are cut. -/
theorem fillBuffer_eq {reads : List ReadOutcome} (hreads : ∀ r ∈ reads, ∃ n, r = .upTo n) (rest : Bytes)
    {room : ℕ} (hroom : 0 < room) : fillBuffer reads rest room = .ok (rest.take room) := by
  induction reads generalizing rest room with
  | nil => rfl
  | cons r reads ih =>
    obtain ⟨n, rfl⟩ := hreads r mem_cons_self
    have hlater : ∀ r ∈ reads, ∃ n, r = ReadOutcome.upTo n := fun r hr =>
      hreads r (mem_cons_of_mem _ hr)
    unfold fillBuffer
    extract_lets got
    have hlength : got.length = min (min (n + 1) room) rest.length := by simp [got]
    by_cases hnil : got = []
    · have hrest : rest = [] := by
        rw [hnil] at hlength
        exact eq_nil_of_length_eq_zero (by simp only [length_nil] at hlength; omega)
      simp [hnil, hrest]
    · by_cases hfull : got.length = room
      · rw [if_pos (.inr hfull)]
        have hle : room ≤ n + 1 := by omega
        have hgot : got = rest.take room := by simp only [got, Nat.min_eq_right hle]
        rw [hgot]
      · rw [if_neg (not_or.mpr ⟨hnil, hfull⟩), ih hlater _ (by omega)]
        have hprefix : got = rest.take got.length := by
          rw [hlength, ← take_eq_take_min]
        have htake : rest.take room = rest.take got.length ++ (rest.drop got.length).take (room - got.length) := by
          rw [← take_add]
          congr 1
          omega
        rw [htake, ← hprefix]
        rfl

/-- The blocks of a file: its bytes in pieces, then the block that ends it. -/
def entryBlocks (dataBlock : Bytes → FileTransferBlock) (last : FileTransferBlock) (rest : Bytes) :
    List FileTransferBlock :=
  if _h : rest = [] then [last]
  else dataBlock (rest.take bufSize) :: entryBlocks dataBlock last (rest.drop bufSize)
termination_by rest.length
decreasing_by
  have hpos : 0 < rest.length := List.length_pos_of_ne_nil _h
  simp only [List.length_drop, bufSize]
  omega

section EntryBlocks

variable {dataBlock : Bytes → FileTransferBlock} {last : FileTransferBlock}

/-- What holds of every piece and of the end holds of all blocks of a file. -/
theorem forall_mem_entryBlocks {P : FileTransferBlock → Prop} (hdata : ∀ buf, P (dataBlock buf)) (hlast : P last)
    (rest : Bytes) : ∀ b ∈ entryBlocks dataBlock last rest, P b := by
  fun_induction entryBlocks dataBlock last rest with
  | case1 =>
    intro b hb
    rw [mem_singleton.mp hb]
    exact hlast
  | case2 rest hne ih =>
    intro b hb
    rcases mem_cons.mp hb with rfl | hmem
    · exact hdata _
    · exact ih b hmem

/-- Pieces that stand for their bytes stand for the file together. -/
theorem entryBlocks_flatMap {bytesOf : FileTransferBlock → Bytes} (hdata : ∀ buf, bytesOf (dataBlock buf) = buf)
    (hlast : bytesOf last = []) (rest : Bytes) : (entryBlocks dataBlock last rest).flatMap bytesOf = rest := by
  fun_induction entryBlocks dataBlock last rest with
  | case1 => rw [flatMap_singleton, hlast]
  | case2 rest hne ih => rw [flatMap_cons, hdata, ih, take_append_drop]

theorem getLast?_entryBlocks (rest : Bytes) : (entryBlocks dataBlock last rest).getLast? = some last := by
  fun_induction entryBlocks dataBlock last rest with
  | case1 => rfl
  | case2 rest hne ih =>
    rw [getLast?_cons, ih]
    rfl

theorem length_entryBlocks_le (rest : Bytes) : (entryBlocks dataBlock last rest).length ≤ rest.length + 1 := by
  fun_induction entryBlocks dataBlock last rest with
  | case1 => exact Nat.le_refl _
  | case2 rest hne ih =>
    have hpos : 0 < rest.length := length_pos_of_ne_nil hne
    have hbuf : 0 < bufSize := by simp [bufSize]
    rw [length_drop] at ih
    rw [length_cons]
    omega

end EntryBlocks

/-- The files of a read job and how it treats them. -/
structure Source where
  id : Int
  base : String
  files : List FileEntry
  disk : Disk
  detection : Bool

namespace Source

section

variable (src : Source)

/-- The new read job, from its first file on. -/
def job : TransferJob :=
  { id := src.id
    dataSource := .filePath src.base
    files := src.files
    totalSize := (src.files.map (·.size)).sum
    enableOverwriteDetection := src.detection }

def content (f : FileEntry) : Bytes :=
  (src.disk.contents (locate (joinPath src.base f.name))).getD []

/-- Every file of the list can be opened. -/
def Readable : Prop :=
  ∀ f ∈ src.files, (src.disk.names (locate (joinPath src.base f.name))).isSome

/-- The number of bytes of all files together. -/
def total : ℕ := (src.files.map fun f => (src.content f).length).sum

end

/-- A block with bytes of a file. -/
def dataBlock (codec : Codec) (src : Source) (n : ℕ) (f : FileEntry) (buf : Bytes) : FileTransferBlock :=
  let packed := TransferJob.packed codec (!isCompressedFile (src.job.blockName src.base f)) buf
  { id := src.id, fileNum := n, data := packed.1, compressed := packed.2 }

/-- The block that ends a file. -/
def lastBlock (src : Source) (n : ℕ) : FileTransferBlock := { id := src.id, fileNum := n, data := [] }

/-- The blocks of the files from a number on. -/
def fileBlocks (codec : Codec) (src : Source) : ℕ → List FileEntry → List FileTransferBlock
  | _, [] => []
  | n, f :: files =>
    entryBlocks (src.dataBlock codec n f) (src.lastBlock n) (src.content f) ++ fileBlocks codec src (n + 1) files

/-- Everything that the job sends. -/
def blocks (codec : Codec) (src : Source) : List FileTransferBlock := src.fileBlocks codec 0 src.files

end Source

/-- A tick without failures. -/
def ReadFaults.Clean (faults : ReadFaults) : Prop :=
  faults.opened = none ∧ faults.metadata = none ∧ ∀ r ∈ faults.reads, ∃ n, r = ReadOutcome.upTo n

/-- The job is still the one that was started. -/
structure SameJob (src : Source) (job : TransferJob) : Prop where
  id : job.id = src.id
  type : job.type = .generic
  source : job.dataSource = .filePath src.base
  files : job.files = src.files
  detection : job.enableOverwriteDetection = src.detection
  isLastJob : job.isLastJob = false
  fileSkipped : job.fileSkipped = false
  isResume : job.isResume = false

/-- The job is between two files, or past the last one. -/
def Idle (codec : Codec) (src : Source) (job : TransferJob) (todo : List FileTransferBlock) : Prop :=
  ∃ finished rest, src.files = finished ++ rest ∧ job.fileNum = (finished.length : ℕ) ∧
    job.dataStream = none ∧ job.fileIsWaiting = false ∧ (rest = [] → job.fileConfirmed = false) ∧
    todo = src.fileBlocks codec finished.length rest

/-- The job is within a file. -/
def Reading (codec : Codec) (src : Source) (job : TransferJob) (todo : List FileTransferBlock) : Prop :=
  ∃ finished f rest file, src.files = finished ++ f :: rest ∧ job.fileNum = (finished.length : ℕ) ∧
    job.dataStream = some (.fileStream file) ∧
    src.disk.names (locate (joinPath src.base f.name)) = some file.inode ∧
    todo = entryBlocks (src.dataBlock codec finished.length f) (src.lastBlock finished.length)
        ((src.content f).drop file.pos) ++
      src.fileBlocks codec (finished.length + 1) rest

/-- The number of bytes in blocks. -/
def blocksSize (codec : Codec) (blocks : List FileTransferBlock) : ℕ :=
  (blocks.map fun b => (JobState.blockBytes codec b).length).sum

/-- The job has still to send exactly these blocks. -/
structure Owes (codec : Codec) (src : Source) (job : TransferJob) (todo : List FileTransferBlock) : Prop where
  same : SameJob src job
  place : Idle codec src job todo ∨ Reading codec src job todo
  size : job.finishedSize + blocksSize codec todo = src.total

section Turn

variable {codec : Codec} {src : Source} {job : TransferJob} {todo : List FileTransferBlock}
  {faults : ReadFaults} {f : FileEntry} {b : FileTransferBlock}

/-- With one job, a round opens its file and gives it a turn. -/
theorem handleReadJobs_single (disk : Disk) {sent sent' : List FileResponse} {opened job' : TransferJob}
    {ended : Bool} (hinit : job.initJob disk faults = (sent, opened)) (hlast : opened.isLastJob = false)
    (hturn : opened.readTurn codec disk faults = (sent', job', ended)) :
    handleReadJobs codec disk (fun _ => faults) [job] =
      (sent ++ sent', if ended then [] else [job'], if ended then some job' else none) := by
  cases ended <;>
    simp [handleReadJobs, hinit, firstTurn, hlast, hturn, removeJob]

theorem entry_of_files {finished rest : List FileEntry} (hsame : SameJob src job)
    (hfiles : src.files = finished ++ f :: rest) (hnum : job.fileNum = (finished.length : ℕ)) :
    job.currentEntry = some f := by
  simp [currentEntry, hsame.files, hfiles, hnum]

section Owes

variable (hreadable : src.Readable) (hfaults : faults.Clean) (hjob : Owes codec src job todo) (htodo : todo ≠ [])
include hreadable hfaults hjob htodo

theorem openDataStream_of_todo :
    ∃ opened, job.openDataStream src.disk faults = (.ok false, opened) ∧ Owes codec src opened todo ∧
      Reading codec src opened todo ∧ (job.dataStream.isSome → opened.fileConfirmed = job.fileConfirmed) := by
  rcases hjob.place with ⟨finished, rest, hfiles, hnum, hstream, -, -, hrest⟩ | hreading
  · -- The next file is opened; there is one because something is left to send.
    obtain ⟨f, rest, rfl⟩ : ∃ f rest', rest = f :: rest' := by
      refine exists_cons_of_ne_nil ?_
      rintro rfl
      exact htodo hrest
    have hentry := entry_of_files hjob.same hfiles hnum
    obtain ⟨inode, hinode⟩ := Option.isSome_iff_exists.mp (hreadable f (by simp [hfiles]))
    let file : OpenFile := { path := joinPath src.base f.name, inode, writable := false }
    let opened : TransferJob :=
      { job with
        dataStream := some (.fileStream file)
        fileConfirmed := false
        fileIsWaiting := false }
    have heq : job.openDataStream src.disk faults = (.ok false, opened) := by
      simp [openDataStream, hjob.same.source, hentry, hstream, openFile, hfaults.1, hinode, opened, file]
    have hsame : SameJob src opened :=
      ⟨hjob.same.id, hjob.same.type, hjob.same.source, hjob.same.files, hjob.same.detection,
        hjob.same.isLastJob, hjob.same.fileSkipped, hjob.same.isResume⟩
    have hplace : Reading codec src opened todo := by
      refine ⟨finished, f, rest, file, hfiles, hnum, rfl, hinode, ?_⟩
      rw [hrest, Source.fileBlocks, drop_zero]
    exact ⟨opened, heq, ⟨hsame, .inr hplace, hjob.size⟩, hplace, by simp [hstream]⟩
  · obtain ⟨finished, f, rest, file, hfiles, hnum, hstream, hinode, htodo⟩ := hreading
    have hentry := entry_of_files hjob.same hfiles hnum
    refine ⟨job, ?_, hjob, ⟨finished, f, rest, file, hfiles, hnum, hstream, hinode, htodo⟩, fun _ => rfl⟩
    simp [openDataStream, hjob.same.source, hentry, hstream]

/-- Opening the next file: the job is within a file afterwards and has asked for a confirmation if it
needs one. -/
theorem initJob_of_todo : ∃ sent opened, job.initJob src.disk faults = (sent, opened) ∧
      (∀ m ∈ sent, ∃ k t z r, m = .digest src.id k t z r) ∧ Owes codec src opened todo ∧
      Reading codec src opened todo ∧
      (src.detection = true → opened.fileConfirmed = false → opened.fileIsWaiting = true) ∧
      (job.dataStream.isSome → opened.fileConfirmed = job.fileConfirmed) := by
  obtain ⟨opened, hopened, howes, hreading, hkept⟩ := openDataStream_of_todo hreadable hfaults hjob htodo
  have hsame := howes.same
  by_cases hdigest : opened.needsDigest = true
  · obtain ⟨finished, f, rest, file, hfiles, hnum, hstream, hinode, htodo⟩ := hreading
    let waiting : TransferJob := { opened with fileIsWaiting := true }
    have hwaiting : Reading codec src waiting todo :=
      ⟨finished, f, rest, file, hfiles, hnum, hstream, hinode, htodo⟩
    have hsame' : SameJob src waiting :=
      ⟨hsame.id, hsame.type, hsame.source, hsame.files, hsame.detection, hsame.isLastJob, hsame.fileSkipped,
        hsame.isResume⟩
    have hcurrent : opened.getCurrentDigest src.disk faults =
        .ok (faults.modified, (src.disk.data file.inode).length) := by
      simp [getCurrentDigest, hstream, hfaults.2.1]
    refine ⟨[.digest opened.id opened.fileNum faults.modified (src.disk.data file.inode).length opened.isResume],
      waiting, ?_, ?_, ⟨hsame', .inr hwaiting, howes.size⟩, hwaiting, fun _ _ => rfl, hkept⟩
    · rw [initJob, if_neg (by simp [hjob.same.isLastJob]), initDataStream, hopened]
      simp only [hdigest, if_true, hcurrent]
      rfl
    · intro m hm
      rw [mem_singleton] at hm
      exact ⟨_, _, _, _, by rw [hm, hsame.id]⟩
  · refine ⟨[], opened, ?_, by simp, howes, hreading, ?_, hkept⟩
    · rw [initJob, if_neg (by simp [hjob.same.isLastJob]), initDataStream, hopened]
      simp only [hdigest]
      rfl
    · intro hdetection hconfirmed
      by_contra hnot
      exact hdigest (by simp [needsDigest, hsame.type, hsame.detection, hdetection, hconfirmed, hnot])

end Owes

/-- The bytes of a data block are those it was made from. -/
theorem blockBytes_dataBlock (hcodec : ∀ bytes, codec.decompress (codec.compress bytes) = bytes) (n : ℕ)
    (f : FileEntry) (buf : Bytes) : blockBytes codec (src.dataBlock codec n f buf) = buf := by
  unfold Source.dataBlock packed
  split
  · exact hcodec buf
  · rfl

section TodoBlocks

variable (dataBlock : Bytes → FileTransferBlock) (last : FileTransferBlock)

theorem entryBlocks_nil : entryBlocks dataBlock last [] = [last] := by
  rw [entryBlocks, dif_pos rfl]

theorem entryBlocks_of_ne_nil {rest : Bytes} (h : rest ≠ []) : entryBlocks dataBlock last rest =
      dataBlock (rest.take bufSize) :: entryBlocks dataBlock last (rest.drop bufSize) := by
  rw [entryBlocks, dif_neg h]

theorem entryBlocks_ne_nil (rest : Bytes) : entryBlocks dataBlock last rest ≠ [] := by
  rw [entryBlocks]
  split <;> simp

end TodoBlocks

theorem drop_length_take (rest : Bytes) (n : ℕ) : rest.drop (rest.take n).length = rest.drop n := by
  rw [length_take]
  rcases Nat.le_total n rest.length with hle | hle
  · rw [Nat.min_eq_left hle]
  · rw [Nat.min_eq_right hle, drop_length, drop_of_length_le hle]

theorem content_eq {inode : ℕ}
    (h : src.disk.names (locate (joinPath src.base f.name)) = some inode) : src.content f = src.disk.data inode := by
  rw [Source.content, FileSystem.contents_of_names h, Option.getD_some]

variable (codec) in
/-- A job that may read gets the next piece of its file. -/
theorem read_of_confirmed (hfaults : faults.Clean) (hsame : SameJob src job)
    (hmay : src.detection = true → job.fileConfirmed = true) {file : OpenFile}
    (hentry : job.currentEntry = some f) (hstream : job.dataStream = some (.fileStream file)) :
    job.read codec src.disk faults =
      (let made := job.blockOf codec (!isCompressedFile (src.job.blockName src.base f)) (.fileStream file)
        (((src.disk.data file.inode).drop file.pos).take bufSize)
      (.ok (some made.1), made.2)) := by
  have hgate : ¬(job.type = .generic ∧ job.enableOverwriteDetection = true ∧ (!job.fileConfirmed) = true) := by
    rintro ⟨-, hdetection, hconfirmed⟩
    rw [hsame.detection] at hdetection
    simp [hmay hdetection] at hconfirmed
  have hname : job.blockName src.base f = src.job.blockName src.base f := by
    rw [TransferJob.blockName, hsame.files]
    rfl
  have hfill := fillBuffer_eq hfaults.2.2 ((src.disk.data file.inode).drop file.pos)
    (show 0 < bufSize by simp [bufSize])
  simp only [TransferJob.read, if_neg hgate, hsame.source, hentry, hstream, DataStream.rest, hfill, hname]

/-- A turn of a job that may read sends the next block. -/
theorem readTurn_of_confirmed (hcodec : ∀ bytes, codec.decompress (codec.compress bytes) = bytes)
    (hfaults : faults.Clean) (hjob : Owes codec src job todo) (hreading : Reading codec src job todo)
    (hmay : src.detection = true → job.fileConfirmed = true) :
    ∃ block later job', todo = block :: later ∧
      job.readTurn codec src.disk faults = ([.block block], job', false) ∧ Owes codec src job' later := by
  obtain ⟨finished, f, rest, file, hfiles, hnum, hstream, hinode, htodo⟩ := hreading
  have hsame := hjob.same
  have hread := read_of_confirmed codec hfaults hsame hmay (entry_of_files hsame hfiles hnum) hstream
  have hsize := hjob.size
  rw [content_eq hinode] at htodo
  generalize hleft : (src.disk.data file.inode).drop file.pos = left at hread htodo
  by_cases hend : left = []
  · -- The file is at its end.
    rw [hend, entryBlocks_nil, singleton_append] at htodo
    refine ⟨_, _, job.nextFile, htodo, ?_, ?_⟩
    · simp [readTurn, hread, hend, blockOf, hsame.id, hnum, Source.lastBlock]
    · refine ⟨⟨hsame.id, hsame.type, hsame.source, hsame.files, hsame.detection, hsame.isLastJob,
        hsame.fileSkipped, hsame.isResume⟩, .inl ⟨finished ++ [f], rest, by simp [hfiles], ?_, rfl, rfl, fun _ => rfl, ?_⟩, ?_⟩
      · simp [nextFile, hnum]
      · rw [length_append, length_singleton]
      · rw [htodo] at hsize
        simpa [blocksSize, blockBytes, Source.lastBlock, nextFile] using hsize
  · rw [entryBlocks_of_ne_nil _ _ hend, cons_append] at htodo
    have hbuf : left.take bufSize ≠ [] := by
      rw [Ne, take_eq_nil_iff]
      simp [bufSize, hend]
    refine ⟨_, _, (job.blockOf codec (!isCompressedFile (src.job.blockName src.base f)) (.fileStream file)
      (left.take bufSize)).2, htodo, ?_, ?_⟩
    · simp [readTurn, hread, blockOf, hbuf, hsame.id, hnum, Source.dataBlock]
    · have hjob' : (job.blockOf codec (!isCompressedFile (src.job.blockName src.base f)) (.fileStream file)
          (left.take bufSize)).2 =
          { job with
            dataStream := some (.fileStream { file with pos := file.pos + (left.take bufSize).length })
            finishedSize := job.finishedSize + (left.take bufSize).length
            transferred := job.transferred +
              (src.dataBlock codec finished.length f (left.take bufSize)).data.length } := by
        simp [blockOf, hbuf, DataStream.advance, Source.dataBlock]
      rw [hjob']
      refine ⟨⟨hsame.id, hsame.type, hsame.source, hsame.files, hsame.detection, hsame.isLastJob,
        hsame.fileSkipped, hsame.isResume⟩, .inr ⟨finished, f, rest, _, hfiles, hnum, rfl, hinode, ?_⟩, ?_⟩
      · rw [content_eq hinode, ← drop_drop, hleft, drop_length_take]
      · rw [htodo] at hsize
        simp only [blocksSize, map_cons, sum_cons, blockBytes_dataBlock hcodec] at hsize ⊢
        omega

/-- A turn of a job that waits for a confirmation sends nothing. -/
theorem readTurn_of_waiting (hsame : SameJob src job) (hdetection : src.detection = true)
    (hconfirmed : job.fileConfirmed = false) (hwaiting : job.fileIsWaiting = true) (disk : Disk) :
    job.readTurn codec disk faults = ([], job, false) := by
  simp [TransferJob.readTurn, TransferJob.read, hsame.type, hsame.detection, hdetection, hconfirmed,
    TransferJob.jobCompleted, hwaiting]

/-- A round after the last block ends the job. -/
theorem handleReadJobs_of_nil (hjob : Owes codec src job []) :
    handleReadJobs codec src.disk (fun _ => faults) [job] = ([.done src.id src.files.length], [], some job) := by
  have hsame := hjob.same
  rcases hjob.place with ⟨finished, rest, hfiles, hnum, hstream, hwaiting, hconfirmed, hrest⟩ |
    ⟨_, _, _, _, _, _, _, _, htodo⟩
  · obtain rfl : rest = [] := by
      cases rest with
      | nil => rfl
      | cons f rest => simp [Source.fileBlocks, entryBlocks_ne_nil] at hrest
    rw [append_nil] at hfiles
    have hentry : job.currentEntry = none := by
      simp [TransferJob.currentEntry, hsame.files, hfiles, hnum]
    have hsame_stream : ({ job with dataStream := none } : TransferJob) = job := by rw [← hstream]
    have hopen : job.openDataStream src.disk faults = (.ok true, job) := by
      unfold TransferJob.openDataStream
      split
      next => rw [hentry, hsame_stream]
      next hbytes => simp [hsame.source] at hbytes
    have hinit : job.initJob src.disk faults = ([], job) := by
      simp [TransferJob.initJob, hsame.isLastJob, TransferJob.initDataStream, hopen]
    have hread : job.read codec src.disk faults = (.ok none, job) := by
      unfold TransferJob.read
      split
      · rfl
      · split
        next => rw [hsame_stream]
        next hsome => simp [hentry] at hsome
        next hbytes => simp [hsame.source] at hbytes
    have hcompleted : job.jobCompleted = true := by
      simp [TransferJob.jobCompleted, hconfirmed rfl, hwaiting]
    have hturn : job.readTurn codec src.disk faults = ([.done job.id job.fileNum], job, true) := by
      simp only [TransferJob.readTurn, hread, hcompleted, if_true, TransferJob.jobError, TransferJob.jobSkipped,
        hsame.fileSkipped, Bool.false_and]
      rfl
    rw [handleReadJobs_single src.disk hinit hsame.isLastJob hturn, hsame.id, hnum, hfiles]
    rfl
  · exact absurd (append_eq_nil_iff.mp htodo.symm).1 (entryBlocks_ne_nil _ _ _)

/-- A round of a job with blocks left: the next block is sent, or the job waits for a
confirmation. -/
theorem handleReadJobs_of_todo (hcodec : ∀ bytes, codec.decompress (codec.compress bytes) = bytes)
    (hreadable : src.Readable) (hfaults : faults.Clean) (hjob : Owes codec src job todo) (htodo : todo ≠ []) :
    ∃ sent job', (∀ m ∈ sent, ∃ k t z r, m = .digest src.id k t z r) ∧
      ((∃ block later, todo = block :: later ∧ Owes codec src job' later ∧
          handleReadJobs codec src.disk (fun _ => faults) [job] = (sent ++ [.block block], [job'], none)) ∨
        (Owes codec src job' todo ∧ Reading codec src job' todo ∧ src.detection = true ∧
          job'.fileConfirmed = false ∧ job'.fileIsWaiting = true ∧
          (job.dataStream.isSome → job.fileConfirmed = false) ∧
          handleReadJobs codec src.disk (fun _ => faults) [job] = (sent, [job'], none))) := by
  obtain ⟨sent, opened, hinit, hsent, howes, hreading, hwaits, hkept⟩ := initJob_of_todo hreadable hfaults hjob htodo
  by_cases hmay : src.detection = true → opened.fileConfirmed = true
  · obtain ⟨block, later, job', heq, hturn, howes'⟩ :=
      readTurn_of_confirmed hcodec hfaults howes hreading hmay
    refine ⟨sent, job', hsent, .inl ⟨block, later, heq, howes', ?_⟩⟩
    exact handleReadJobs_single src.disk hinit howes.same.isLastJob hturn
  · obtain ⟨hdetection, hconfirmed⟩ : src.detection = true ∧ opened.fileConfirmed = false := by
      simpa using hmay
    have hturn : opened.readTurn codec src.disk faults = ([], opened, false) :=
      readTurn_of_waiting howes.same hdetection hconfirmed (hwaits hdetection hconfirmed) src.disk
    refine ⟨sent, opened, hsent, .inr ⟨howes, hreading, hdetection, hconfirmed, hwaits hdetection hconfirmed,
        fun hopen => (hkept hopen).symm.trans hconfirmed, ?_⟩⟩
    rw [handleReadJobs_single src.disk hinit howes.same.isLastJob hturn, append_nil]
    rfl

/-- The blocks of a file hold its bytes. -/
theorem flatMap_entryBlocks (hcodec : ∀ bytes, codec.decompress (codec.compress bytes) = bytes) (n : ℕ)
    (f : FileEntry) (rest : Bytes) :
    (entryBlocks (src.dataBlock codec n f) (src.lastBlock n) rest).flatMap (blockBytes codec) = rest :=
  entryBlocks_flatMap (blockBytes_dataBlock hcodec n f) rfl rest

/-- Every block of a file carries the number of the job and of the file. -/
theorem mem_entryBlocks {rest : Bytes}
    (h : b ∈ entryBlocks (src.dataBlock codec n f) (src.lastBlock n) rest) : b.id = src.id ∧ b.fileNum = n :=
  forall_mem_entryBlocks (P := fun b => b.id = src.id ∧ b.fileNum = n) (fun _ => ⟨rfl, rfl⟩) ⟨rfl, rfl⟩ rest b h

/-- Every block carries the number of the job. -/
theorem mem_fileBlocks {files : List FileEntry} (h : b ∈ src.fileBlocks codec n files) : b.id = src.id := by
  induction files generalizing n with
  | nil => simp [Source.fileBlocks] at h
  | cons f files ih =>
    rcases mem_append.mp h with h | h
    · exact (mem_entryBlocks h).1
    · exact ih h

theorem blocksSize_eq (blocks : List FileTransferBlock) :
    blocksSize codec blocks = (blocks.flatMap (blockBytes codec)).length := by
  rw [blocksSize, length_flatMap]

theorem blocksSize_append (blocks blocks' : List FileTransferBlock) :
    blocksSize codec (blocks ++ blocks') = blocksSize codec blocks + blocksSize codec blocks' := by
  simp [blocksSize]

theorem blocksSize_fileBlocks (hcodec : ∀ bytes, codec.decompress (codec.compress bytes) = bytes) (n : ℕ)
    (files : List FileEntry) :
    blocksSize codec (src.fileBlocks codec n files) = (files.map fun f => (src.content f).length).sum := by
  induction files generalizing n with
  | nil => rfl
  | cons f files ih =>
    rw [Source.fileBlocks, blocksSize_append, blocksSize_eq, flatMap_entryBlocks hcodec, ih, map_cons, sum_cons]

/-- A new job has to send all blocks. -/
theorem owes_job (hcodec : ∀ bytes, codec.decompress (codec.compress bytes) = bytes) (src : Source) :
    Owes codec src src.job (src.blocks codec) where
  same := ⟨rfl, rfl, rfl, rfl, rfl, rfl, rfl, rfl⟩
  place := .inl ⟨[], src.files, rfl, rfl, rfl, rfl, fun _ => rfl, rfl⟩
  size := by
    rw [Source.blocks, blocksSize_fileBlocks hcodec]
    exact Nat.zero_add _

/-- Letting the current file be sent changes nothing about what is left to send. -/
theorem Owes.confirmed (hjob : Owes codec src job todo) (hrange : job.fileNum < src.files.length) :
    Owes codec src (job.setFileConfirmed true) todo := by
  have hsame := hjob.same
  refine ⟨⟨hsame.id, hsame.type, hsame.source, hsame.files, hsame.detection, hsame.isLastJob, rfl, hsame.isResume⟩, ?_,
    hjob.size⟩
  rcases hjob.place with ⟨finished, rest, hfiles, hfinished, hstream, hwaiting, -, htodo⟩ | hreading
  · refine .inl ⟨finished, rest, hfiles, hfinished, hstream, hwaiting, ?_, htodo⟩
    rintro rfl
    rw [hfinished, hfiles, append_nil] at hrange
    exact absurd hrange (Int.lt_irrefl _)
  · exact .inr hreading

end Turn

/-- What can happen to a read job. -/
inductive SendEvent
  | tick (faults : ReadFaults)
  | confirm (request : SendConfirm)

/-- The jobs of a sender, the job that has ended, and the messages so far. -/
structure Sender where
  jobs : List TransferJob
  ended : Option TransferJob := none
  sent : List FileResponse := []

/-- A confirmation goes to the job with its number. -/
def confirmJob (disk : Disk) (request : SendConfirm) : List TransferJob → List TransferJob
  | [] => []
  | job :: jobs =>
    if job.id = request.id then
      ((JobState.confirm ⟨job, disk⟩ {} request).elim job (·.job)) :: jobs
    else job :: confirmJob disk request jobs

namespace Sender

/-- One event of a sender over the files of a disk. -/
def step (codec : Codec) (disk : Disk) (s : Sender) : SendEvent → Sender
  | .tick faults =>
    let round := TransferJob.handleReadJobs codec disk (fun _ => faults) s.jobs
    { jobs := round.2.1, ended := round.2.2.or s.ended, sent := s.sent ++ round.1 }
  | .confirm request => { s with jobs := confirmJob disk request s.jobs }

end Sender

/-- The blocks among the messages. -/
def sentBlocks (sent : List FileResponse) : List FileTransferBlock :=
  sent.filterMap fun m =>
    match m with
    | .block b => some b
    | _ => none

/-- The event is a tick without failures or lets a file be sent from its start. -/
def SendEvent.Undisturbed (files : List FileEntry) : SendEvent → Prop
  | .tick faults => faults.Clean
  | .confirm request =>
    (request.union = some (.skip false) ∨ request.union = some (.offsetBlk 0)) ∧
      0 ≤ request.fileNum ∧ request.fileNum < files.length

/-- What a sender keeps: the blocks sent and those still owed are all blocks of the job; the end is
announced after the last one. -/
def Sender.Tracks (codec : Codec) (src : Source) (s : Sender) : Prop :=
  (∃ job todo, s.jobs = [job] ∧ s.ended = none ∧ Owes codec src job todo ∧
      sentBlocks s.sent ++ todo = src.blocks codec ∧
      ∀ m ∈ s.sent, (∃ b, m = .block b) ∨ ∃ k t z r, m = .digest src.id k t z r) ∨
    ∃ job earlier, s.jobs = [] ∧ s.ended = some job ∧ job.finishedSize = src.total ∧
      s.sent = earlier ++ [.done src.id src.files.length] ∧ sentBlocks earlier = src.blocks codec ∧
      ∀ m ∈ earlier, (∃ b, m = .block b) ∨ ∃ k t z r, m = .digest src.id k t z r

section Run

variable {codec : Codec} {src : Source} {s : Sender} {e : SendEvent} {plan : List (ReadFaults × ConfirmUnion)}
  {request : SendConfirm}

theorem sentBlocks_append (sent sent' : List FileResponse) :
    sentBlocks (sent ++ sent') = sentBlocks sent ++ sentBlocks sent' := by
  simp [sentBlocks]

theorem sentBlocks_of_digests {sent : List FileResponse}
    (h : ∀ m ∈ sent, ∃ k t z r, m = FileResponse.digest src.id k t z r) : sentBlocks sent = [] := by
  rw [sentBlocks, filterMap_eq_nil_iff]
  intro m hm
  obtain ⟨k, t, z, r, rfl⟩ := h m hm
  rfl

theorem Sender.Tracks.tick (hcodec : ∀ bytes, codec.decompress (codec.compress bytes) = bytes)
    (hreadable : src.Readable) {faults : ReadFaults} (hfaults : faults.Clean) (hs : s.Tracks codec src) :
    (s.step codec src.disk (.tick faults)).Tracks codec src := by
  rcases hs with ⟨job, todo, hjobs, hended, howes, hblocks, hsent⟩ |
    ⟨job, earlier, hjobs, hended, hsize, hsent, hblocks, hearlier⟩
  · by_cases htodo : todo = []
    · subst htodo
      have hround : handleReadJobs codec src.disk (fun _ => faults) [job] = _ :=
        handleReadJobs_of_nil howes
      refine .inr ⟨job, s.sent, ?_, ?_, ?_, ?_, by simpa using hblocks, hsent⟩
      · simp [step, hjobs, hround]
      · simp [step, hjobs, hround]
      · simpa [blocksSize] using howes.size
      · simp [step, hjobs, hround]
    · obtain ⟨sent, job', hdigests, hround⟩ :=
        handleReadJobs_of_todo hcodec hreadable hfaults howes htodo
      have hmessages : ∀ m ∈ s.sent ++ sent,
          (∃ b, m = FileResponse.block b) ∨ ∃ k t z r, m = FileResponse.digest src.id k t z r := by
        intro m hm
        rcases mem_append.mp hm with hm | hm
        · exact hsent m hm
        · exact .inr (hdigests m hm)
      rcases hround with ⟨block, later, rfl, howes', hround⟩ | ⟨howes', -, -, -, -, -, hround⟩
      · refine .inl ⟨job', later, ?_, ?_, howes', ?_, ?_⟩
        · simp [step, hjobs, hround]
        · simp [step, hjobs, hround, hended]
        · simp only [step, hjobs, hround, sentBlocks_append, sentBlocks_of_digests hdigests]
          rw [← hblocks]
          simp [sentBlocks]
        · intro m hm
          simp only [step, hjobs, hround, ← append_assoc] at hm
          rcases mem_append.mp hm with hm | hm
          · exact hmessages m hm
          · exact .inl ⟨block, mem_singleton.mp hm⟩
      · refine .inl ⟨job', todo, ?_, ?_, howes', ?_, ?_⟩
        · simp [step, hjobs, hround]
        · simp [step, hjobs, hround, hended]
        · simp only [step, hjobs, hround, sentBlocks_append, sentBlocks_of_digests hdigests, append_nil]
          exact hblocks
        · intro m hm
          exact hmessages m (by simpa [step, hjobs, hround] using hm)
  · refine .inr ⟨job, earlier, ?_, ?_, hsize, ?_, hblocks, hearlier⟩
    · simp [step, hjobs, handleReadJobs, firstTurn]
    · simp [step, hjobs, handleReadJobs, firstTurn, hended]
    · simp [step, hjobs, handleReadJobs, firstTurn, hsent]

/-- A confirmation that lets a file be sent leaves the job alone or marks its file as confirmed. -/
theorem confirmJob_single (job : TransferJob) (disk : Disk)
    (hunion : request.union = some (.skip false) ∨ request.union = some (.offsetBlk 0)) :
    confirmJob disk request [job] = [job] ∨
      job.fileNum = request.fileNum ∧ confirmJob disk request [job] = [job.setFileConfirmed true] := by
  by_cases hid : job.id = request.id
  · by_cases hnum : job.fileNum = request.fileNum
    · refine .inr ⟨hnum, ?_⟩
      rcases hunion with hunion | hunion <;> simp [confirmJob, hid, confirm, hnum, hunion]
    · exact .inl (by simp [confirmJob, hid, confirm, hnum])
  · exact .inl (by simp [confirmJob, hid])

theorem Sender.Tracks.confirm (hunion : request.union = some (.skip false) ∨ request.union = some (.offsetBlk 0))
    (hrange : request.fileNum < src.files.length) (hs : s.Tracks codec src) :
    (s.step codec src.disk (.confirm request)).Tracks codec src := by
  rcases hs with ⟨job, todo, hjobs, hended, howes, hblocks, hsent⟩ | ⟨job, earlier, hjobs, hrest⟩
  · rcases confirmJob_single job src.disk hunion with heq | ⟨hnum, heq⟩
    · refine .inl ⟨job, todo, ?_, hended, howes, hblocks, hsent⟩
      simp [Sender.step, hjobs, heq]
    · refine .inl ⟨_, todo, ?_, hended, howes.confirmed (hnum ▸ hrange), hblocks, hsent⟩
      simp [Sender.step, hjobs, heq]
  · exact .inr ⟨job, earlier, by simp [Sender.step, hjobs, confirmJob], hrest⟩

theorem Sender.Tracks.step (hcodec : ∀ bytes, codec.decompress (codec.compress bytes) = bytes)
    (hreadable : src.Readable) (he : e.Undisturbed src.files) (hs : s.Tracks codec src) :
    (s.step codec src.disk e).Tracks codec src := by
  cases e with
  | tick faults => exact hs.tick hcodec hreadable he
  | confirm request => exact hs.confirm he.1 he.2.2

/-- The new sender of a job. -/
def Source.sender (src : Source) : Sender := { jobs := [src.job] }

theorem sender_tracks (hcodec : ∀ bytes, codec.decompress (codec.compress bytes) = bytes) (src : Source) :
    src.sender.Tracks codec src :=
  .inl ⟨src.job, _, rfl, rfl, owes_job hcodec src, rfl, by simp [Source.sender]⟩

/-- The confirmation that a waiting job is given. -/
def Sender.reply (answer : ConfirmUnion) (s : Sender) : List SendEvent :=
  match s.jobs with
  | [] => []
  | job :: _ =>
    if job.fileIsWaiting ∧ !job.fileConfirmed then
      [.confirm { id := job.id, fileNum := job.fileNum, union := some answer }]
    else []

/-- The events of a sender that is driven round by round, every request for a confirmation being
answered at once. -/
def Sender.rounds (codec : Codec) (disk : Disk) : List (ReadFaults × ConfirmUnion) → Sender → List SendEvent
  | [], _ => []
  | (faults, answer) :: plan, s =>
    let ticked := s.step codec disk (.tick faults)
    let reply := ticked.reply answer
    .tick faults :: reply ++ Sender.rounds codec disk plan (runEvents (Sender.step codec disk) ticked reply)

/-- A round is without failures and answers that the file is to be sent from its start. -/
def undisturbedRound (round : ReadFaults × ConfirmUnion) : Prop :=
  round.1.Clean ∧ (round.2 = .skip false ∨ round.2 = .offsetBlk 0)

/-- The answers of a driver let the current file be sent. -/
theorem reply_undisturbed {round : ReadFaults × ConfirmUnion} (hround : undisturbedRound round)
    (hs : s.Tracks codec src) : ∀ e ∈ s.reply round.2, e.Undisturbed src.files := by
  intro e he
  rcases hs with ⟨job, todo, hjobs, -, howes, -⟩ | ⟨job, earlier, hjobs, -⟩
  · simp only [Sender.reply, hjobs] at he
    split at he
    next hwaiting =>
      obtain rfl := mem_singleton.mp he
      refine ⟨hround.2.imp (congrArg some) (congrArg some), ?_⟩
      -- A job that waits is within a file.
      rcases howes.place with ⟨_, _, _, _, _, hidle, -⟩ | ⟨finished, f, rest, _, hfiles, hnum, -⟩
      · simp [hidle] at hwaiting
      · simp only [hnum, hfiles, length_append, length_cons]
        omega
    next => simp at he
  · simp [Sender.reply, hjobs] at he

theorem Sender.Tracks.run (hcodec : ∀ bytes, codec.decompress (codec.compress bytes) = bytes)
    (hreadable : src.Readable) {events : List SendEvent} (hevents : ∀ e ∈ events, e.Undisturbed src.files)
    (hs : s.Tracks codec src) : (runEvents (Sender.step codec src.disk) s events).Tracks codec src := by
  induction events generalizing s with
  | nil => exact hs
  | cons e events ih =>
    refine ih (fun e' he' => hevents e' (mem_cons_of_mem e he')) ?_
    exact hs.step hcodec hreadable (hevents e mem_cons_self)

theorem rounds_undisturbed (hcodec : ∀ bytes, codec.decompress (codec.compress bytes) = bytes)
    (hreadable : src.Readable)
    (hplan : ∀ round ∈ plan, undisturbedRound round) (hs : s.Tracks codec src) :
    ∀ e ∈ s.rounds codec src.disk plan, e.Undisturbed src.files := by
  induction plan generalizing s with
  | nil => simp [Sender.rounds]
  | cons round plan ih =>
    have hround := hplan round mem_cons_self
    have hticked : (s.step codec src.disk (.tick round.1)).Tracks codec src := hs.tick hcodec hreadable hround.1
    have hreply := reply_undisturbed hround hticked
    intro e he
    simp only [Sender.rounds, cons_append, mem_cons, mem_append] at he
    rcases he with rfl | he | he
    · exact hround.1
    · exact hreply e he
    · exact ih (fun r hr => hplan r (mem_cons_of_mem _ hr)) (hticked.run hcodec hreadable hreply) e he

/-- The rounds that a job may still need: two for every block and two at the end, or one less when
the current file is confirmed. -/
def Sender.EndsWithin (codec : Codec) (src : Source) (n : ℕ) (s : Sender) : Prop :=
  s.jobs = [] ∨ ∃ job todo, s.jobs = [job] ∧ Owes codec src job todo ∧ (2 * todo.length + 2 ≤ n ∨
      job.dataStream.isSome ∧ (src.detection = true → job.fileConfirmed = true) ∧ 2 * todo.length + 1 ≤ n)

/-- An answered job is the same job, with its file confirmed if it had waited for that. -/
theorem jobs_of_reply {answer : ConfirmUnion} {job : TransferJob} {todo : List FileTransferBlock}
    (hanswer : answer = .skip false ∨ answer = .offsetBlk 0) (hjobs : s.jobs = [job])
    (howes : Owes codec src job todo) :
    ∃ job', (runEvents (Sender.step codec src.disk) s (s.reply answer)).jobs = [job'] ∧ Owes codec src job' todo ∧
      (job.fileIsWaiting = true → job.fileConfirmed = false → job' = job.setFileConfirmed true) := by
  by_cases hwaiting : job.fileIsWaiting = true ∧ (!job.fileConfirmed) = true
  · refine ⟨job.setFileConfirmed true, ?_, ?_, fun _ _ => rfl⟩
    · rcases hanswer with rfl | rfl <;>
        simp [Sender.reply, hjobs, hwaiting, runEvents, Sender.step, confirmJob, confirm]
    · have hrange : job.fileNum < src.files.length := by
        rcases howes.place with ⟨_, _, _, _, _, hidle, -⟩ | ⟨finished, f, rest, _, hfiles, hnum, -⟩
        · simp [hidle] at hwaiting
        · simp only [hnum, hfiles, length_append, length_cons]
          omega
      exact howes.confirmed hrange
  · refine ⟨job, ?_, howes, fun hw hc => absurd ⟨hw, by simp [hc]⟩ hwaiting⟩
    have hreply : s.reply answer = [] := by simp only [Sender.reply, hjobs, if_neg hwaiting]
    rw [hreply]
    exact hjobs

section ReadableRounds

variable (hcodec : ∀ bytes, codec.decompress (codec.compress bytes) = bytes) (hreadable : src.Readable)
include hcodec hreadable

/-- Every round brings the end nearer. -/
theorem Sender.EndsWithin.round {round : ReadFaults × ConfirmUnion} (hround : undisturbedRound round)
    (hs : s.EndsWithin codec src (n + 1)) :
    let ticked := s.step codec src.disk (.tick round.1)
    (runEvents (Sender.step codec src.disk) ticked (ticked.reply round.2)).EndsWithin codec src n := by
  intro ticked
  have hended : ticked.jobs = [] →
      (runEvents (Sender.step codec src.disk) ticked (ticked.reply round.2)).EndsWithin codec src n := by
    intro hnil
    have hreply : ticked.reply round.2 = [] := by simp [Sender.reply, hnil]
    rw [hreply]
    exact .inl hnil
  rcases hs with hjobs | ⟨job, todo, hjobs, howes, hbound⟩
  · exact hended (by simp [ticked, Sender.step, hjobs, handleReadJobs, firstTurn])
  by_cases htodo : todo = []
  · subst htodo
    have hstep : handleReadJobs codec src.disk (fun _ => round.1) [job] = _ :=
      handleReadJobs_of_nil howes
    exact hended (by simp [ticked, Sender.step, hjobs, hstep])
  obtain ⟨sent, job', -, ⟨block, later, rfl, howes', hstep⟩ |
    ⟨howes', hreading, hdetection, hunconfirmed, hwaiting, hopen, hstep⟩⟩ :=
    handleReadJobs_of_todo hcodec hreadable hround.1 howes htodo
  · have hjobs' : ticked.jobs = [job'] := by simp [ticked, Sender.step, hjobs, hstep]
    obtain ⟨job'', hjobs'', howes'', -⟩ := jobs_of_reply hround.2 hjobs' howes'
    refine .inr ⟨job'', later, hjobs'', howes'', .inl ?_⟩
    rw [length_cons] at hbound
    omega
  · have hjobs' : ticked.jobs = [job'] := by simp [ticked, Sender.step, hjobs, hstep]
    obtain ⟨job'', hjobs'', howes'', hconfirmed⟩ := jobs_of_reply hround.2 hjobs' howes'
    have hjob'' := hconfirmed hwaiting hunconfirmed
    obtain ⟨_, _, _, _, _, _, hstream, -⟩ := hreading
    refine .inr ⟨job'', todo, hjobs'', howes'', .inr ⟨?_, ?_, ?_⟩⟩
    · rw [hjob'']
      exact Option.isSome_iff_exists.mpr ⟨_, hstream⟩
    · rw [hjob'']
      exact fun _ => rfl
    · -- A job that was confirmed before the round does not wait.
      rcases hbound with hbound | ⟨hsome, hmay, -⟩
      · omega
      · have hcontra := hmay hdetection
        rw [hopen hsome] at hcontra
        exact Bool.noConfusion hcontra

/-- With enough rounds the job ends. -/
theorem jobs_of_rounds (hplan : ∀ round ∈ plan, undisturbedRound round) (hs : s.EndsWithin codec src plan.length) :
    (runEvents (Sender.step codec src.disk) s (s.rounds codec src.disk plan)).jobs = [] := by
  induction plan generalizing s with
  | nil =>
    rcases hs with hjobs | ⟨job, todo, -, -, hbound⟩
    · exact hjobs
    · simp only [length_nil] at hbound
      omega
  | cons round plan ih =>
    have hnext := hs.round hcodec hreadable (hplan round mem_cons_self)
    have hrest := ih (fun r hr => hplan r (mem_cons_of_mem _ hr)) hnext
    rw [Sender.rounds, cons_append, runEvents, runEvents_append]
    exact hrest

end ReadableRounds

end Run

end UnyDesk
