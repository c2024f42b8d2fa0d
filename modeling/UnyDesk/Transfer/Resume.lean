import UnyDesk.Transfer.Delivery

/-!
# A file that is resumed

Both sides of a transfer open the current file again at an offset: the sender reads what is left, and the receiver writes it
behind what it has. One function serves both sides, and it takes the one with `.download` and `.digest` beside the file for
the receiver. A sender with leftovers of its own opens its `.download` for writing, and cannot read from it.

A receiver only takes an offset for the file that it is at, and it comes to a file with its first block. The offset of another
file is passed over, so that the first block empties what was received.
-/

namespace UnyDesk

open Lib FileSystem TransferJob List JobState Bool Option

variable {file : OpenFile}

namespace TransferJob

/-- The stream was opened for writing. -/
def writesOnly (job : TransferJob) : Bool :=
  match job.dataStream with
  | some (.fileStream file) => file.writable
  | _ => false

/-- What the system does with the reads of a round: a file that was opened for writing refuses them. -/
def osReads (job : TransferJob) (reads : List ReadOutcome) : List ReadOutcome :=
  if job.writesOnly then .fails "Bad file descriptor (os error 9)" :: reads else reads

/-- The blocks that a job sends of its current file, one for each round. -/
def sendFile (codec : Codec) (disk : Disk) : List (List ReadOutcome) → TransferJob → List FileTransferBlock
  | [], _ => []
  | reads :: rounds, job =>
    match job.read codec disk { reads := job.osReads reads } with
    | (.ok (some block), job') => if job'.fileNum = job.fileNum then block :: sendFile codec disk rounds job' else [block]
    | _ => []

end TransferJob

/-- The file that `set_stream_offset` opens for an entry. -/
def reopened (disk : Disk) (base : String) (f : FileEntry) : Option OpenFile :=
  if disk.existsAt (downloadOf base f) ∧ disk.existsAt (digestOf base f) then
    (disk.names (downloadOf base f)).map fun inode => { path := downloadPath (joinPath base f.name), inode }
  else (disk.names (destOf base f)).map fun inode => { path := joinPath base f.name, inode, writable := false }

/-- A transfer that was interrupted within a file: the sender is at the file, and the receiver has its first bytes with their
digest beside it. -/
structure Interrupted where
  sender : JobState
  senderBase : String
  senderEntry : FileEntry
  receiver : JobState
  receiverBase : String
  receiverEntry : FileEntry
  fileNum : ℕ
  content : Bytes
  modified : ℕ
  offset : ℕ
  sender_type : sender.job.type = .generic
  sender_source : sender.job.dataSource = .filePath senderBase
  sender_entry : sender.job.files[fileNum]? = some senderEntry
  sender_name : validateFileNameNoTraversal senderEntry.name = .ok ()
  sender_num : sender.job.fileNum = fileNum
  source : sender.disk.contents (destOf senderBase senderEntry) = some content
  receiver_id : receiver.job.id = sender.job.id
  receiver_type : receiver.job.type = .generic
  receiver_source : receiver.job.dataSource = .filePath receiverBase
  receiver_entry : receiver.job.files[fileNum]? = some receiverEntry
  receiver_name : validateFileNameNoTraversal receiverEntry.name = .ok ()
  received : receiver.disk.contents (downloadOf receiverBase receiverEntry) = some (content.take offset)
  digest : receiver.disk.contents (digestOf receiverBase receiverEntry) =
    some ({ size := content.length, modified : FileDigest }).text
  offset_pos : 0 < offset
  offset_le : offset ≤ content.length
  /-- The numbers are of the type `i32`. -/
  num_lt : fileNum < 2 ^ 31
  receiver_num : -2 ^ 31 ≤ receiver.job.fileNum ∧ receiver.job.fileNum < 2 ^ 31

namespace Interrupted

variable (t : Interrupted)

def request : SendConfirm := { id := t.sender.job.id, fileNum := t.fileNum, union := some (.offsetBlk t.offset) }

/-- The block that ends the file. -/
def lastBlock : FileTransferBlock := { id := t.sender.job.id, fileNum := t.fileNum, data := [] }

/-- Both sides have taken the offset, and the blocks of the sender complete the file of the receiver. -/
structure Completes (codec : Codec) (sender receiver : JobState) (blocks : List FileTransferBlock) : Prop where
  rest : blocks.flatMap (JobState.blockBytes codec) = t.content.drop t.offset
  last : blocks.getLast? = some t.lastBlock
  untouched : sender.disk = t.sender.disk
  accepted : receiver.Accepts codec blocks
  placed : ((receiver.deliver codec blocks).modifyTime {}).disk.contents (destOf t.receiverBase t.receiverEntry) = some t.content

/-- The file is resumed and comes to its end. -/
def Resumes (codec : Codec) (rounds : List (List ReadOutcome)) : Prop :=
  ∃ sender receiver, t.sender.confirm {} t.request = some sender ∧ t.receiver.confirm {} t.request = some receiver ∧
    t.Completes codec sender receiver (sender.job.sendFile codec sender.disk rounds)

/-- The sender has a `.download` and a `.digest` beside the file. -/
def senderLeftover : Bool :=
  t.sender.disk.existsAt (downloadOf t.senderBase t.senderEntry) && t.sender.disk.existsAt (digestOf t.senderBase t.senderEntry)

end Interrupted

section Sending

variable {codec : Codec} {disk : Disk} {job : TransferJob} {file : OpenFile} {base : String} {f : FileEntry}

/-- A piece of the current file. -/
def TransferJob.pieceBlock (codec : Codec) (job : TransferJob) (compressible : Bool) (buf : Bytes) : FileTransferBlock :=
  { id := job.id
    fileNum := job.fileNum
    data := (TransferJob.packed codec compressible buf).1
    compressed := (TransferJob.packed codec compressible buf).2 }

theorem blockBytes_pieceBlock (hcodec : ∀ bytes, codec.decompress (codec.compress bytes) = bytes) (job : TransferJob)
    (compressible : Bool) (buf : Bytes) : blockBytes codec (job.pieceBlock codec compressible buf) = buf := by
  unfold pieceBlock packed
  split
  · exact hcodec buf
  · rfl

variable (codec disk) in
/-- A round of a confirmed job that reads its file. -/
theorem read_of_reader (hsource : job.dataSource = .filePath base) (hentry : job.currentEntry = some f)
    (hconfirmed : job.fileConfirmed = true) (hstream : job.dataStream = some (.fileStream file))
    (hreader : file.writable = false) {reads : List ReadOutcome} (hreads : ∀ r ∈ reads, ∃ n, r = .upTo n) :
    job.read codec disk { reads := job.osReads reads } =
      (.ok (some (job.blockOf codec (!isCompressedFile (job.blockName base f)) (.fileStream file)
          (((disk.data file.inode).drop file.pos).take bufSize)).1),
        (job.blockOf codec (!isCompressedFile (job.blockName base f)) (.fileStream file)
          (((disk.data file.inode).drop file.pos).take bufSize)).2) := by
  have hgate : ¬(job.type = .generic ∧ job.enableOverwriteDetection = true ∧ (!job.fileConfirmed) = true) := by
    rintro ⟨-, -, hwaits⟩
    rw [hconfirmed] at hwaits
    exact Bool.false_ne_true hwaits
  have hwrites : job.writesOnly = false := by
    unfold TransferJob.writesOnly
    rw [hstream]
    exact hreader
  have hos : job.osReads reads = reads := by
    unfold TransferJob.osReads
    rw [hwrites]
    exact if_neg Bool.false_ne_true
  have hfill := fillBuffer_eq hreads ((disk.data file.inode).drop file.pos) (show 0 < bufSize by simp [bufSize])
  simp only [TransferJob.read, if_neg hgate, hsource, hentry, hstream, DataStream.rest, hos, hfill]

variable (codec disk) in
/-- A confirmed job sends its file from its position on. -/
theorem sendFile_of_reader (hsource : job.dataSource = .filePath base) (hentry : job.currentEntry = some f)
    (hconfirmed : job.fileConfirmed = true) (hstream : job.dataStream = some (.fileStream file))
    (hreader : file.writable = false) {rounds : List (List ReadOutcome)}
    (hrounds : ∀ reads ∈ rounds, ∀ r ∈ reads, ∃ n, r = .upTo n) :
    job.sendFile codec disk rounds =
      (entryBlocks (job.pieceBlock codec (!isCompressedFile (job.blockName base f)))
        { id := job.id, fileNum := job.fileNum, data := [] } ((disk.data file.inode).drop file.pos)).take rounds.length := by
  induction rounds generalizing job file with
  | nil => rfl
  | cons reads rounds ih =>
    have hread := read_of_reader codec disk hsource hentry hconfirmed hstream hreader (hrounds reads mem_cons_self)
    unfold sendFile
    rw [hread]
    generalize hrest : (disk.data file.inode).drop file.pos = rest
    by_cases hend : rest = []
    · -- The empty block ends the file, and the job goes on to the next one.
      have hnext : job.fileNum + 1 ≠ job.fileNum := by omega
      rw [hend, entryBlocks_nil]
      simp [blockOf, nextFile, hnext]
    · have hbuf : rest.take bufSize ≠ [] := by
        rw [Ne, take_eq_nil_iff]
        simp [bufSize, hend]
      let job' : TransferJob :=
        { job with
          dataStream := some (.fileStream { file with pos := file.pos + (rest.take bufSize).length })
          finishedSize := job.finishedSize + (rest.take bufSize).length
          transferred := job.transferred +
            (packed codec (!isCompressedFile (job.blockName base f)) (rest.take bufSize)).1.length }
      have hblock : job.blockOf codec (!isCompressedFile (job.blockName base f)) (.fileStream file) (rest.take bufSize) =
          (job.pieceBlock codec (!isCompressedFile (job.blockName base f)) (rest.take bufSize), job') := by
        rw [blockOf, if_neg hbuf]
        rfl
      have hlater := ih (show job'.dataSource = .filePath base from hsource) hentry hconfirmed rfl hreader fun reads' hmem =>
        hrounds reads' (mem_cons_of_mem _ hmem)
      have hdrop : (disk.data file.inode).drop (file.pos + (rest.take bufSize).length) = rest.drop bufSize := by
        rw [← drop_drop, hrest, drop_length_take]
      rw [hdrop] at hlater
      rw [hblock, entryBlocks_of_ne_nil _ _ hend, length_cons, take_succ_cons]
      simp only
      rw [if_pos rfl, hlater]
      rfl

end Sending

/-- A job with a file that was opened for writing sends nothing of it. -/
theorem sendFile_of_writer (codec : Codec) (disk : Disk) {job : TransferJob} {base : String} {f : FileEntry}
    (hsource : job.dataSource = .filePath base) (hentry : job.currentEntry = some f)
    (hstream : job.dataStream = some (.fileStream file)) (hwriter : file.writable = true) (rounds : List (List ReadOutcome)) :
    job.sendFile codec disk rounds = [] := by
  cases rounds with
  | nil => rfl
  | cons reads rounds =>
    have hos : job.osReads reads = .fails "Bad file descriptor (os error 9)" :: reads := by
      unfold TransferJob.osReads TransferJob.writesOnly
      rw [hstream]
      exact if_pos hwriter
    have hread : (∃ e, job.read codec disk { reads := job.osReads reads } = (.error e, job.nextFile)) ∨
        job.read codec disk { reads := job.osReads reads } = (.ok none, job) := by
      unfold TransferJob.read
      split_ifs with hgate
      · exact .inr rfl
      · refine .inl ⟨"Bad file descriptor (os error 9)", ?_⟩
        simp only [hsource, hentry, hstream, hos, fillBuffer]
    unfold TransferJob.sendFile
    rcases hread with ⟨e, heq⟩ | heq
    · rw [heq]
    · rw [heq]

/-- The job with the file opened at an offset. -/
def TransferJob.resumedAt (job : TransferJob) (file : OpenFile) (offset : ℕ) : TransferJob :=
  { job with
    fileConfirmed := true
    fileSkipped := false
    dataStream := some (.fileStream { file with pos := offset })
    transferred := job.transferred + offset
    finishedSize := job.finishedSize + offset }

section Confirming

variable {s : JobState} {base : String} {entry : FileEntry} {fileNum : ℕ}

section SetStreamOffset_of_entry

variable (htype : s.job.type = .generic) (hsource : s.job.dataSource = .filePath base)
  (hentry : s.job.files[fileNum]? = some entry) (hname : validateFileNameNoTraversal entry.name = .ok ())
  (hopened : reopened s.disk base entry = some file)
include htype hsource hentry hname hopened

/-- `set_stream_offset` without failures of the system. -/
theorem setStreamOffset_of_entry (offset : ℕ) : s.setStreamOffset {} fileNum offset = some { s with
          job :=
            { s.job with
              dataStream := some (.fileStream { file with pos := offset })
              transferred := s.job.transferred + offset
              finishedSize := s.job.finishedSize + offset } } := by
  have hresolve := s.job.resolveEntryPath_of_valid base htype hname
  unfold setStreamOffset
  rw [asUsize_natCast]
  simp only [hsource, hentry, hresolve]
  unfold reopened downloadOf digestOf destOf at hopened
  rw [hopened]

/-- A confirmation of an offset at the current file. -/
theorem confirm_of_current (hnum : s.job.fileNum = fileNum) {offset : ℕ} (hoffset : 0 < offset) (id : Int) :
    s.confirm {} { id, fileNum, union := some (.offsetBlk offset) } =
      some { s with job := s.job.resumedAt file offset } := by
  unfold confirm
  rw [if_neg (not_not_intro hnum)]
  simp only
  rw [if_pos hoffset]
  exact setStreamOffset_of_entry (s := { s with job := s.job.setFileConfirmed true }) htype hsource hentry hname hopened offset

end SetStreamOffset_of_entry

end Confirming

section Receiving

/-- The receiver has so much of the entry, and writes on behind it. -/
structure Receiving (base : String) (entry : FileEntry) (id : Int) (fileNum : ℕ) (s : JobState) (got : Bytes) : Prop where
  id : s.job.id = id
  type : s.job.type = .generic
  source : s.job.dataSource = .filePath base
  listed : s.job.files[fileNum]? = some entry
  num : asUsize s.job.fileNum = fileNum
  stream : ∃ file, s.job.dataStream = some (.fileStream file) ∧ file.writable = true ∧ file.pos = got.length ∧
    s.disk.names (downloadOf base entry) = some file.inode ∧ s.disk.data file.inode = got

variable {codec : Codec} {base : String} {entry : FileEntry} {id : Int} {fileNum : ℕ} {s : JobState} {got : Bytes}
  {block : FileTransferBlock} {blocks : List FileTransferBlock}

variable (codec) in
/-- A further block of the entry. -/
theorem Receiving.write (h : Receiving base entry id fileNum s got) (hid : block.id = id) (hnum : block.fileNum = fileNum) :
    (s.write codec {} block).1 = none ∧
      Receiving base entry id fileNum (s.write codec {} block).2 (got ++ blockBytes codec block) := by
  obtain ⟨file, hstream, hwritable, hpos, hnames, hdata⟩ := h.stream
  have hasUsize : asUsize block.fileNum = fileNum := by rw [hnum, asUsize_natCast]
  rw [write_of_same codec (hid.trans h.id.symm) h.source (hasUsize ▸ h.listed) (hasUsize.trans h.num.symm) hstream
    hwritable rfl]
  refine ⟨rfl, h.id, h.type, h.source, h.listed, h.num, _, rfl, hwritable, ?_, hnames, ?_⟩
  · rw [length_append, hpos]
  · rw [write_data, hdata, hpos, overwrite_length]

variable (codec) in
theorem Receiving.deliver (h : Receiving base entry id fileNum s got)
    (hblocks : ∀ b ∈ blocks, b.id = id ∧ b.fileNum = fileNum) :
    s.Accepts codec blocks ∧
      Receiving base entry id fileNum (s.deliver codec blocks) (got ++ blocks.flatMap (blockBytes codec)) := by
  induction blocks generalizing s got with
  | nil =>
    rw [flatMap_nil, append_nil]
    exact ⟨trivial, h⟩
  | cons b blocks ih =>
    obtain ⟨hid, hnum⟩ := hblocks b mem_cons_self
    obtain ⟨hok, hnext⟩ := h.write codec hid hnum
    obtain ⟨haccepts, hreceiving⟩ := ih hnext fun b' hb' => hblocks b' (mem_cons_of_mem _ hb')
    rw [flatMap_cons, ← append_assoc]
    exact ⟨⟨hok, haccepts⟩, hreceiving⟩

/-- What was received takes the place of the destination. -/
theorem Receiving.modifyTime (h : Receiving base entry id fileNum s got)
    (hname : validateFileNameNoTraversal entry.name = .ok ()) :
    (s.modifyTime {}).disk.contents (destOf base entry) = some got := by
  obtain ⟨file, -, -, -, hnames, hdata⟩ := h.stream
  have hentry : s.job.currentEntry = some entry := by
    unfold TransferJob.currentEntry
    rw [h.num]
    exact h.listed
  have hresolve := s.job.resolveEntryPath_of_valid base h.type hname
  have hdisk : (s.modifyTime {}).disk =
      (s.disk.remove (digestOf base entry)).rename (downloadOf base entry) (destOf base entry) := by
    simp [JobState.modifyTime, TransferJob.modifyTime, h.type, h.source, hentry, hresolve, digestOf, downloadOf, destOf]
  have hnames' : (s.disk.remove (digestOf base entry)).names (downloadOf base entry) = some file.inode := by
    rw [FileSystem.remove_names_of_ne _ (downloadOf_ne_digestOf base entry entry), hnames]
  have hne : downloadOf base entry ≠ destOf base entry := locate_downloadPath_ne _
  rw [hdisk, FileSystem.contents_rename_target hne hnames', FileSystem.remove_data, hdata]

variable (codec) in
/-- The first block of a file that the receiver is not at empties the file. -/
theorem receiving_of_switch (hid : s.job.id = id) (htype : s.job.type = .generic) (hsource : s.job.dataSource = .filePath base)
    (hentry : s.job.files[fileNum]? = some entry) (hname : validateFileNameNoTraversal entry.name = .ok ())
    (hother : asUsize s.job.fileNum ≠ fileNum) (hblock : block.id = id ∧ block.fileNum = fileNum) :
    Receiving base entry id fileNum (s.write codec {} block).2 (blockBytes codec block) := by
  have hasUsize : asUsize block.fileNum = fileNum := by rw [hblock.2, asUsize_natCast]
  have hswitch : asUsize block.fileNum ≠ asUsize s.job.fileNum := by
    rw [hasUsize]
    exact hother.symm
  obtain ⟨inode, disk, heq, hnames, hdata, -⟩ := write_of_switch codec htype (hblock.1.trans hid.symm) hsource
    (hasUsize ▸ hentry) (.inl hswitch) rfl (opens_of_valid hname s base) rfl
  rw [heq]
  refine ⟨hid, htype, hsource, hentry, hasUsize, _, rfl, rfl, rfl, hnames, ?_⟩
  rw [write_data, hdata]
  exact overwrite_length [] _

end Receiving

namespace Interrupted

variable {codec : Codec} {t : Interrupted} {rounds : List (List ReadOutcome)}

/-- What the sender opens for the offset. -/
theorem reopened_sender (t : Interrupted) : ∃ file, reopened t.sender.disk t.senderBase t.senderEntry = some file ∧
      file.writable = t.senderLeftover ∧ (t.senderLeftover = false → t.sender.disk.data file.inode = t.content) := by
  unfold reopened senderLeftover
  split_ifs with hleft
  · obtain ⟨inode, hinode⟩ := isSome_iff_exists.mp hleft.1
    have hboth : (t.sender.disk.existsAt (downloadOf t.senderBase t.senderEntry) &&
        t.sender.disk.existsAt (digestOf t.senderBase t.senderEntry)) = true := and_eq_true_iff.mpr hleft
    rw [hinode, hboth]
    exact ⟨_, rfl, rfl, fun hfalse => absurd hfalse.symm false_ne_true⟩
  · obtain ⟨inode, hinode, hdata⟩ := exists_names_of_contents t.source
    have hboth : (t.sender.disk.existsAt (downloadOf t.senderBase t.senderEntry) &&
        t.sender.disk.existsAt (digestOf t.senderBase t.senderEntry)) = false :=
      eq_false_iff.mpr fun htrue => hleft (and_eq_true_iff.mp htrue)
    rw [hinode, hboth]
    exact ⟨_, rfl, rfl, fun _ => hdata⟩

/-- The sender takes the offset. -/
theorem confirm_sender (t : Interrupted) :
    ∃ file, t.sender.confirm {} t.request = some { t.sender with job := t.sender.job.resumedAt file t.offset } ∧
      (t.sender.job.resumedAt file t.offset).currentEntry = some t.senderEntry ∧ file.writable = t.senderLeftover ∧
      (t.senderLeftover = false → t.sender.disk.data file.inode = t.content) := by
  obtain ⟨file, hopened, hwritable, hdata⟩ := t.reopened_sender
  refine ⟨file, ?_, ?_, hwritable, hdata⟩
  · exact confirm_of_current t.sender_type t.sender_source t.sender_entry t.sender_name hopened t.sender_num t.offset_pos
      t.sender.job.id
  · change t.sender.job.files[asUsize t.sender.job.fileNum]? = some t.senderEntry
    rw [t.sender_num, asUsize_natCast]
    exact t.sender_entry

/-- What the sender sends once it has taken the offset. -/
theorem sent_of_confirmed (hcodec : ∀ bytes, codec.decompress (codec.compress bytes) = bytes) (t : Interrupted)
    (hrounds : ∀ reads ∈ rounds, ∀ r ∈ reads, ∃ n, r = .upTo n) (hlong : t.content.length < rounds.length)
    (hleft : t.senderLeftover = false) {sender : JobState} (hsender : t.sender.confirm {} t.request = some sender) :
    (sender.job.sendFile codec sender.disk rounds).flatMap (blockBytes codec) = t.content.drop t.offset ∧
      (sender.job.sendFile codec sender.disk rounds).getLast? = some t.lastBlock ∧
      ∀ b ∈ sender.job.sendFile codec sender.disk rounds, b.id = t.sender.job.id ∧ b.fileNum = t.fileNum := by
  obtain ⟨file, hconfirm, hcurrent, hwritable, hdata⟩ := t.confirm_sender
  obtain rfl := some.inj (hconfirm.symm.trans hsender)
  have hsource : (t.sender.job.resumedAt file t.offset).dataSource = .filePath t.senderBase := t.sender_source
  have hfits : (t.content.drop t.offset).length + 1 ≤ rounds.length := by
    have hpos := t.offset_pos
    have hle := t.offset_le
    rw [length_drop]
    omega
  have hsend := sendFile_of_reader codec t.sender.disk hsource hcurrent rfl rfl (hwritable.trans hleft) hrounds
  rw [hdata hleft, take_of_length_le (Nat.le_trans (length_entryBlocks_le _) hfits)] at hsend
  have hnum : (t.sender.job.resumedAt file t.offset).fileNum = t.fileNum := t.sender_num
  rw [hsend]
  refine ⟨entryBlocks_flatMap (blockBytes_pieceBlock hcodec _ _) rfl _, ?_, ?_⟩
  · rw [getLast?_entryBlocks, hnum]
    rfl
  · exact forall_mem_entryBlocks (P := fun b => b.id = t.sender.job.id ∧ b.fileNum = t.fileNum)
      (fun _ => ⟨rfl, t.sender_num⟩) ⟨rfl, t.sender_num⟩ _

/-- The receiver that is at the file goes on behind what it has. -/
theorem receiving_of_confirmed (t : Interrupted) (hnum : t.receiver.job.fileNum = t.fileNum) :
    ∃ receiver, t.receiver.confirm {} t.request = some receiver ∧
      Receiving t.receiverBase t.receiverEntry t.sender.job.id t.fileNum receiver (t.content.take t.offset) := by
  obtain ⟨inode, hinode, hdata⟩ := exists_names_of_contents t.received
  obtain ⟨other, hother, -⟩ := exists_names_of_contents t.digest
  have hopened : reopened t.receiver.disk t.receiverBase t.receiverEntry =
      some { path := downloadPath (joinPath t.receiverBase t.receiverEntry.name), inode } := by
    have hboth : t.receiver.disk.existsAt (downloadOf t.receiverBase t.receiverEntry) ∧
        t.receiver.disk.existsAt (digestOf t.receiverBase t.receiverEntry) :=
      ⟨isSome_iff_exists.mpr ⟨inode, hinode⟩, isSome_iff_exists.mpr ⟨other, hother⟩⟩
    unfold reopened
    rw [if_pos hboth, hinode]
    rfl
  have hconfirm := confirm_of_current t.receiver_type t.receiver_source t.receiver_entry t.receiver_name hopened hnum t.offset_pos
    t.sender.job.id
  refine ⟨_, hconfirm, t.receiver_id, t.receiver_type, t.receiver_source, t.receiver_entry, ?_, _, rfl, rfl, ?_, hinode, hdata⟩
  · change asUsize t.receiver.job.fileNum = t.fileNum
    rw [hnum, asUsize_natCast]
  · rw [length_take, Nat.min_eq_left t.offset_le]

/-- Numbers of the type `i32` are told apart as indices. -/
theorem asUsize_ne (t : Interrupted) (hother : t.receiver.job.fileNum ≠ t.fileNum) :
    asUsize t.receiver.job.fileNum ≠ t.fileNum := by
  have hlt := t.num_lt
  have hrange := t.receiver_num
  unfold asUsize
  split_ifs with hsign
  · omega
  · omega

/-- A sender with leftovers sends nothing of the file, not even its end. -/
theorem Resumes.senderLeftover (h : t.Resumes codec rounds) : t.senderLeftover = false := by
  obtain ⟨sender, receiver, hsender, -, hcompletes⟩ := h
  obtain ⟨file, hconfirm, hcurrent, hwritable, -⟩ := t.confirm_sender
  obtain rfl := some.inj (hconfirm.symm.trans hsender)
  have hsource : (t.sender.job.resumedAt file t.offset).dataSource = .filePath t.senderBase := t.sender_source
  by_contra hleft
  have hwriter : file.writable = true := hwritable.trans (eq_true_of_ne_false hleft)
  have hnothing := sendFile_of_writer codec t.sender.disk hsource hcurrent rfl hwriter rounds
  have hlast := hcompletes.last
  rw [hnothing] at hlast
  exact nomatch hlast

/-- A receiver that is at another file loses the bytes before the offset. -/
theorem Resumes.fileNum (hcodec : ∀ bytes, codec.decompress (codec.compress bytes) = bytes) (h : t.Resumes codec rounds)
    (hrounds : ∀ reads ∈ rounds, ∀ r ∈ reads, ∃ n, r = .upTo n) (hlong : t.content.length < rounds.length) :
    t.receiver.job.fileNum = t.fileNum := by
  by_contra hother
  have hleft := h.senderLeftover
  obtain ⟨sender, receiver, hsender, hreceiver, hcompletes⟩ := h
  obtain ⟨hbytes, hlast, hblocks⟩ := t.sent_of_confirmed hcodec hrounds hlong hleft hsender
  have hpassed : t.receiver.confirm {} t.request = some t.receiver := if_pos hother
  obtain rfl := some.inj (hpassed.symm.trans hreceiver)
  have hplaced := hcompletes.placed
  generalize sender.job.sendFile codec sender.disk rounds = blocks at hbytes hlast hblocks hplaced
  cases blocks with
  | nil => exact nomatch hlast
  | cons block blocks =>
    have hfirst := receiving_of_switch codec t.receiver_id t.receiver_type t.receiver_source t.receiver_entry
      t.receiver_name (t.asUsize_ne hother) (hblocks block mem_cons_self)
    obtain ⟨-, hreceiving⟩ := hfirst.deliver codec fun b hb => hblocks b (mem_cons_of_mem _ hb)
    have hcontent := hreceiving.modifyTime t.receiver_name
    rw [← flatMap_cons, hbytes] at hcontent
    have hshort := congrArg length (some.inj (hcontent.symm.trans hplaced))
    have hpos := t.offset_pos
    have hle := t.offset_le
    rw [length_drop] at hshort
    omega

/-- A file is resumed exactly when the sender has no leftovers beside it and the receiver is at it. -/
theorem resumes_iff (codec : Codec) (hcodec : ∀ bytes, codec.decompress (codec.compress bytes) = bytes) (t : Interrupted)
    (rounds : List (List ReadOutcome)) (hrounds : ∀ reads ∈ rounds, ∀ r ∈ reads, ∃ n, r = .upTo n)
    (hlong : t.content.length < rounds.length) :
    t.Resumes codec rounds ↔ t.senderLeftover = false ∧ t.receiver.job.fileNum = t.fileNum := by
  constructor
  · intro h
    exact ⟨h.senderLeftover, h.fileNum hcodec hrounds hlong⟩
  · rintro ⟨hleft, hnum⟩
    obtain ⟨file, hsender, -⟩ := t.confirm_sender
    obtain ⟨hbytes, hlast, hblocks⟩ := t.sent_of_confirmed hcodec hrounds hlong hleft hsender
    obtain ⟨receiver, hreceiver, hreceiving⟩ := t.receiving_of_confirmed hnum
    obtain ⟨haccepts, hdelivered⟩ := hreceiving.deliver codec hblocks
    refine ⟨_, receiver, hsender, hreceiver, hbytes, hlast, rfl, haccepts, ?_⟩
    rw [hdelivered.modifyTime t.receiver_name, hbytes, List.take_append_drop]

/-- Three bytes, of which the receiver has the first one. -/
def sample : Interrupted where
  sender :=
    { job := { id := 1, dataSource := .filePath "/src", files := [{ name := "a", size := 3 }], enableOverwriteDetection := true }
      disk := FileSystem.empty.put (locate "/src/a") [1, 2, 3] }
  senderBase := "/src"
  senderEntry := { name := "a", size := 3 }
  receiver :=
    { job := { id := 1, dataSource := .filePath "/dst", files := [{ name := "a", size := 3 }], isResume := true }
      disk :=
        (((FileSystem.empty.put (locate "/dst/a") [7]).put (locate "/dst/a.download") [1]).put (locate "/dst/a.digest")
          ({ size := 3, modified := 5 : FileDigest }).text) }
  receiverBase := "/dst"
  receiverEntry := { name := "a", size := 3 }
  fileNum := 0
  content := [1, 2, 3]
  modified := 5
  offset := 1
  sender_type := rfl
  sender_source := rfl
  sender_entry := rfl
  sender_name := by decide
  sender_num := rfl
  source := by decide
  receiver_id := rfl
  receiver_type := rfl
  receiver_source := rfl
  receiver_entry := rfl
  receiver_name := by decide
  received := by decide
  digest := by decide
  offset_pos := by decide
  offset_le := by decide
  num_lt := by decide
  receiver_num := by decide

theorem sample_resumes : sample.Resumes ⟨id, id⟩ (List.replicate 4 [.upTo 0]) := by
  have hreads : ∀ reads ∈ List.replicate 4 [ReadOutcome.upTo 0], ∀ r ∈ reads, ∃ n, r = .upTo n := by
    intro reads hmem r hr
    rw [List.eq_of_mem_replicate hmem, List.mem_singleton] at hr
    exact ⟨0, hr⟩
  exact (resumes_iff ⟨id, id⟩ (fun _ => rfl) sample (List.replicate 4 [.upTo 0]) hreads (by decide)).mpr
    ⟨by decide, rfl⟩

/-- The sender has received a file of the name itself, up to its second byte. -/
def leftoverSample : Interrupted :=
  { sample with
    sender :=
      { sample.sender with
        disk := (sample.sender.disk.put (locate "/src/a.download") [4, 5]).put (locate "/src/a.digest") [] }
    source := by decide }

theorem leftover_not_resumed : ¬ leftoverSample.Resumes ⟨id, id⟩ (List.replicate 4 [.upTo 0]) := by
  intro h
  have hleft : leftoverSample.senderLeftover = true := by decide
  exact Bool.false_ne_true (h.senderLeftover.symm.trans hleft)

end Interrupted

end UnyDesk
