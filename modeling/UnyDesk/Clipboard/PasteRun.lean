import UnyDesk.Clipboard.PasteSteps
import UnyDesk.Clipboard.Positions

/-!
# Runs of a paste task

While the peer answers the requests and no local operation fails, a task holds the bytes that it has received
of one file, and the files before that one are at their destinations. The run ends at the end of the list. The
task then compares what it has received with the sizes of all entries, also those that have no contents.
-/

namespace UnyDesk

open Lib PasteTaskHandle Function PasteTask FileSystem Option

variable {files : List FileDescription} {file : FileDescription} {i n : ℕ}

section Sizes

section

variable (files : List FileDescription)

/-- The bytes of the files of a list. -/
def contentSize : ℕ :=
  (files.map fun desc => if desc.kind = .file then desc.size else 0).sum

/-- The sizes that are declared for the entries that are no files. -/
def otherSize : ℕ :=
  (files.map fun desc => if desc.kind = .file then 0 else desc.size).sum

theorem sum_size : (files.map (·.size)).sum = contentSize files + otherSize files := by
  induction files with
  | nil => rfl
  | cons desc files ih =>
    simp only [contentSize, otherSize, List.map_cons, List.sum_cons] at ih ⊢
    rw [ih]
    split <;> omega

end

theorem contentSize_take_succ {desc : FileDescription} (h : files[i]? = some desc) :
    contentSize (files.take (i + 1)) = contentSize (files.take i) + if desc.kind = .file then desc.size else 0 := by
  rw [List.take_add_one, h, contentSize, List.map_append, List.sum_append]
  simp [contentSize]

theorem contentSize_take_le (files : List FileDescription) (i : ℕ) : contentSize (files.take i) ≤ contentSize files := by
  induction files generalizing i with
  | nil => simp
  | cons desc files ih =>
    cases i with
    | zero => exact Nat.zero_le _
    | succ i =>
      have hrest := ih i
      simp only [contentSize, List.take_succ_cons, List.map_cons, List.sum_cons] at hrest ⊢
      omega

/-- Entries without contents do not count. -/
theorem contentSize_skip {first last : ℕ} (hle : first ≤ last) (hlast : last ≤ files.length)
    (h : ∀ j, first ≤ j → j < last → ¬ HasContents files j) :
    contentSize (files.take last) = contentSize (files.take first) := by
  induction last with
  | zero =>
    obtain rfl := Nat.le_zero.mp hle
    rfl
  | succ last ih =>
    rcases Nat.eq_or_lt_of_le hle with rfl | hlt
    · rfl
    · have hdesc : files[last]? = some files[last] := List.getElem?_eq_getElem hlast
      have hnone := h last (by omega) (by omega)
      have hzero : (if files[last].kind = .file then files[last].size else 0) = 0 := by
        split
        next hkind =>
          by_contra hsize
          exact hnone ⟨files[last], hdesc, hkind, Nat.pos_of_ne_zero hsize⟩
        next => rfl
      rw [contentSize_take_succ hdesc, hzero, Nat.add_zero]
      exact ih (by omega) (by omega) fun j hj hj' => h j hj (by omega)

end Sizes

/-- The entries that a task goes through. -/
def listedCount (files : List FileDescription) : ℕ := (usizeToI32 files.length).toNat

theorem usizeToI32_le (n : ℕ) : usizeToI32 n ≤ n ∧ usizeToI32 n < 2 ^ 31 := by
  unfold usizeToI32
  split <;> omega

theorem usizeToI32_eq_iff (n : ℕ) : usizeToI32 n = n ↔ n < 2 ^ 31 := by
  unfold usizeToI32
  split <;> omega

theorem listedCount_le (files : List FileDescription) : listedCount files ≤ files.length := by
  have hle := usizeToI32_le files.length
  unfold listedCount
  omega

/-- The files among the first entries are at destinations of their own. -/
structure Delivered {K : Type*} (key : String → K) (content : ℕ → Bytes) (targetDir : String)
    (files : List FileDescription) (disk : PasteDisk K) (n : ℕ) (dest : ℕ → String) : Prop where
  placed : ∀ j desc, j < n → files[j]? = some desc → desc.kind = .file → 0 < desc.size →
    PasteDisk.IsDestination targetDir desc (dest j) ∧ disk.files.contents (key (dest j)) = some (content j)
  apart : ∀ j j', j < n → j' < n → HasContents files j → HasContents files j' → key (dest j) = key (dest j') → j = j'

section Delivered

variable {K : Type*} {key : String → K} {content : ℕ → Bytes} {targetDir : String}
  {disk disk' : PasteDisk K} {dest : ℕ → String}
variable (h : Delivered key content targetDir files disk n dest)
include h

theorem Delivered.keeps (hkeeps : disk.Keeps disk') : Delivered key content targetDir files disk' n dest :=
  ⟨fun j desc hj hdesc hkind hsize =>
    ⟨(h.placed j desc hj hdesc hkind hsize).1, hkeeps _ _ (h.placed j desc hj hdesc hkind hsize).2⟩, h.apart⟩

/-- Entries without contents have no destination. -/
theorem Delivered.skip {m : ℕ}
    (hnone : ∀ j, n ≤ j → j < m → ¬ HasContents files j) : Delivered key content targetDir files disk m dest := by
  have hbefore : ∀ j, j < m → HasContents files j → j < n := by
    intro j hj hcontents
    by_contra hle
    exact hnone j (Nat.not_lt.mp hle) hj hcontents
  exact ⟨fun j desc hj hdesc hkind hsize =>
      h.placed j desc (hbefore j hj ⟨desc, hdesc, hkind, hsize⟩) hdesc hkind hsize,
    fun j j' hj hj' hc hc' => h.apart j j' (hbefore j hj hc) (hbefore j' hj' hc') hc hc'⟩

/-- The next file gets a destination of its own. -/
theorem Delivered.extend {path : String}
    (hothers : ∀ j, j < n → HasContents files j → disk'.files.contents (key (dest j)) = some (content j))
    (hfile : files[n]? = some file) (hdestination : PasteDisk.IsDestination targetDir file path)
    (hcontents : disk'.files.contents (key path) = some (content n))
    (hnew : ∀ j, j < n → HasContents files j → key (dest j) ≠ key path) :
    Delivered key content targetDir files disk' (n + 1) (update dest n path) := by
  refine ⟨fun j desc hj hdesc hkind hsize => ?_, fun j j' hj hj' hc hc' heq => ?_⟩
  · rcases Nat.lt_succ_iff_lt_or_eq.mp hj with hlt | rfl
    · rw [update_of_ne (Nat.ne_of_lt hlt)]
      exact ⟨(h.placed j desc hlt hdesc hkind hsize).1, hothers j hlt ⟨desc, hdesc, hkind, hsize⟩⟩
    · obtain rfl := some.inj (hfile.symm.trans hdesc)
      rw [update_self]
      exact ⟨hdestination, hcontents⟩
  · rcases Nat.lt_succ_iff_lt_or_eq.mp hj with hlt | rfl <;> rcases Nat.lt_succ_iff_lt_or_eq.mp hj' with hlt' | rfl
    · rw [update_of_ne (Nat.ne_of_lt hlt), update_of_ne (Nat.ne_of_lt hlt')] at heq
      exact h.apart j j' hlt hlt' hc hc' heq
    · rw [update_of_ne (Nat.ne_of_lt hlt), update_self] at heq
      exact absurd heq (hnew j hlt hc)
    · rw [update_self, update_of_ne (Nat.ne_of_lt hlt')] at heq
      exact absurd heq.symm (hnew j' hlt' hc')
    · rfl

end Delivered

/-- The list and the counters of a task that has received so many bytes. -/
structure Tally (targetDir : String) (files : List FileDescription) (h : PasteTaskHandle) (received : ℕ) : Prop where
  target : h.targetDir = targetDir
  entries : h.files = files
  going : h.progress.isCanceled = false
  total : h.progress.totalSize = (files.map (·.size)).sum % 2 ^ 64
  current : h.progress.currentSize = received % 2 ^ 64

/-- The files before an entry are at their destinations, and no file is open. -/
structure Between {K : Type*} (key : String → K) (content : ℕ → Bytes) (targetDir : String) (files : List FileDescription)
    (disk : PasteDisk K) (h : PasteTaskHandle) (first : ℕ) : Prop where
  tally : Tally targetDir files h (contentSize (files.take first))
  noError : h.progress.error = none
  noHandle : h.progress.fileHandle = none
  index : h.progress.listIndex + 1 = first
  listed : (first : Int) ≤ usizeToI32 files.length
  delivered : ∃ dest, Delivered key content targetDir files disk first dest

/-- A file is open and holds the first `n` bytes of its contents. -/
structure InFile {K : Type*} (key : String → K) (content : ℕ → Bytes) (targetDir : String) (files : List FileDescription)
    (disk : PasteDisk K) (h : PasteTaskHandle) (i : ℕ) (file : FileDescription) (n : ℕ) : Prop where
  tally : Tally targetDir files h (contentSize (files.take i) + n)
  noError : h.progress.error = none
  listed : (i : Int) < usizeToI32 files.length
  entry : files[i]? = some file
  kind : file.kind = .file
  index : h.progress.listIndex = i
  downloadIndex : h.progress.downloadFileIndex = i
  downloadSize : h.progress.downloadFileSize = file.size
  opened : ∃ inode, h.progress.fileHandle = some inode ∧
    disk.files.names (key h.progress.downloadFilePath) = some inode ∧ disk.files.data inode = (content i).take n
  delivered : ∃ dest, Delivered key content targetDir files disk i dest ∧
    ∀ j, j < i → HasContents files j → key (dest j) ≠ key h.progress.downloadFilePath

/-- All files are at their destinations. -/
structure Ended {K : Type*} (key : String → K) (content : ℕ → Bytes) (targetDir : String) (files : List FileDescription)
    (disk : PasteDisk K) (h : PasteTaskHandle) : Prop where
  tally : Tally targetDir files h (contentSize (files.take (listedCount files)))
  noHandle : h.progress.fileHandle = none
  index : h.progress.listIndex = max (-1) (usizeToI32 files.length)
  delivered : ∃ dest, Delivered key content targetDir files disk (listedCount files) dest

/-- A task that has received so many bytes of the list waits for more, or it has them all. -/
def Settled {K : Type*} (key : String → K) (content : ℕ → Bytes) (targetDir : String) (files : List FileDescription)
    (disk : PasteDisk K) (h : PasteTaskHandle) (received : ℕ) : Prop :=
  (∃ i file, InFile key content targetDir files disk h i file h.progress.offset ∧ h.progress.offset < file.size ∧
      received = contentSize (files.take i) + h.progress.offset) ∨
    Ended key content targetDir files disk h ∧ h.progress.error = none

section Steps

variable {K : Type*} [DecidableEq K] {key : String → K} {content : ℕ → Bytes} {targetDir : String}
  {disk : PasteDisk K} {h : PasteTaskHandle} {env : PasteEnv}

/-- From between two files, the loop opens the next file or ends the list. -/
theorem Between.advance {first : ℕ} (hbetween : Between key content targetDir files disk h first) :
    let result := PasteTaskHandle.advance key env h.laterIndices disk h
    result.2.1.failed = true ∨ result.1 = .ok () ∧
      Settled key content targetDir files result.2.1 result.2.2.closeList (contentSize (files.take first)) := by
  intro result
  obtain ⟨dest, hdelivered⟩ := hbetween.delivered
  have hentries := hbetween.tally.entries
  have hlistedCount : listedCount files = (usizeToI32 files.length).toNat := rfl
  have hlisted := hbetween.listed
  have hlength := listedCount_le files
  have hindices : h.laterIndices = List.range' first (listedCount files - first) := by
    simp only [laterIndices, hbetween.index, hentries, Int.toNat_natCast]
    congr 1
    omega
  have hcount : first + (listedCount files - first) = listedCount files := by omega
  have hspec := @advance_spec K key _ env disk h first (listedCount files - first) (by rw [hentries]; omega)
  rw [← hindices, hcount] at hspec
  rcases hspec with hfailed | ⟨hok, hkeeps, ⟨hsame, hnone⟩ | ⟨i, file, path, inode, hle, hlt, hfile, hkind, hsize, hbefore,
      hfresh, hnames, hdata, hopened⟩⟩
  · exact .inl hfailed
  · refine .inr ⟨hok, .inr ?_⟩
    rw [hentries] at hnone
    have hclosed : result.2.2.closeList = h.closeList := congrArg closeList hsame
    have hsizes := contentSize_skip (show first ≤ listedCount files by omega) hlength hnone
    rw [hclosed, closeList, if_pos hbetween.noHandle]
    refine ⟨⟨⟨hbetween.tally.target, hentries, hbetween.tally.going, hbetween.tally.total, ?_⟩, hbetween.noHandle, ?_,
      dest, (hdelivered.keeps hkeeps).skip hnone⟩, hbetween.noError⟩
    · rw [hsizes]
      exact hbetween.tally.current
    · rw [hentries]
      show usizeToI32 files.length = max (-1) (usizeToI32 files.length)
      omega
  · refine .inr ⟨hok, .inl ⟨i, file, ?_⟩⟩
    rw [hentries] at hfile hbefore
    have hclosed : result.2.2.closeList = h.opening i file path inode := by
      have hopen : result.2.2 = h.opening i file path inode := hopened
      rw [hopen, closeList, if_neg (by simp [opening])]
    have hsizes := contentSize_skip hle (show i ≤ files.length by omega) hbefore
    rw [hclosed]
    have hdelivered' := (hdelivered.skip hbefore).keeps hkeeps
    refine ⟨⟨⟨hbetween.tally.target, hentries, hbetween.tally.going, hbetween.tally.total, ?_⟩, hbetween.noError, by omega,
      hfile, hkind, rfl, rfl, rfl, ⟨inode, rfl, hnames, hdata⟩, dest, hdelivered', fun j hj hcontents => ?_⟩, hsize, ?_⟩
    · exact hsizes ▸ hbetween.tally.current
    · obtain ⟨desc, hdesc, hdescKind, hdescSize⟩ := hcontents
      exact hfresh _ _ ((hdelivered.skip hbefore).placed j desc hj hdesc hdescKind hdescSize).2
    · exact hsizes.symm

omit [DecidableEq K] in
theorem InFile.isFinished
    (hr : InFile key content targetDir files disk h i file n) : h.isFinished = false := by
  have hlisted := hr.listed
  simp [PasteTaskHandle.isFinished, hr.tally.going, hr.noError, hr.tally.entries, hr.index, hlisted]

omit [DecidableEq K] in
theorem InFile.currentFile
    (hr : InFile key content targetDir files disk h i file n) : h.currentFile = some file := by
  rw [PasteTaskHandle.currentFile, hr.index, asUsize_natCast, hr.tally.entries, hr.entry]

/-- A complete file moves to its destination. -/
theorem InFile.done
    (hr : InFile key content targetDir files disk h i file file.size) (hlength : (content i).length = file.size) :
    let result := h.onDone key env disk
    result.1.failed = true ∨ Between key content targetDir files result.1 result.2 (i + 1) := by
  intro result
  obtain ⟨inode, hhandle, hnames, hdata⟩ := hr.opened
  obtain ⟨dest, hdelivered, hapart⟩ := hr.delivered
  have hentry : h.files[i]? = some file := by rw [hr.tally.entries, hr.entry]
  rcases @onDone_spec K key _ env disk h i inode file hhandle hr.downloadIndex hentry with
    hfailed | ⟨path, hdestination, hfree, hfiles, hhandle'⟩
  · exact .inl hfailed
  · refine .inr ?_
    have hne : key h.progress.downloadFilePath ≠ key path := fun heq => by simp [heq, hfree] at hnames
    have hfresh : ∀ j, j < i → HasContents files j → key (dest j) ≠ key path := by
      rintro j hj ⟨desc, hdesc, hkind, hsize⟩
      exact PasteDisk.ne_of_free hfree (hdelivered.placed j desc hj hdesc hkind hsize).2
    have hall : (content i).take file.size = content i := List.take_of_length_le (Nat.le_of_eq hlength)
    have hcontents : result.1.files.contents (key path) = some (content i) := by
      rw [hfiles, contents_rename_target hne hnames, hdata, hall]
    have hothers : ∀ j, j < i → HasContents files j → result.1.files.contents (key (dest j)) = some (content j) := by
      intro j hj hc
      obtain ⟨desc, hdesc, hkind, hsize⟩ := id hc
      rw [hfiles, contents_rename_of_ne (hapart j hj hc) (hfresh j hj hc)]
      exact (hdelivered.placed j desc hj hdesc hkind hsize).2
    rw [hr.tally.target] at hdestination
    have hsizes := contentSize_take_succ hr.entry
    rw [if_pos hr.kind] at hsizes
    have hresult : result.2 = _ := hhandle'
    rw [hresult]
    refine ⟨⟨hr.tally.target, hr.tally.entries, hr.tally.going, hr.tally.total, ?_⟩, hr.noError, rfl, ?_, ?_,
      _, hdelivered.extend hothers hr.entry hdestination hcontents hfresh⟩
    · rw [hsizes]
      exact hr.tally.current
    · show h.progress.listIndex + 1 = (i + 1 : ℕ)
      rw [hr.index]
      rfl
    · have hlisted := hr.listed
      omega

/-- The task goes on with the next file, or it ends. -/
theorem settled_nextFile {opened : PasteDisk K × PasteTaskHandle} {first : ℕ}
    (hopened : (if h.progress.listIndex = -1 then (disk, h) else onDone key env disk h) = opened)
    (hbetween : opened.1.failed = true ∨ Between key content targetDir files opened.1 opened.2 first) :
    let result := h.nextFile key env disk
    result.2.1.failed = true ∨ result.1 = .ok () ∧
      Settled key content targetDir files result.2.1 result.2.2 (contentSize (files.take first)) := by
  intro result
  have hadvanced : let advanced := PasteTaskHandle.advance key env opened.2.laterIndices opened.1 opened.2
      advanced.2.1.failed = true ∨ advanced.1 = .ok () ∧
        Settled key content targetDir files advanced.2.1 advanced.2.2.closeList (contentSize (files.take first)) := by
    rcases hbetween with hfailed | hbetween
    · exact .inl (failed_advance hfailed _)
    · exact hbetween.advance
  simp only [result, nextFile, hopened]
  rcases hresult : PasteTaskHandle.advance key env opened.2.laterIndices opened.1 opened.2 with ⟨e | ⟨⟩, disk', h'⟩
  · rw [hresult] at hadvanced
    rcases hadvanced with hfailed | ⟨hok, -⟩
    · exact .inl hfailed
    · cases hok
  · rw [hresult] at hadvanced
    rcases hadvanced with hfailed | ⟨-, hsettled⟩
    · exact .inl hfailed
    · exact .inr ⟨rfl, hsettled⟩

omit [DecidableEq K] in
/-- A block is written behind what the file holds. -/
theorem InFile.write {inode : ℕ} {data : Bytes}
    (hr : InFile key content targetDir files disk h i file n) (hhandle : h.progress.fileHandle = some inode)
    (hdata : data <+: (content i).drop n) :
    InFile key content targetDir files
      { disk with files := disk.files.write inode (disk.files.data inode).length data } (h.count data.length) i file
      (n + data.length) := by
  obtain ⟨inode', hhandle', hnames, hheld⟩ := hr.opened
  obtain rfl := some.inj (hhandle.symm.trans hhandle')
  obtain ⟨dest, hdelivered, hapart⟩ := hr.delivered
  have hothers : ∀ j, j < i → HasContents files j → disk.files.names (key (dest j)) ≠ some inode :=
    fun j hj hc heq => hapart j hj hc (disk.files.names_inj _ _ inode heq hnames)
  have hcurrent : (h.progress.currentSize + data.length) % 2 ^ 64 =
      (contentSize (files.take i) + (n + data.length)) % 2 ^ 64 := by
    rw [hr.tally.current, Nat.mod_add_mod, Nat.add_assoc]
  refine ⟨⟨hr.tally.target, hr.tally.entries, hr.tally.going, hr.tally.total, hcurrent⟩, hr.noError, hr.listed, hr.entry,
    hr.kind, hr.index, hr.downloadIndex, hr.downloadSize, ⟨inode, hhandle, hnames, ?_⟩, dest, ⟨?_, hdelivered.apart⟩,
    hapart⟩
  · have hblock : data = ((content i).drop n).take data.length := List.prefix_iff_eq_take.mp hdata
    rw [write_data, overwrite_length, hheld, List.take_add, ← hblock]
  · intro j desc hj hdesc hkind hsize
    obtain ⟨hdestination, hcontents⟩ := hdelivered.placed j desc hj hdesc hkind hsize
    exact ⟨hdestination, (contents_write_of_ne (hothers j hj ⟨desc, hdesc, hkind, hsize⟩) _ data).trans hcontents⟩

/-- What is received of a file is written, and the task stays inside the file or goes on. -/
theorem InFile.handle {r : FileContentsResponse}
    (hr : InFile key content targetDir files disk h i file h.progress.offset) (hsize : file.size < 2 ^ 64)
    (hoffset : h.progress.offset < file.size) (hlength : (content i).length = file.size)
    (hdata : r.requestedData <+: (content i).drop h.progress.offset) :
    let result := h.handleFileContentsResponse key env disk r
    result.2.1.failed = true ∨ result.1 = .ok () ∧ Settled key content targetDir files result.2.1 result.2.2
      (contentSize (files.take i) + h.progress.offset + r.requestedData.length) := by
  intro result
  obtain ⟨inode, hhandle, -⟩ := hr.opened
  have hwritten := hr.write hhandle hdata
  have hinside : h.progress.offset + r.requestedData.length ≤ file.size := by
    have hle := hdata.length_le
    rw [List.length_drop] at hle
    omega
  have hsmall : (h.progress.offset + r.requestedData.length) % 2 ^ 64 = h.progress.offset + r.requestedData.length :=
    Nat.mod_eq_of_lt (by omega)
  have hstarted : h.progress.listIndex ≠ -1 := by
    rw [hr.index]
    omega
  have hresult : result = h.handleFileContentsResponse key env disk r := rfl
  simp only [handleFileContentsResponse, hhandle] at hresult
  split at hresult
  next => exact .inl (by rw [hresult]; rfl)
  next =>
    rw [updateNext, if_neg (by simp [hr.isFinished])] at hresult
    rw [hresult, hsmall, hr.downloadSize]
    by_cases hend : file.size ≤ h.progress.offset + r.requestedData.length
    · rw [if_pos (.inr hend)]
      have hfull : h.progress.offset + r.requestedData.length = file.size := Nat.le_antisymm hinside hend
      rw [hfull] at hwritten
      have hsizes := contentSize_take_succ hr.entry
      rw [if_pos hr.kind, ← hfull, ← Nat.add_assoc] at hsizes
      rw [← hsizes]
      exact settled_nextFile (if_neg hstarted) (hwritten.done hlength)
    · rw [if_neg (not_or.mpr ⟨hstarted, hend⟩)]
      have hopen : ((h.count r.requestedData.length).moveOn r.requestedData.length).progress.fileHandle = some inode :=
        hhandle
      rw [closeList, if_neg (by simp [hopen])]
      have hmoved : ((h.count r.requestedData.length).moveOn r.requestedData.length).progress.offset =
          h.progress.offset + r.requestedData.length := hsmall
      refine .inr ⟨rfl, .inl ⟨i, file, ?_, by rw [hmoved]; omega, by rw [hmoved, Nat.add_assoc]⟩⟩
      rw [hmoved]
      exact ⟨⟨hr.tally.target, hr.tally.entries, hr.tally.going, hr.tally.total, hwritten.tally.current⟩, hr.noError,
        hr.listed, hr.entry, hr.kind, hr.index, hr.downloadIndex, hr.downloadSize, hwritten.opened, hwritten.delivered⟩

omit [DecidableEq K] in
theorem Ended.isFinished (he : Ended key content targetDir files disk h) : h.isFinished = true := by
  have hindex := he.index
  have hle : usizeToI32 files.length ≤ h.progress.listIndex := by omega
  simp [PasteTaskHandle.isFinished, he.tally.entries, hle]

/-- What is received is compared with the sizes of all entries. -/
theorem Ended.onFinished (he : Ended key content targetDir files disk h) (herror : h.progress.error = none) :
    let result := h.onFinished key env disk
    Ended key content targetDir files result.1 result.2 ∧
      (result.2.progress.error = none ↔ result.2.progress.currentSize = result.2.progress.totalSize) := by
  have hdone : h.onDone key env disk = (disk, h) := by rw [onDone, he.noHandle]
  intro result
  have hresult : result = h.onFinished key env disk := rfl
  simp only [PasteTaskHandle.onFinished, herror, isSome_none, Bool.false_eq_true, if_false, hdone] at hresult
  split at hresult
  next hne =>
    rw [hresult]
    exact ⟨⟨⟨he.tally.target, he.tally.entries, he.tally.going, he.tally.total, he.tally.current⟩, he.noHandle, he.index,
      he.delivered⟩, iff_of_false (by simp) hne⟩
  next heq =>
    rw [hresult]
    exact ⟨he, iff_of_true herror (not_not.mp heq)⟩

end Steps

/-- A task has received so many bytes and waits for the answer to its last request, or it has ended. -/
def Pasting {K : Type*} (key : String → K) (content : ℕ → Bytes) (targetDir : String) (files : List FileDescription)
    (s : PasteTask K) (received : ℕ) : Prop :=
  ∃ h, s.handle = some h ∧ ((∃ i file message, InFile key content targetDir files s.disk h i file h.progress.offset ∧
        h.progress.offset < file.size ∧ received = contentSize (files.take i) + h.progress.offset ∧
        h.sendFileContentsRequest = .ok (some message) ∧ s.sent.getLast? = some message) ∨
      Ended key content targetDir files s.disk h ∧
        (h.progress.error = none ↔ h.progress.currentSize = h.progress.totalSize))

/-- An answer to a request: at least one byte and no more than requested, from the requested position on. -/
def Answers (content : ℕ → Bytes) (connId : Int) (r : FileContentsResponse) : ClipboardFile → Prop
  | .fileContentsRequest streamId listIndex _ nPositionLow nPositionHigh cbRequested _ _ =>
    r.connId = connId ∧ r.msgFlags = 1 ∧ r.streamId = streamId.toInt ∧
      r.requestedData <+: (content (i32ToU64 listIndex)).drop (nPositionHigh.toNat * 2 ^ 32 + nPositionLow.toNat) ∧
      0 < r.requestedData.length ∧ r.requestedData.length ≤ cbRequested.toNat
  | _ => False

/-- The peer answers the last request in time. The user does not cancel, and may try to start another task. -/
def AnswersRequest {K : Type*} (content : ℕ → Bytes) (s : PasteTask K) (e : PasteEnv × PasteEvent) : Prop :=
  match e.2 with
  | .start _ _ => s.handle.any fun h => !h.isFinished
  | .response r => ∃ connId message, s.sent.getLast? = some (connId, message) ∧ Answers content connId r message
  | .timeout expired => expired = false
  | .cancel => False

/-- The step of a task, with what the system does. -/
def PasteTask.stepIn {K : Type*} [DecidableEq K] (key : String → K) (s : PasteTask K) (e : PasteEnv × PasteEvent) :
    PasteTask K := s.step key e.1 e.2

def PasteEvent.isResponse : PasteEvent → Bool
  | .response _ => true
  | _ => false

section Task

variable {K : Type*} [DecidableEq K] {key : String → K} {content : ℕ → Bytes} {targetDir : String}
  {s : PasteTask K} {h : PasteTaskHandle} {env : PasteEnv} {r : FileContentsResponse} {message : ClipboardFile}

theorem InFile.request
    (hr : InFile key content targetDir files s.disk h i file h.progress.offset) (hsize : file.size < 2 ^ 64)
    (hoffset : h.progress.offset < file.size) :
    Pasting key content targetDir files (s.request key h) (contentSize (files.take i) + h.progress.offset) := by
  obtain ⟨message, hsend⟩ : ∃ message, h.sendFileContentsRequest = .ok (some message) :=
    ⟨_, sendFileContentsRequest_eq hr.isFinished hr.currentFile hsize hoffset⟩
  have hrequest : s.request key h = { s with handle := some h, sent := s.sent ++ [message] } := by
    rw [PasteTask.request, hsend]
  rw [hrequest]
  exact ⟨h, rfl, .inl ⟨i, file, message, hr, hoffset, rfl, hsend, List.getLast?_concat⟩⟩

omit [DecidableEq K] in
/-- What an answer is, for the block that the task has asked for. -/
theorem InFile.answered {connId : Int}
    (hr : InFile key content targetDir files s.disk h i file h.progress.offset)
    (hsize : file.size < 2 ^ 64) (hoffset : h.progress.offset < file.size)
    (hsend : h.sendFileContentsRequest = .ok (some (connId, message))) (hanswers : Answers content connId r message) :
    r.connId = file.connId ∧ r.msgFlags = 1 ∧ r.streamId = i ∧
      r.requestedData <+: (content i).drop h.progress.offset ∧ 0 < r.requestedData.length := by
  rw [sendFileContentsRequest_eq hr.isFinished hr.currentFile hsize hoffset, hr.index] at hsend
  obtain ⟨rfl, rfl⟩ := Prod.mk.inj (some.inj (Except.ok.inj hsend))
  obtain ⟨hconn, hflags, hstream, hdata, hpos, -⟩ := hanswers
  have hi : i < 2 ^ 31 := by
    have hlisted := hr.listed
    have hbound := (usizeToI32_le files.length).2
    omega
  have hword : (BitVec.ofInt 32 (i : ℕ)).toNat = i := by
    rw [BitVec.ofInt_natCast, BitVec.toNat_ofNat]
    omega
  have hindex : i32ToU64 (BitVec.ofInt 32 (i : ℕ)) = i := by
    rw [i32ToU64_eq, hword, if_pos hi]
  have hint : (BitVec.ofInt 32 (i : ℕ)).toInt = i := by
    rw [BitVec.toInt_eq_toNat_of_lt (by rw [hword]; omega), hword]
  have htoNat : (BitVec.ofNat 64 h.progress.offset).toNat = h.progress.offset := by
    rw [BitVec.toNat_ofNat]
    exact Nat.mod_eq_of_lt (Nat.lt_trans hoffset hsize)
  rw [hindex, Words.toNat_high rfl, Words.toNat_low, htoNat, Nat.div_add_mod'] at hdata
  exact ⟨hconn, hflags, hstream.trans hint, hdata, hpos⟩

theorem pasting_start (hsizes : ∀ desc ∈ files, desc.size < 2 ^ 64)
    (hidle : (s.handle.any fun h => !h.isFinished) = false) :
    (s.start key env targetDir files).disk.failed = true ∨
      Pasting key content targetDir files (s.start key env targetDir files) 0 := by
  unfold start
  rw [if_neg (by simp [hidle])]
  dsimp only
  generalize hstarted : mk _ targetDir files = started
  have hentries : started.files = files := by rw [← hstarted]
  have hindex : started.progress.listIndex = -1 := by rw [← hstarted]
  have herror : started.progress.error = none := by rw [← hstarted]
  have hhandle : started.progress.fileHandle = none := by rw [← hstarted]
  have htally : Tally targetDir files started 0 := by
    rw [← hstarted]
    exact ⟨rfl, rfl, rfl, rfl, rfl⟩
  have hdelivered : Delivered key content targetDir files s.disk 0 fun _ => "" :=
    ⟨fun j _ hj => absurd hj (Nat.not_lt_zero j), fun j _ hj => absurd hj (Nat.not_lt_zero j)⟩
  -- With a negative number of entries, the task ends before it begins.
  have hupdated : let updated := started.updateNext key env s.disk 0
      updated.2.1.failed = true ∨ Settled key content targetDir files updated.2.1 updated.2.2 0 := by
    by_cases hnone : usizeToI32 files.length ≤ -1
    · have hfinished : started.isFinished = true := by
        simp [isFinished, hentries, hindex, hnone]
      have hcount : listedCount files = 0 := by
        unfold listedCount
        omega
      rw [updateNext, if_pos hfinished]
      refine .inr (.inr ⟨⟨?_, hhandle, hindex.trans (by omega), _, hcount ▸ hdelivered⟩, herror⟩)
      rw [hcount]
      exact htally
    · have hgoing : started.isFinished = false := by
        simp [isFinished, hentries, hindex, herror, htally.going]
        omega
      have hbetween : Between key content targetDir files s.disk (started.count 0) 0 :=
        ⟨⟨htally.target, htally.entries, htally.going, htally.total, by simp [count, htally.current, contentSize]⟩,
          herror, hhandle, by simp [count, hindex], by omega, _, hdelivered⟩
      rw [updateNext, if_neg (by simp [hgoing]), if_pos (.inl hindex)]
      have hopened : (if (started.count 0).progress.listIndex = -1 then (s.disk, started.count 0)
          else onDone key env s.disk (started.count 0)) = (s.disk, started.count 0) := if_pos hindex
      rcases settled_nextFile hopened (.inr hbetween) with hfailed | ⟨-, hsettled⟩
      · exact .inl hfailed
      · exact .inr hsettled
  rcases hresult : started.updateNext key env s.disk 0 with ⟨result, disk, h⟩
  rw [hresult] at hupdated
  rcases hupdated with hfailed | ⟨i, file, hr, hoffset, hreceived⟩ | ⟨he, herror⟩
  · refine .inl ?_
    split
    next => exact failed_onFinished hfailed
    next =>
      have hfailed' : ({ s with disk } : PasteTask K).disk.failed = true := hfailed
      exact failed_request hfailed' h
  · refine .inr ?_
    rw [if_neg (by simp [hr.isFinished]), hreceived]
    have hr' : InFile key content targetDir files ({ s with disk } : PasteTask K).disk h i file h.progress.offset := hr
    exact hr'.request (hsizes file (List.mem_of_getElem? hr.entry)) hoffset
  · refine .inr ?_
    rw [if_pos he.isFinished]
    have hended := @Ended.onFinished files K _ key content targetDir disk h env he herror
    exact ⟨_, rfl, .inr hended⟩

theorem pasting_goOn (hsizes : ∀ desc ∈ files, desc.size < 2 ^ 64) {disk : PasteDisk K} {received : ℕ}
    (hsettled : Settled key content targetDir files disk h received) :
    Pasting key content targetDir files (s.goOn key env disk h) received := by
  unfold goOn
  rcases hsettled with ⟨i, file, hr, hoffset, hreceived⟩ | ⟨he, herror⟩
  · rw [if_neg (by simp [hr.isFinished]), hreceived]
    have hr' : InFile key content targetDir files ({ s with disk } : PasteTask K).disk h i file h.progress.offset := hr
    exact hr'.request (hsizes file (List.mem_of_getElem? hr.entry)) hoffset
  · rw [if_pos he.isFinished]
    exact ⟨_, rfl, .inr (he.onFinished herror)⟩

section PastingSteps

variable (hsizes : ∀ desc ∈ files, desc.size < 2 ^ 64)
  (hcontent : ∀ i desc, files[i]? = some desc → desc.kind = .file → (content i).length = desc.size) {received : ℕ}
include hsizes hcontent

/-- An answer brings the task forward by its bytes, or the task has ended. -/
theorem pasting_takeResponse (hs : Pasting key content targetDir files s received) {connId : Int}
    (hsent : s.sent.getLast? = some (connId, message)) (hanswers : Answers content connId r message) :
    (s.takeResponse key env r).disk.failed = true ∨ ∃ received', received + 1 ≤ received' ∧
        Pasting key content targetDir files (s.takeResponse key env r) received' := by
  obtain ⟨h, hhandle, ⟨i, file, message', hr, hoffset, hreceived, hsend, hlast⟩ | ⟨he, herror⟩⟩ := hs
  · obtain rfl := some.inj (hlast.symm.trans hsent)
    have hsize := hsizes file (List.mem_of_getElem? hr.entry)
    obtain ⟨hconn, hflags, hstream, hdata, hpos⟩ := hr.answered hsize hoffset hsend hanswers
    have hentry : h.files[asUsize r.streamId]? = some file := by
      rw [hstream, asUsize_natCast, hr.tally.entries, hr.entry]
    have hsame : ¬ r.streamId ≠ h.progress.listIndex := not_not.mpr (hstream.trans hr.index.symm)
    have hstep : s.takeResponse key env r = s.takeBlock key env h r := by
      simp only [takeResponse, hhandle, if_neg hsame, hr.isFinished, Bool.false_eq_true, if_false, hflags, hentry,
        hconn, ne_eq, not_true_eq_false]
    rw [hstep]
    rcases @InFile.handle files file i K _ key content targetDir s.disk h env r hr hsize hoffset
      (hcontent i file hr.entry hr.kind) hdata with hfailed | ⟨hok, hsettled⟩
    · exact .inl (failed_takeBlock env hfailed)
    · rcases hresult : h.handleFileContentsResponse key env s.disk r with ⟨e | ⟨⟩, disk, h'⟩
      · simp [hresult] at hok
      · rw [hresult] at hsettled
        simp only [takeBlock, hresult]
        exact .inr ⟨contentSize (files.take i) + h.progress.offset + r.requestedData.length, by omega,
          pasting_goOn hsizes hsettled⟩
  · have hsame : s.takeResponse key env r = s := by
      simp only [takeResponse, hhandle, he.isFinished, if_true]
    rw [hsame]
    exact .inr ⟨received + 1, Nat.le_refl _, h, hhandle, .inr ⟨he, herror⟩⟩

theorem pasting_step
    (hs : Pasting key content targetDir files s received) {e : PasteEnv × PasteEvent} (he : AnswersRequest content s e) :
    (s.step key e.1 e.2).disk.failed = true ∨ ∃ received', (received + if e.2.isResponse then 1 else 0) ≤ received' ∧
        Pasting key content targetDir files (s.step key e.1 e.2) received' := by
  obtain ⟨env, event⟩ := e
  cases event with
  | start targetDir' files' =>
    have hbusy : (s.handle.any fun h => !h.isFinished) = true := he
    have hsame : s.step key env (.start targetDir' files') = s := by
      simp only [step, start, hbusy, if_true]
    rw [hsame]
    exact .inr ⟨received, Nat.le_refl _, hs⟩
  | response r =>
    obtain ⟨connId, message, hsent, hanswers⟩ := he
    exact pasting_takeResponse hsizes hcontent hs hsent hanswers
  | timeout expired =>
    obtain rfl : expired = false := he
    have hsame : s.step key env (.timeout false) = s := by
      simp only [step, Bool.and_false, Bool.false_eq_true, if_false]
      split <;> rfl
    rw [hsame]
    exact .inr ⟨received, Nat.le_refl _, hs⟩
  | cancel => exact he.elim

/-- Every answer counts for at least one byte. -/
theorem pasting_run {events : List (PasteEnv × PasteEvent)}
    (hs : s.disk.failed = true ∨ Pasting key content targetDir files s received)
    (hrun : RunMeets (stepIn key) (AnswersRequest content) s events) :
    let s' := runEvents (stepIn key) s events
    s'.disk.failed = true ∨ ∃ received', received + events.countP (fun e => e.2.isResponse) ≤ received' ∧
        Pasting key content targetDir files s' received' := by
  induction events generalizing s received with
  | nil => exact hs.imp_right fun hs => ⟨received, Nat.le_refl _, hs⟩
  | cons e events ih =>
    have hstep : (s.step key e.1 e.2).disk.failed = true ∨
        ∃ received', (received + if e.2.isResponse then 1 else 0) ≤ received' ∧
          Pasting key content targetDir files (s.step key e.1 e.2) received' := by
      rcases hs with hfailed | hs
      · exact .inl (failed_step hfailed e.1 e.2)
      · exact pasting_step hsizes hcontent hs hrun.1
    obtain ⟨received', hle, hs'⟩ : ∃ received', (received + if e.2.isResponse then 1 else 0) ≤ received' ∧
        ((s.step key e.1 e.2).disk.failed = true ∨ Pasting key content targetDir files (s.step key e.1 e.2) received') := by
      rcases hstep with hfailed | ⟨received', hle, hs'⟩
      · exact ⟨_, Nat.le_refl _, .inl hfailed⟩
      · exact ⟨received', hle, .inr hs'⟩
    refine (ih hs' hrun.2).imp_right ?_
    rintro ⟨received'', hle', hs''⟩
    refine ⟨received'', ?_, hs''⟩
    rw [List.countP_cons]
    omega

end PastingSteps

end Task

theorem contentSize_lt (hfile : files[i]? = some file)
    (hkind : file.kind = .file) (hn : n < file.size) : contentSize (files.take i) + n < contentSize files := by
  have hnext := contentSize_take_succ hfile
  have hle := contentSize_take_le files (i + 1)
  rw [if_pos hkind] at hnext
  omega

/-- An ended task has everything exactly if the entries that are no files do not count. -/
theorem Ended.complete_iff {K : Type*} {key : String → K} {content : ℕ → Bytes} {targetDir : String}
    {disk : PasteDisk K} {h : PasteTaskHandle} (he : Ended key content targetDir files disk h)
    (herror : h.progress.error = none ↔ h.progress.currentSize = h.progress.totalSize) :
    (h.progress.listIndex = files.length ∧ h.progress.error = none ∧ h.progress.currentSize = h.progress.totalSize ∧
        ∃ dest, Delivered key content targetDir files disk files.length dest) ↔
      files.length < 2 ^ 31 ∧ otherSize files % 2 ^ 64 = 0 := by
  have hindex := he.index
  have hcurrent := he.tally.current
  have htotal := he.tally.total
  rw [sum_size] at htotal
  constructor
  · rintro ⟨hlast, -, hsame, -⟩
    have hlength : usizeToI32 files.length = files.length := by omega
    have hcount : listedCount files = files.length := by
      unfold listedCount
      omega
    rw [hcount, List.take_length] at hcurrent
    exact ⟨(usizeToI32_eq_iff _).mp hlength, by omega⟩
  · rintro ⟨hshort, hothers⟩
    have hlength := (usizeToI32_eq_iff files.length).mpr hshort
    have hcount : listedCount files = files.length := by
      unfold listedCount
      omega
    rw [hcount, List.take_length] at hcurrent
    have hsame : h.progress.currentSize = h.progress.totalSize := by omega
    exact ⟨by omega, herror.mpr hsame, hsame, hcount ▸ he.delivered⟩

/-- While the peer answers and no local operation fails, the task asks for bytes of a file that it does not have
yet, and fewer answers have come than there are bytes. When it ends, it has everything exactly if the sizes that
are declared for the other entries come to nothing. -/
theorem paste_completes_iff {K : Type*} [DecidableEq K] (key : String → K) (content : ℕ → Bytes) (targetDir : String)
    {files : List FileDescription} (hsizes : ∀ desc ∈ files, desc.size < 2 ^ 64)
    (hcontent : ∀ i desc, files[i]? = some desc → desc.kind = .file → (content i).length = desc.size)
    {s₀ : PasteTask K} (hidle : (s₀.handle.any fun h => !h.isFinished) = false) (env : PasteEnv)
    {events : List (PasteEnv × PasteEvent)}
    (hrun : RunMeets (PasteTask.stepIn key) (AnswersRequest content) (s₀.start key env targetDir files) events)
    (hio : (runEvents (PasteTask.stepIn key) (s₀.start key env targetDir files) events).disk.failed = false) :
    let s := runEvents (PasteTask.stepIn key) (s₀.start key env targetDir files) events
    ∃ h, s.handle = some h ∧ (h.isFinished = false →
        ∃ file message, h.currentFile = some file ∧ h.progress.offset < file.size ∧
          h.sendFileContentsRequest = .ok (some message) ∧ s.sent.getLast? = some message ∧
          events.countP (fun e => e.2.isResponse) < contentSize files) ∧
      (h.isFinished = true → ((h.progress.listIndex = files.length ∧ h.progress.error = none ∧
            h.progress.currentSize = h.progress.totalSize ∧
            ∃ dest, Delivered key content targetDir files s.disk files.length dest) ↔
          files.length < 2 ^ 31 ∧ otherSize files % 2 ^ 64 = 0)) := by
  intro s
  rcases pasting_run hsizes hcontent (pasting_start hsizes hidle) hrun with hfailed | ⟨received, hle, h, hhandle, hs⟩
  · exact absurd hfailed (by rw [hio]; exact Bool.false_ne_true)
  · refine ⟨h, hhandle, ?_⟩
    rcases hs with ⟨i, file, message, hr, hoffset, hreceived, hsend, hsent⟩ | ⟨he, herror⟩
    · refine ⟨fun _ => ⟨file, message, hr.currentFile, hoffset, hsend, hsent, ?_⟩, fun hfinished => ?_⟩
      · have hlt := contentSize_lt hr.entry hr.kind hoffset
        omega
      · simp [hr.isFinished] at hfinished
    · exact ⟨fun hgoing => by simp [he.isFinished] at hgoing, fun _ => he.complete_iff herror⟩

/-- A folder with a file of three bytes. -/
def pastedFolder (folderSize : ℕ) : List FileDescription :=
  [{ connId := 1, name := "d", kind := .directory, atime := 0, lastModified := 0, lastMetadataChanged := 0
     creationTime := 0, size := folderSize, perm := 0o755 },
    { connId := 1, name := "d/x", kind := .file, atime := 0, lastModified := 0, lastMetadataChanged := 0
      creationTime := 0, size := 3, perm := 0o644 }]

def pastedContent (_ : ℕ) : Bytes := [1, 2, 3]

def idlePaste : PasteTask String := { disk := { files := .empty, dirs := fun path => decide (path = "/t") } }

/-- The peer sends the file in one block. -/
def pastedAnswer : List (PasteEnv × PasteEvent) :=
  [({}, .response { connId := 1, msgFlags := 1, streamId := 1, requestedData := [1, 2, 3] })]

theorem pastedAnswer_meets {folderSize : ℕ}
    (hsent : (idlePaste.start id {} "/t" (pastedFolder folderSize)).sent.getLast? =
      some (1, .fileContentsRequest 1 1 2 0 0 3 false 0)) :
    RunMeets (stepIn id) (AnswersRequest pastedContent) (idlePaste.start id {} "/t" (pastedFolder folderSize))
      pastedAnswer :=
  ⟨⟨1, _, hsent, rfl, rfl, by decide, List.prefix_refl _, by decide, by decide⟩, trivial⟩

theorem pastedContent_length (folderSize i : ℕ) (desc : FileDescription) (hdesc : (pastedFolder folderSize)[i]? = some desc)
    (hkind : desc.kind = .file) : (pastedContent i).length = desc.size := by
  match i with
  | 0 =>
    obtain rfl := some.inj hdesc
    cases hkind
  | 1 =>
    obtain rfl := some.inj hdesc
    rfl
  | i + 2 => simp [pastedFolder] at hdesc

theorem paste_completes_empty_folder :
    ∃ h, (runEvents (PasteTask.stepIn id) (idlePaste.start id {} "/t" (pastedFolder 0)) pastedAnswer).handle = some h ∧
      h.progress.error = none ∧ h.progress.listIndex = 2 := by
  have hfinished : (runEvents (PasteTask.stepIn id) (idlePaste.start id {} "/t" (pastedFolder 0)) pastedAnswer).handle.map
      (·.isFinished) = some true := by decide
  obtain ⟨h, hhandle, -, hdone⟩ := paste_completes_iff id pastedContent "/t"
    (show ∀ desc ∈ pastedFolder 0, desc.size < 2 ^ 64 by decide) (pastedContent_length 0)
    (show (idlePaste.handle.any fun h => !h.isFinished) = false from rfl) {}
    (pastedAnswer_meets (by decide)) (by decide)
  rw [hhandle] at hfinished
  have hall := (hdone (some.inj hfinished)).mpr ⟨by decide, by decide⟩
  exact ⟨h, hhandle, hall.2.1, hall.1⟩

/-- With the size that a folder has on a disk, the same run ends with an error. -/
theorem paste_of_folder_fails :
    RunMeets (PasteTask.stepIn id) (AnswersRequest pastedContent) (idlePaste.start id {} "/t" (pastedFolder 4096))
        pastedAnswer ∧
      let s := runEvents (PasteTask.stepIn id) (idlePaste.start id {} "/t" (pastedFolder 4096)) pastedAnswer
      s.disk.failed = false ∧ s.disk.files.contents "/t/d/x" = some [1, 2, 3] ∧
        s.handle.map (fun h => (h.isFinished, h.progress.error)) =
          some (true, some (.invalidRequest "Failed to download all files")) :=
  ⟨pastedAnswer_meets (by decide), by decide, by decide, by decide⟩

end UnyDesk
