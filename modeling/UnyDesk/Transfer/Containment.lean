import UnyDesk.Lib.WindowsVerbatim
import UnyDesk.Transfer.Delivery

/-!
# Entries below the base path

The checks of a file name read it as a text, and the join reads it as a path of the platform. On both platforms an accepted
name leads below the base path, and so do the paths of its `.download` and `.digest`.

On Windows a base path that is not complete, such as a server without its share, takes the name into its head. A suffix
extends the base path itself where there is no name to extend: behind an empty name, and behind a dot on a verbatim base,
where the join leaves the dot out.
-/

namespace UnyDesk

open Lib Lib.PathText WindowsPath String
open Lib.WindowsPath (Component)

/-- The platform of a build. -/
inductive Platform
  | unix
  | windows
deriving DecidableEq

/-- What `symlink_metadata` reports of a path. -/
inductive LinkStatus
  | symlink
  | other
  | notFound
  | failed (err : String)

namespace Platform

def isSeparator : Platform → Char → Bool
  | .unix, c => c = '/'
  | .windows, c => c = '/' || c = '\\'

def startsWithDrive : List Char → Bool
  | c :: ':' :: _ => c.isAlpha
  | _ => false

/-- The name begins where the platform would leave the base path for it. -/
def isAbsoluteName : Platform → String → Bool
  | .unix, name => name.toList.head? = some '/'
  | .windows, name => startsWithDrive name.toList || name.toList.head? = some '/' || name.toList.head? = some '\\'

/-- `validate_file_name_no_traversal` -/
def validateFileNameNoTraversal (p : Platform) (name : String) : Except String Unit :=
  if name.toList.any (· = '\x00') then .error "file name contains null bytes"
  else if ((splitBy p.isSeparator name.toList).filter (· ≠ [])).any (· = ['.', '.']) then
    .error "path traversal detected in file name"
  else if p.isAbsoluteName name then .error "absolute path detected in file name"
  else .ok ()

/-- `PathBuf::join` -/
def pathJoin : Platform → String → String → String
  | .unix, base, name => UnyDesk.pathJoin base name
  | .windows, base, name => String.ofList (WindowsPath.push base.toList name.toList)

/-- `TransferJob::join` -/
def join (p : Platform) (base name : String) : String := if name = "" then base else p.pathJoin base name

/-- A part of a place in the file system as a component of its path. -/
def place : List Char → Component
  | ['/'] => .rootDir
  | ['.', '.'] => .parentDir
  | part => .normal part

/-- `Path::components`, but for a `.` that a Unix path begins with. -/
def pathComponents : Platform → String → List Component
  | .unix, path => (locate path).map place
  | .windows, path => WindowsPath.components path.toList

/-- The lexical normal form of a path. -/
def normalForm : Platform → String → List Component
  | .unix, path => normalise ((locate path).map place)
  | .windows, path => WindowsPath.normalForm path.toList

def Under (p : Platform) (base path : String) : Prop := PathText.Below (p.normalForm base) (p.normalForm path)

/-- `validate_transfer_file_names` -/
def validateTransferFileNames (p : Platform) (files : List FileEntry) : Except String Unit :=
  match files with
  | [⟨"", _, _⟩] => .ok ()
  | _ =>
    files.forM fun file =>
      if file.name = "" then .error "empty file name in multi-file transfer"
      else p.validateFileNameNoTraversal file.name

section Links

variable (p : Platform) (metadata : String → LinkStatus)

/-- The loop of `validate_no_symlink_components`. -/
def checkComponents (current : String) : List Component → Except String Unit
  | [] => .ok ()
  | .normal seg :: cs =>
    let current := p.pathJoin current (String.ofList seg)
    match metadata current with
    | .symlink => .error "symlink path component is not allowed"
    | .failed err => .error ("failed to validate path component '" ++ current ++ "': " ++ err)
    | .other | .notFound => checkComponents current cs
  | .curDir :: cs => checkComponents current cs
  | _ :: _ => .error "invalid file name component"

/-- `validate_no_symlink_components` -/
def validateNoSymlinkComponents (base name : String) : Except String Unit :=
  if name = "" then .ok () else checkComponents p metadata base (p.pathComponents name)

/-- The checks for symbolic links in `set_files`, which a file in memory has no paths for. -/
def symlinkChecks (job : TransferJob) (files : List FileEntry) : Except String Unit :=
  match job.dataSource with
  | .filePath base => files.forM fun file => validateNoSymlinkComponents p metadata base file.name
  | .memoryCursor _ => .ok ()

/-- `set_files` -/
def setFiles (job : TransferJob) (files : List FileEntry) : TransferJob × Except String Unit :=
  match p.validateTransferFileNames files with
  | .error e => (job, .error e)
  | .ok () =>
    match symlinkChecks p metadata job files with
    | .error e => (job, .error e)
    | .ok () => ({ job with totalSize := (files.map (·.size)).sum, files }, .ok ())

end Links

section Names

variable {p : Platform} {base name suffix : String}

theorem segments_eq_splitBy (path : List Char) : segments path = splitBy Platform.unix.isSeparator path := by
  induction path with
  | nil => rfl
  | cons c cs ih =>
    obtain ⟨part, parts, hparts⟩ := List.exists_cons_of_ne_nil (show splitBy Platform.unix.isSeparator cs ≠ [] from splitBy_ne_nil cs)
    by_cases hc : c = '/'
    · simp [segments, splitBy, isSeparator, hc, ih]
    · simp [segments, splitBy, isSeparator, hc, ih, hparts]

/-- What the checks leave of the names. -/
theorem valid_iff : p.validateFileNameNoTraversal name = .ok () ↔
    '\x00' ∉ name.toList ∧ ['.', '.'] ∉ splitBy p.isSeparator name.toList ∧ p.isAbsoluteName name = false := by
  unfold validateFileNameNoTraversal
  split_ifs with hnull htraversal habsolute
  · simp_all
  · simp_all
  · simp_all
  · simp_all

theorem relative_of_valid (h : Platform.windows.validateFileNameNoTraversal name = .ok ()) (hne : name ≠ "") :
    WindowsPath.Relative name.toList where
  ne_nil := by simpa using hne
  noRoot := by
    have habsolute := (valid_iff.mp h).2.2
    cases hlist : name.toList with
    | nil => rfl
    | cons c cs =>
      simp only [isAbsoluteName, hlist, Bool.or_eq_false_iff] at habsolute
      obtain ⟨⟨-, hslash⟩, hback⟩ := habsolute
      simp_all [isSep]
  noDrive := by
    have habsolute := (valid_iff.mp h).2.2
    simp only [isAbsoluteName, Bool.or_eq_false_iff] at habsolute
    have hdrive := habsolute.1.1
    unfold startsWithDrive at hdrive
    unfold parseDrive
    split
    next heq => simpa [heq] using hdrive
    next => rfl
  noParent := (valid_iff.mp h).2.1

/-- A name that leads down on Unix. -/
structure Descends (name : String) : Prop where
  noRoot : name.toList.head? ≠ some '/'
  noParent : ['.', '.'] ∉ segments name.toList

theorem descends_of_valid (h : Platform.unix.validateFileNameNoTraversal name = .ok ()) : Descends name where
  noRoot := by simpa [isAbsoluteName] using (valid_iff.mp h).2.2
  noParent := segments_eq_splitBy name.toList ▸ (valid_iff.mp h).2.1

/-- The components of such a name are names. -/
theorem Descends.names (h : Descends name) : ∀ c ∈ (components name).map place, ∃ part, c = .normal part := by
  intro c hc
  obtain ⟨part, hpart, rfl⟩ := List.mem_map.mp hc
  have hmem := List.mem_of_mem_filter hpart
  have hfree : ∀ c ∈ part, Platform.unix.isSeparator c = false :=
    free_of_mem_splitBy (segments_eq_splitBy name.toList ▸ hmem)
  unfold place
  split
  · exact absurd (hfree '/' (by simp)) (by decide)
  · exact absurd hmem h.noParent
  · exact ⟨part, rfl⟩

theorem Descends.append (h : Descends name) (hne : name ≠ "") (hsuffix : WindowsPath.Suffix suffix.toList) :
    Descends (name ++ suffix) where
  noRoot := by
    obtain ⟨c, cs, hlist⟩ := List.exists_cons_of_ne_nil (show name.toList ≠ [] by simpa using hne)
    have hroot := h.noRoot
    rw [hlist] at hroot
    simpa [hlist] using hroot
  noParent := by
    have hfree : ∀ c ∈ suffix.toList, Platform.unix.isSeparator c = false := by
      intro c hc
      have hsep := hsuffix.free c hc
      simp only [isSep, Bool.or_eq_false_iff] at hsep
      exact hsep.1
    obtain ⟨parts, last, hparts, hlong⟩ := splitBy_append_free name.toList hfree
    have hparent := h.noParent
    rw [segments_eq_splitBy, hparts] at hparent
    rw [segments_eq_splitBy, toList_append, hlong]
    intro hmem
    obtain hmem | hlast := List.mem_append.mp hmem
    · exact hparent (List.mem_append_left _ hmem)
    · exact hsuffix.ne_short last le_rfl (List.mem_singleton.mp hlast).symm

theorem Descends.under (h : Descends name) : Platform.unix.Under base (joinPath base name) := by
  unfold Under normalForm
  dsimp only
  rw [locate_joinPath h.noRoot, List.map_append]
  exact below_normalise_append _ fun c hc => .inr (h.names c hc)

theorem joinPath_append (hne : name ≠ "") : joinPath base name ++ suffix = joinPath base (name ++ suffix) := by
  obtain ⟨c, cs, hlist⟩ := List.exists_cons_of_ne_nil (show name.toList ≠ [] by simpa using hne)
  have hlong : name ++ suffix ≠ "" := by
    intro hempty
    have hnil := congrArg toList hempty
    simp [hlist] at hnil
  have hhead : (name ++ suffix).toList.head? = name.toList.head? := by simp [hlist]
  rw [joinPath, joinPath, if_neg hne, if_neg hlong, UnyDesk.pathJoin, UnyDesk.pathJoin, hhead]
  split_ifs
  · rfl
  · exact append_assoc
  · exact append_assoc

/-- The base path does not take a name into its head. -/
def CompleteBase : Platform → String → Bool
  | .unix, _ => true
  | .windows, base => WindowsPath.Complete base.toList

/-- A suffix behind the join extends what the name puts below the base path. -/
def Extends : Platform → String → String → Bool
  | .unix, _, name => name ≠ ""
  | .windows, base, name => name ≠ "" && !(WindowsPath.isVerbatimPath base.toList && WindowsPath.plainComponents name.toList = [])

theorem under_refl (p : Platform) (base : String) : p.Under base base := ⟨[], by simp⟩

section CompleteBase

variable (hvalid : p.validateFileNameNoTraversal name = .ok ()) (hbase : p.CompleteBase base = true)
include hvalid hbase

theorem under_join : p.Under base (p.join base name) := by
  by_cases hne : name = ""
  · rw [join, if_pos hne]
    exact under_refl p base
  · cases p with
    | unix =>
      have hunder : Platform.unix.Under base (joinPath base name) := (descends_of_valid hvalid).under
      rw [joinPath, if_neg hne] at hunder
      rw [join, if_neg hne]
      exact hunder
    | windows =>
      rw [join, if_neg hne]
      change WindowsPath.Under base.toList (ofList (push base.toList name.toList)).toList
      rw [toList_ofList]
      exact under_push hbase (relative_of_valid hvalid hne)

theorem under_join_append (hextends : p.Extends base name = true) (hsuffix : WindowsPath.Suffix suffix.toList) :
    p.Under base (p.join base name ++ suffix) := by
  cases p with
  | unix =>
    have hne : name ≠ "" := by simpa [Extends] using hextends
    have hunder : Platform.unix.Under base (joinPath base (name ++ suffix)) :=
      ((descends_of_valid hvalid).append hne hsuffix).under
    rw [← joinPath_append hne, joinPath, if_neg hne] at hunder
    rw [join, if_neg hne]
    exact hunder
  | windows =>
    simp only [Extends, Bool.and_eq_true, decide_eq_true_eq, Bool.not_eq_true', Bool.and_eq_false_imp] at hextends
    obtain ⟨hne, hnames⟩ := hextends
    rw [join, if_neg hne]
    change WindowsPath.Under base.toList (ofList (push base.toList name.toList) ++ suffix).toList
    rw [toList_append, toList_ofList]
    exact under_push_append hbase (relative_of_valid hvalid hne) hsuffix (by simpa using hnames)

end CompleteBase

end Names

section Lists

variable {p : Platform} {metadata : String → LinkStatus} {job : TransferJob} {files : List FileEntry}

/-- The paths that the check for symbolic links looks at. -/
def walked (p : Platform) (current : String) : List Component → List String
  | [] => []
  | .normal seg :: cs =>
    let current := p.pathJoin current (String.ofList seg)
    current :: walked p current cs
  | _ :: cs => walked p current cs

/-- The rule for the names of a list. -/
def Rule (p : Platform) (files : List FileEntry) : Prop :=
  (∃ file, files = [file] ∧ file.name = "") ∨
    ∀ file ∈ files, file.name ≠ "" ∧ p.validateFileNameNoTraversal file.name = .ok ()

/-- No symbolic link is on the way to an entry. -/
def NoLinks (p : Platform) (metadata : String → LinkStatus) (job : TransferJob) (files : List FileEntry) : Prop :=
  ∀ base, job.dataSource = .filePath base → ∀ file ∈ files, ∀ path ∈ walked p base (p.pathComponents file.name),
    metadata path = .other ∨ metadata path = .notFound

theorem forM_eq_ok_iff {α : Type} {check : α → Except String Unit} {l : List α} :
    l.forM check = .ok () ↔ ∀ a ∈ l, check a = .ok () := by
  induction l with
  | nil => exact ⟨fun _ => nofun, fun _ => rfl⟩
  | cons a l ih =>
    rw [List.forall_mem_cons, ← ih]
    cases hcheck : check a with
    | error e => simp [hcheck, bind, Except.bind]
    | ok u => simp [hcheck, bind, Except.bind]

theorem validateTransferFileNames_iff : p.validateTransferFileNames files = .ok () ↔ p.Rule files := by
  unfold validateTransferFileNames Rule
  split
  next size modified => exact ⟨fun _ => .inl ⟨_, rfl, rfl⟩, fun _ => rfl⟩
  next hmany =>
    have hsingle : ¬∃ file, files = [file] ∧ file.name = "" := by
      intro ⟨file, hfiles, hempty⟩
      exact hmany file.size file.modifiedTime (by rw [hfiles, ← hempty])
    rw [or_iff_right hsingle, forM_eq_ok_iff]
    apply forall₂_congr
    intro file _
    split_ifs with hempty
    · simp [hempty]
    · simp [hempty]

theorem checkComponents_iff {cs : List Component} (hcs : ∀ c ∈ cs, c = .curDir ∨ ∃ part, c = .normal part) (current : String) :
    checkComponents p metadata current cs = .ok () ↔
      ∀ path ∈ walked p current cs, metadata path = .other ∨ metadata path = .notFound := by
  induction cs generalizing current with
  | nil => exact ⟨fun _ => nofun, fun _ => rfl⟩
  | cons c cs ih =>
    obtain ⟨hc, hrest⟩ := List.forall_mem_cons.mp hcs
    obtain rfl | ⟨part, rfl⟩ := hc
    · exact ih hrest current
    · unfold checkComponents walked
      dsimp only
      rw [List.forall_mem_cons, ← ih hrest]
      cases metadata (p.pathJoin current (ofList part)) with
      | symlink | failed => simp
      | other | notFound => simp

/-- The components of an accepted name are names, but for a leading dot. -/
theorem names_of_valid {name : String} (hvalid : p.validateFileNameNoTraversal name = .ok ()) :
    ∀ c ∈ p.pathComponents name, c = .curDir ∨ ∃ part, c = .normal part := by
  intro c hc
  cases p with
  | unix =>
    have hdescends := descends_of_valid hvalid
    have hlocate : locate name = components name := by simp [locate, components, rootMarker, hdescends.noRoot]
    exact .inr (hdescends.names c (hlocate ▸ hc))
  | windows =>
    by_cases hne : name = ""
    · subst hne
      have hnone : Platform.windows.pathComponents "" = [] := rfl
      rw [hnone] at hc
      exact absurd hc List.not_mem_nil
    · have hrelative := relative_of_valid hvalid hne
      change c ∈ WindowsPath.components name.toList at hc
      obtain hcs | hcs := hrelative.components_eq
      · exact .inr (hrelative.names c (hcs ▸ hc))
      · rw [hcs] at hc
        obtain rfl | hc := List.mem_cons.mp hc
        · exact .inl rfl
        · exact .inr (hrelative.names c hc)

theorem validateNoSymlinkComponents_iff {base name : String} (hvalid : p.validateFileNameNoTraversal name = .ok ()) :
    validateNoSymlinkComponents p metadata base name = .ok () ↔
      ∀ path ∈ walked p base (p.pathComponents name), metadata path = .other ∨ metadata path = .notFound := by
  unfold validateNoSymlinkComponents
  split_ifs with hempty
  · have hnone : walked p base (p.pathComponents name) = [] := by
      subst hempty
      cases p with
      | unix => rfl
      | windows => rfl
    rw [hnone]
    exact ⟨fun _ => nofun, fun _ => rfl⟩
  · exact checkComponents_iff (names_of_valid hvalid) base

theorem Rule.valid (h : p.Rule files) : ∀ file ∈ files, p.validateFileNameNoTraversal file.name = .ok () := by
  intro file hfile
  obtain ⟨single, rfl, hempty⟩ | hall := h
  · rw [List.mem_singleton.mp hfile, hempty]
    cases p with
    | unix => decide
    | windows => decide
  · exact (hall file hfile).2

theorem symlinkChecks_iff (hrule : p.Rule files) :
    symlinkChecks p metadata job files = .ok () ↔ p.NoLinks metadata job files := by
  unfold symlinkChecks
  cases hsource : job.dataSource with
  | memoryCursor bytes =>
    have hlinks : p.NoLinks metadata job files := by
      intro base hbase
      rw [hsource] at hbase
      exact nomatch hbase
    exact ⟨fun _ => hlinks, fun _ => rfl⟩
  | filePath base =>
    dsimp only
    rw [forM_eq_ok_iff]
    constructor
    · intro h base' hbase file hfile
      obtain rfl : base = base' := DataSource.filePath.inj (hsource.symm.trans hbase)
      exact (validateNoSymlinkComponents_iff (hrule.valid file hfile)).mp (h file hfile)
    · intro h file hfile
      exact (validateNoSymlinkComponents_iff (hrule.valid file hfile)).mpr (h base hsource file hfile)

theorem setFiles_of_accepted (hrule : p.Rule files) (hlinks : p.NoLinks metadata job files) :
    p.setFiles metadata job files = ({ job with totalSize := (files.map (·.size)).sum, files }, .ok ()) := by
  rw [setFiles, validateTransferFileNames_iff.mpr hrule]
  dsimp only
  rw [(symlinkChecks_iff hrule).mpr hlinks]

/-- A list that is not accepted changes nothing. -/
theorem setFiles_of_rejected (h : ¬(p.Rule files ∧ p.NoLinks metadata job files)) :
    (p.setFiles metadata job files).2 ≠ .ok () ∧ (p.setFiles metadata job files).1 = job := by
  unfold setFiles
  cases hnames : p.validateTransferFileNames files with
  | error e => exact ⟨nofun, rfl⟩
  | ok u =>
    have hrule : p.Rule files := validateTransferFileNames_iff.mp hnames
    dsimp only
    cases hcheck : symlinkChecks p metadata job files with
    | error e => exact ⟨nofun, rfl⟩
    | ok u => exact absurd ⟨hrule, (symlinkChecks_iff hrule).mp hcheck⟩ h

end Lists

/-- Accepted names stay below the base path, and a list is accepted by its names and the links on the way to them. -/
theorem transfer_paths_contained (p : Platform) (metadata : String → LinkStatus) (base name : String) (job : TransferJob)
    (files : List FileEntry) :
    (p.validateFileNameNoTraversal name = .ok () → p.CompleteBase base = true → p.Under base (p.join base name) ∧
        (p.Extends base name = true →
          p.Under base (downloadPath (p.join base name)) ∧ p.Under base (digestPath (p.join base name)))) ∧
      ((p.setFiles metadata job files).2 = .ok () ↔ p.Rule files ∧ p.NoLinks metadata job files) ∧
      ((p.setFiles metadata job files).2 = .ok () →
        (p.setFiles metadata job files).1 = { job with totalSize := (files.map (·.size)).sum, files }) ∧
      ((p.setFiles metadata job files).2 ≠ .ok () → (p.setFiles metadata job files).1 = job) := by
  have hdownload : WindowsPath.Suffix ".download".toList := ⟨by simp [WindowsPath.isSep], by decide, by decide⟩
  have hdigest : WindowsPath.Suffix ".digest".toList := ⟨by simp [WindowsPath.isSep], by decide, by decide⟩
  refine ⟨fun hvalid hbase => ⟨under_join hvalid hbase, fun hextends =>
    ⟨under_join_append hvalid hbase hextends hdownload, under_join_append hvalid hbase hextends hdigest⟩⟩, ?_⟩
  by_cases haccepted : p.Rule files ∧ p.NoLinks metadata job files
  · rw [setFiles_of_accepted haccepted.1 haccepted.2]
    exact ⟨iff_of_true rfl haccepted, fun _ => rfl, fun h => absurd rfl h⟩
  · obtain ⟨herror, hjob⟩ := setFiles_of_rejected haccepted
    exact ⟨iff_of_false herror haccepted, fun h => absurd h herror, fun _ => hjob⟩

theorem transfer_paths_contained_verbatim :
    Platform.windows.Under "\\\\?\\C:\\d" (downloadPath (Platform.windows.join "\\\\?\\C:\\d" "sub/a")) :=
  (((transfer_paths_contained .windows (fun _ => .other) "\\\\?\\C:\\d" "sub/a" (.newWrite 1 .generic (.filePath "") 0 false)
    []).1 (by decide) (by decide)).2 (by decide)).1

theorem isPrefix_of_under {p : Platform} {base path : String} (h : p.Under base path) :
    p.normalForm base <+: p.normalForm path := by
  obtain ⟨names, hform⟩ := h
  exact ⟨_, hform.symm⟩

/-- A suffix of the base path itself is a file beside it, a server takes a name for its share, and a list is rejected for an
empty name among others and for a symbolic link. -/
theorem names_beside_the_base : (Platform.unix.validateFileNameNoTraversal "" = .ok () ∧
        ¬Platform.unix.Under "/data" (downloadPath (Platform.unix.join "/data" ""))) ∧
      (Platform.windows.validateFileNameNoTraversal "a" = .ok () ∧
        ¬Platform.windows.Under "\\\\server" (Platform.windows.join "\\\\server" "a")) ∧
      (Platform.windows.validateFileNameNoTraversal "." = .ok () ∧
        ¬Platform.windows.Under "\\\\?\\C:\\d" (downloadPath (Platform.windows.join "\\\\?\\C:\\d" "."))) ∧
      (∀ name ∈ ["", "a"], Platform.unix.validateFileNameNoTraversal name = .ok ()) ∧
      (Platform.unix.setFiles (fun _ => .other) (.newWrite 1 .generic (.filePath "/data") 0 false)
        [{ name := "" }, { name := "a" }]).2 ≠ .ok () ∧
      (Platform.unix.setFiles (fun _ => .symlink) (.newWrite 1 .generic (.filePath "/data") 0 false) [{ name := "a" }]).2 ≠ .ok () := by
  refine ⟨⟨by decide, fun h => ?_⟩, ⟨by decide, fun h => ?_⟩, ⟨by decide, fun h => ?_⟩, by decide, by decide, by decide⟩
  · exact absurd (isPrefix_of_under h) (by decide)
  · exact absurd (isPrefix_of_under h) (by decide)
  · exact absurd (isPrefix_of_under h) (by decide)

end Platform

end UnyDesk
