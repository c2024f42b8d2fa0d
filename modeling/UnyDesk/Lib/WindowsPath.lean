import Mathlib.Data.List.TakeWhile
import UnyDesk.Lib.PathText

/-!
# The path grammar of Windows

A path may begin with a drive, a network share, a device or the verbatim form of one of these, which is its head; a drive
alone does not make it absolute. Both slashes separate, but in a verbatim path the forward one does not, and `.` and `..` are
names there. To push a relative path to a base is to put a separator between the texts where it is needed; a verbatim base is
read into its components and written again.

A base is complete when a name that follows does not make another head of it.
-/

namespace UnyDesk.Lib.WindowsPath

open PathText List

/-- What a path may begin with. -/
inductive Head
  | verbatim (name : List Char)
  | verbatimUnc (server share : List Char)
  | verbatimDisk (drive : Char)
  | deviceNs (name : List Char)
  | unc (server share : List Char)
  | disk (drive : Char)
deriving DecidableEq

namespace Head

def isVerbatim : Head → Bool
  | .verbatim _ | .verbatimUnc _ _ | .verbatimDisk _ => true
  | _ => false

def isDrive : Head → Bool
  | .disk _ => true
  | _ => false

def hasImplicitRoot (h : Head) : Bool := !h.isDrive

def length : Head → ℕ
  | .verbatim name => 4 + name.length
  | .verbatimUnc server share => 8 + server.length + if share = [] then 0 else 1 + share.length
  | .verbatimDisk _ => 6
  | .deviceNs name => 4 + name.length
  | .unc server share => 2 + server.length + if share = [] then 0 else 1 + share.length
  | .disk _ => 2

end Head

def isSep (c : Char) : Bool := c = '/' || c = '\\'

def isVerbatimSep (c : Char) : Bool := c = '\\'

/-- The text up to the next separator, and what follows it. -/
def nextComponent (sep : Char → Bool) (path : List Char) : List Char × List Char :=
  (path.takeWhile fun c => !sep c, (path.dropWhile fun c => !sep c).drop 1)

def parseDrive : List Char → Option Char
  | c :: ':' :: _ => if c.isAlpha then some c.toUpper else none
  | _ => none

/-- Only a drive that ends there. -/
def parseDriveExact (path : List Char) : Option Char := if path[2]?.all isSep then parseDrive path else none

/-- The separators of a pattern match both slashes. -/
def backslashed (c : Char) : Char := if c = '/' then '\\' else c

def stripPattern (pattern path : List Char) : Option (List Char) :=
  if (path.take pattern.length).map backslashed = pattern then some (path.drop pattern.length) else none

/-- After `\\?\`. -/
def parseVerbatim (rest : List Char) : Head :=
  match stripPattern ['U', 'N', 'C', '\\'] rest with
  | some path =>
    let (server, path) := nextComponent isVerbatimSep path
    .verbatimUnc server (nextComponent isVerbatimSep path).1
  | none =>
    match parseDriveExact rest with
    | some drive => .verbatimDisk drive
    | none => .verbatim (nextComponent isVerbatimSep rest).1

/-- After `\\`, for a share. -/
def parseUnc (rest : List Char) : Option Head :=
  let (server, path) := nextComponent isSep rest
  let share := (nextComponent isSep path).1
  if server ≠ [] ∧ share ≠ [] then some (.unc server share) else none

/-- After `\\`, for a device or a share. -/
def parseDevice (rest : List Char) : Option Head :=
  match stripPattern ['.', '\\'] rest with
  | some path => some (.deviceNs (nextComponent isSep path).1)
  | none => parseUnc rest

def parseHead (path : List Char) : Option Head :=
  match stripPattern ['\\', '\\'] path with
  | none => (parseDrive path).map .disk
  | some rest =>
    match stripPattern ['?', '\\'] rest with
    | some path' => if '/' ∈ path.take 4 then parseDevice rest else some (parseVerbatim path')
    | none => parseDevice rest

/-- A component with the text of the head. -/
abbrev Component := PathComponent (List Char × Head)

/-- What a part between separators stands for. -/
def parseComponent (verbatim : Bool) (part : List Char) : Option Component :=
  if part = [] then none
  else if part = ['.'] then if verbatim then some .curDir else none
  else if part = ['.', '.'] then some .parentDir
  else some (.normal part)

section

variable (path : List Char)

def headLength : ℕ := (parseHead path).elim 0 Head.length

def afterHead : List Char := path.drop (headLength path)

def hasPhysicalRoot : Bool := (afterHead path).head?.any isSep

/-- The text after the head and the root. -/
def body : List Char := if hasPhysicalRoot path then (afterHead path).drop 1 else afterHead path

/-- The root, or the `.` that a path without one may begin with. -/
def start : List Component :=
  if hasPhysicalRoot path then [.rootDir]
  else
    match parseHead path with
    | some h => if h.hasImplicitRoot && !h.isVerbatim then [.rootDir] else []
    | none => if (splitBy isSep (body path)).head? = some ['.'] then [.curDir] else []

def headComponent : List Component :=
  match parseHead path with
  | some h => [.head (path.take h.length, h)]
  | none => []

def isVerbatimPath : Bool := (parseHead path).any Head.isVerbatim

def bodyComponents : List Component :=
  (splitBy (if isVerbatimPath path then isVerbatimSep else isSep) (body path)).filterMap
    (parseComponent (isVerbatimPath path))

def components : List Component := headComponent path ++ start path ++ bodyComponents path

def hasRoot : Bool := hasPhysicalRoot path || (parseHead path).any Head.hasImplicitRoot

end

/-- The components of a verbatim path with those of another one. -/
def pushComponents (buf : List Component) : List Component → List Component
  | [] => buf
  | .rootDir :: cs => pushComponents (buf.take 1 ++ [.rootDir]) cs
  | .curDir :: cs => pushComponents buf cs
  | .parentDir :: cs =>
    pushComponents (match buf.getLast? with
      | some (.normal _) => buf.dropLast
      | _ => buf) cs
  | c :: cs => pushComponents (buf ++ [c]) cs

def componentText : Component → List Char
  | .head (text, _) => text
  | .rootDir => ['\\']
  | .curDir => ['.']
  | .parentDir => ['.', '.']
  | .normal name => name

/-- A separator is needed after the component. -/
def needsSep : Component → Bool
  | .rootDir => false
  | .head (_, h) => !h.isDrive && 0 < h.length
  | _ => true

/-- The text of components. -/
def writeComponents (needSep : Bool) : List Component → List Char
  | [] => []
  | c :: cs =>
    (if needSep && c ≠ .rootDir then ['\\'] else []) ++ componentText c ++ writeComponents (needsSep c) cs

/-- A drive and nothing else. -/
def isBareDrive (base : List Char) : Bool := (parseHead base).any fun h => h.isDrive && h.length = base.length

/-- The separator that is put after the base. -/
def seam (base : List Char) : List Char := if base.getLast?.any (!isSep ·) && !isBareDrive base then ['\\'] else []

/-- `PathBuf::push` -/
def push (base path : List Char) : List Char :=
  if (parseHead path).isSome then path
  else if isVerbatimPath base ∧ path ≠ [] then writeComponents false (pushComponents (components base) (components path))
  else if hasRoot path then base.take (headLength base) ++ path
  else base ++ seam base ++ path

/-- The lexical normal form. A head that is no drive has a root, written or not. -/
def normalForm (path : List Char) : List Component :=
  normalise (headComponent path ++ (if hasRoot path then [.rootDir] else []) ++ bodyComponents path)

def Under (base path : List Char) : Prop := Below (normalForm base) (normalForm path)

/-- No name that follows makes another head of the base. -/
def Complete (base : List Char) : Bool :=
  match parseHead base with
  | some (.deviceNs []) => 4 < base.length
  | some (.verbatimUnc _ []) => false
  | some (.verbatim name) => name ≠ ['U', 'N', 'C']
  | some _ => true
  | none =>
    match stripPattern ['\\', '\\'] base with
    | none => true
    | some rest => rest.head?.any isSep || 2 ≤ (rest.dropWhile fun c => !isSep c).length

/-- A name to push: not empty, neither rooted nor with a drive, and without `..`. -/
structure Relative (name : List Char) : Prop where
  ne_nil : name ≠ []
  noRoot : name.head?.any isSep = false
  noDrive : parseDrive name = none
  noParent : ['.', '.'] ∉ splitBy isSep name

section Heads

variable {base tail rest name : List Char}

theorem backslashed_eq_iff (c : Char) : backslashed c = '\\' ↔ isSep c = true := by
  unfold backslashed isSep
  split_ifs with hslash
  · simp [hslash]
  · simp [hslash]

/-- A pattern of a character and a separator. -/
theorem stripPattern_pair (x c d : Char) (path : List Char) :
    stripPattern [x, '\\'] (c :: d :: path) = if backslashed c = x ∧ isSep d = true then some path else none := by
  have hiff : ((c :: d :: path).take [x, '\\'].length).map backslashed = [x, '\\'] ↔
      backslashed c = x ∧ isSep d = true := by
    rw [← backslashed_eq_iff]
    simp
  unfold stripPattern
  split_ifs with h h' h'
  · rfl
  · exact absurd (hiff.mp h) h'
  · exact absurd (hiff.mpr h') h
  · rfl

theorem stripPattern_of_short {pattern : List Char} (h : rest.length < pattern.length) : stripPattern pattern rest = none := by
  unfold stripPattern
  rw [if_neg]
  intro heq
  have hlength := congrArg length heq
  rw [length_map, length_take] at hlength
  omega

/-- What follows does not belong to the text up to the separator. -/
theorem takeWhile_append_of {p : Char → Bool} (h : (∀ c ∈ rest, p c = true) → tail.head?.any p = false) :
    (rest ++ tail).takeWhile p = rest.takeWhile p := by
  induction rest with
  | nil =>
    have hhead := h nofun
    cases tail with
    | nil => rfl
    | cons c cs => simp_all
  | cons c cs ih =>
    by_cases hc : p c = true
    · have htail : (∀ c ∈ cs, p c = true) → tail.head?.any p = false := fun hcs => h (forall_mem_cons.mpr ⟨hc, hcs⟩)
      simp [hc, ih htail]
    · simp [hc]

/-- A share that is there, or cannot be, stays so. -/
theorem parseUnc_append (hrest : rest.head?.any isSep = true ∨ 2 ≤ (rest.dropWhile fun c => !isSep c).length)
    (htail : ∀ start last, rest = start ++ last → last ≠ [] → (∀ c ∈ last, isSep c = false) → tail.head?.any isSep = true) :
    parseUnc (rest ++ tail) = parseUnc rest := by
  obtain hhead | hlength := hrest
  · cases rest with
    | nil => exact nomatch hhead
    | cons c cs =>
      have hc : isSep c = true := by simpa using hhead
      simp [parseUnc, nextComponent, hc]
  · have hsplit := takeWhile_append_dropWhile (p := fun c => !isSep c) (l := rest)
    obtain ⟨d, ds, hdrop⟩ : ∃ d ds, (rest.dropWhile fun c => !isSep c) = d :: ds :=
      exists_cons_of_ne_nil fun hnil => by simp [hnil] at hlength
    rw [hdrop] at hsplit hlength
    have hds : ds ≠ [] := by
      rintro rfl
      simp at hlength
    have htake : (rest ++ tail).takeWhile (fun c => !isSep c) = rest.takeWhile fun c => !isSep c := by
      apply takeWhile_append_of
      intro hall
      have hnil : (rest.dropWhile fun c => !isSep c) = [] := dropWhile_eq_nil_iff.mpr hall
      rw [hdrop] at hnil
      exact nomatch hnil
    have hdropped : (rest ++ tail).dropWhile (fun c => !isSep c) = d :: (ds ++ tail) := by
      rw [dropWhile_append, hdrop]
      rfl
    have hshare : (ds ++ tail).takeWhile (fun c => !isSep c) = ds.takeWhile fun c => !isSep c := by
      apply takeWhile_append_of
      intro hall
      have hsep := htail (rest.takeWhile (fun c => !isSep c) ++ [d]) ds (by simp [hsplit]) hds
        fun c hc => by simpa using hall c hc
      cases tail with
      | nil => rfl
      | cons c cs => simpa using hsep
    unfold parseUnc nextComponent
    simp only [htake, hdropped, hdrop, drop_one, tail_cons, hshare]

/-- The remainder of a share has the share in it. -/
theorem two_le_of_parseUnc {h : Head} (hparse : parseUnc rest = some h) :
    2 ≤ (rest.dropWhile fun c => !isSep c).length := by
  unfold parseUnc nextComponent at hparse
  dsimp only at hparse
  split_ifs at hparse with hboth
  cases hdrop : rest.dropWhile fun c => !isSep c with
  | nil => simp [hdrop] at hboth
  | cons d ds =>
    cases ds with
    | nil => simp [hdrop] at hboth
    | cons e es => simp

end Heads

end UnyDesk.Lib.WindowsPath
