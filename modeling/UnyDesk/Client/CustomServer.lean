import Mathlib.Data.Bool.AllAny
import Mathlib.Data.List.DropRight
import Mathlib.Data.List.Forall2
import UnyDesk.Lib.Base64Url
import UnyDesk.Lib.SplitText
import UnyDesk.Proto.Message

/-!
# A configuration in the name of a file

The name of the installer can carry the servers of a customer: as fields, the first of which is
`host=`, or as a code, the reversed base64 of JSON, with or without a signature in front. The
code stands behind `-licensed-` or `--`, and other texts may stand behind it.

The name is cut at these separators, which are made of characters of base64. A code is read from
it when it comes out as one of the pieces. It does when it has no separator in itself, and when
neither it nor what is in front of it adds a letter to one.
-/

namespace UnyDesk

open Lib List Base64Url Option Char

structure CustomServer where
  key : String := ""
  host : String := ""
  api : String := ""
  relay : String := ""
deriving DecidableEq

namespace CustomServer

variable {c : Char}

/-- What a letter becomes in lower case: ASCII letters in ASCII, and no other letter becomes one that the code looks
for. -/
def Lowers (c : Char) (lowered : List Char) : Prop :=
  if c.toNat < 128 then lowered = [c.toLower] else lowered ≠ [] ∧ ∀ d ∈ lowered, d ∉ ".exhost=".toList

/-- `str::to_lowercase` -/
structure Lowercase where
  lower : List Char → List Char
  lower_eq : ∀ s, ∃ parts, List.Forall₂ Lowers s parts ∧ lower s = parts.flatten

/-- What the code calls. -/
structure Crates where
  lowercase : Lowercase
  /-- `serde_json::from_slice` -/
  fromSlice : Bytes → Option CustomServer
  /-- `sign::verify` with the key for licenses. -/
  verify : Bytes → Option Bytes

/-- `char::is_whitespace` -/
def isWhitespace (c : Char) : Bool :=
  let n := c.toNat
  9 ≤ n && n ≤ 13 || n = 0x20 || n = 0x85 || n = 0xa0 || n = 0x1680 || 0x2000 ≤ n && n ≤ 0x200a || n = 0x2028 ||
    n = 0x2029 || n = 0x202f || n = 0x205f || n = 0x3000

/-- `str::trim` -/
def trim (s : List Char) : List Char := (s.dropWhile isWhitespace).rdropWhile isWhitespace

/-- The text from this byte on, if a letter begins there. -/
def fromByte : ℕ → List Char → Option (List Char)
  | 0, s => some s
  | _ + 1, [] => none
  | n + 1, c :: s => if c.utf8Size ≤ n + 1 then fromByte (n + 1 - c.utf8Size) s else none

inductive Failure
  | failedToParse
  | panicked
deriving DecidableEq

section Model

variable (crates : Crates)

def getCustomServerFromConfigString (s : List Char) : Option CustomServer :=
  match Base64Url.decode s.reverse with
  | none => none
  | some data =>
    match crates.fromSlice data with
    | some lic => some lic
    | none => (crates.verify data).bind crates.fromSlice

/-- The name without its extension. The letters that are cut off are ASCII, as their lower cases are. -/
def stem (s : List Char) : List Char :=
  if ".exe.exe".toList <:+ crates.lowercase.lower s then s.take (s.length - 8)
  else if ".exe".toList <:+ crates.lowercase.lower s then s.take (s.length - 4)
  else s

/-- One of the fields that follow `host=`. -/
def readElement (server : CustomServer) (el : List Char) : CustomServer :=
  let elLower := crates.lowercase.lower el
  let server := if "host=".toList <+: elLower then { server with host := String.ofList (el.drop 5) } else server
  let server := if "key=".toList <+: elLower then { server with key := String.ofList (el.drop 4) } else server
  let server := if "api=".toList <+: elLower then { server with api := String.ofList (el.drop 4) } else server
  if "relay=".toList <+: elLower then { server with relay := String.ofList (el.drop 6) } else server

section

variable (s : List Char)

/-- The place of `host=` is counted in the bytes of the lower case. -/
def fromHost : Except Failure CustomServer :=
  let front := (splitText "host=".toList (crates.lowercase.lower s)).head (splitText_ne_nil _ _)
  match fromByte (String.ofList front).utf8ByteSize s with
  | none => .error .panicked
  | some stripped => .ok ((splitText ",".toList stripped).foldl (readElement crates) {})

/-- The three replacements. -/
def normalise : List Char :=
  replaceText "-licensed-".toList "--".toList (replaceText "-licensed--".toList "--".toList
    (replaceText "-licensed---".toList "--".toList s))

def fromPart : Option CustomServer :=
  match getCustomServerFromConfigString crates (trim s) with
  | some lic => some lic
  | none =>
    if '(' ∈ s then (splitText "(".toList s).findSome? fun s => getCustomServerFromConfigString crates (trim s)
    else none

def HostFree : Prop := ¬ "host=".toList <:+: crates.lowercase.lower (stem crates s)

instance (s : List Char) : Decidable (HostFree crates s) :=
  inferInstanceAs (Decidable (¬ "host=".toList <:+: crates.lowercase.lower (stem crates s)))

def getCustomServerFromString : Except Failure CustomServer :=
  if HostFree crates s then
    match (splitText "--".toList (normalise (stem crates s))).findSome? (fromPart crates) with
    | some lic => .ok lic
    | none => .error .failedToParse
  else fromHost crates (stem crates s)

end

/-- What is tried of a part, in this order. -/
def candidates (part : List Char) : List (List Char) :=
  trim part :: if '(' ∈ part then (splitText "(".toList part).map trim else []

def pieces (s : List Char) : List (List Char) := (splitText "--".toList (normalise s)).flatMap candidates

/-- The code is one of the pieces, and no piece in front of it is a code. -/
def Whole (s code : List Char) : Prop :=
  ∃ before after, pieces (stem crates s) = before ++ code :: after ∧
    ∀ piece ∈ before, getCustomServerFromConfigString crates piece = none

/-- The name has other means to give the value. -/
def Coincides (s code : List Char) (v : CustomServer) : Prop :=
  (¬ HostFree crates s ∧ fromHost crates (stem crates s) = .ok v) ∨
    ∃ piece ∈ pieces (stem crates s), piece ≠ code ∧ getCustomServerFromConfigString crates piece = some v

/-- The bytes of a value: its JSON, or a signature with the JSON. A signature does not make other JSON of it. -/
inductive Carries (v : CustomServer) : Bytes → Prop
  | plain {json : Bytes} (hjson : crates.fromSlice json = some v) : Carries v json
  | signed {signature json : Bytes} (hlength : signature.length = 64)
      (hverify : crates.verify (signature ++ json) = some json) (hjson : crates.fromSlice json = some v)
      (hsigned : crates.fromSlice (signature ++ json) = none ∨ crates.fromSlice (signature ++ json) = some v) :
      Carries v (signature ++ json)

end Model

def codeOf (data : Bytes) : List Char := (Base64Url.encode data).reverse

inductive Separator
  | licensed
  | dashes

def Separator.text : Separator → List Char
  | .licensed => "-licensed-".toList
  | .dashes => "--".toList

inductive Suffix
  /-- Marks of the operating system; there may be none. -/
  | copies (numbers : List ℕ)
  | text (t : List Char)

open Suffix

/-- ` (n)` -/
def copyMark (n : ℕ) : List Char := " (".toList ++ Nat.toDigits 10 n ++ ")".toList

def Suffix.letters : Suffix → List Char
  | .copies numbers => numbers.flatMap copyMark
  | .text t => "--".toList ++ t

def fileName (front : List Char) (sep : Separator) (code : List Char) (suffix : Suffix) : List Char :=
  front ++ sep.text ++ code ++ suffix.letters ++ ".exe".toList

def licensed : List Char := "licensed".toList

/-- No separator begins or ends inside of the code, and nothing in front of it is a code. -/
structure Separable (crates : Crates) (front code : List Char) (suffix : Suffix) : Prop where
  frontSep : ¬ "--".toList <:+: front
  frontLast : front.getLast? ≠ some '-'
  frontWord : ¬ licensed <:+: front
  frontCodes : ∀ piece ∈ candidates front, getCustomServerFromConfigString crates piece = none
  codeNonempty : code ≠ []
  codeSep : ¬ "--".toList <:+: code
  codeHead : code.head? ≠ some '-'
  codeWord : ¬ licensed <:+: code
  codeLast : ∀ t, suffix = .text t → code.getLast? ≠ some '-'

section Reading

variable {crates : Crates} {v : CustomServer} {data : Bytes} {s code : List Char}

/-- The code of a value is read as the value. -/
theorem getCustomServerFromConfigString_codeOf (h : Carries crates v data) :
    getCustomServerFromConfigString crates (codeOf data) = some v := by
  rw [getCustomServerFromConfigString, codeOf, reverse_reverse, decode_encode]
  cases h with
  | plain hjson => simp only [hjson]
  | signed _ hverify hjson hsigned =>
    rcases hsigned with hnone | hsome
    · simp only [hnone, hverify, bind_some, hjson]
    · simp only [hsome]

theorem fromPart_eq (part : List Char) :
    fromPart crates part = (candidates part).findSome? (getCustomServerFromConfigString crates) := by
  rw [fromPart, candidates, findSome?_cons]
  cases getCustomServerFromConfigString crates (trim part) with
  | some lic => rfl
  | none =>
    by_cases hparen : '(' ∈ part
    · rw [if_pos hparen, if_pos hparen, findSome?_map]
      rfl
    · rw [if_neg hparen, if_neg hparen]
      rfl

/-- The first piece that is a code is read. -/
theorem findSome?_parts (s : List Char) : (splitText "--".toList (normalise s)).findSome? (fromPart crates) =
    (pieces s).findSome? (getCustomServerFromConfigString crates) := by
  rw [pieces]
  induction splitText "--".toList (normalise s) with
  | nil => rfl
  | cons part parts ih =>
    rw [findSome?_cons, flatMap_cons, findSome?_append, fromPart_eq, ih]
    cases (candidates part).findSome? (getCustomServerFromConfigString crates) <;> rfl

theorem get_of_whole (hcode : getCustomServerFromConfigString crates code = some v) (hhost : HostFree crates s)
    (h : Whole crates s code) : getCustomServerFromString crates s = .ok v := by
  obtain ⟨before, after, hpieces, hbefore⟩ := h
  rw [getCustomServerFromString, if_pos hhost, findSome?_parts, hpieces, findSome?_append,
    findSome?_eq_none_iff.mpr hbefore, none_or, findSome?_cons, hcode]

theorem whole_or_coincides (h : getCustomServerFromString crates s = .ok v) :
    (HostFree crates s ∧ Whole crates s code) ∨ Coincides crates s code v := by
  by_cases hhost : HostFree crates s
  · rw [getCustomServerFromString, if_pos hhost, findSome?_parts] at h
    cases hfound : (pieces (stem crates s)).findSome? (getCustomServerFromConfigString crates) with
    | none =>
      rw [hfound] at h
      cases h
    | some lic =>
      rw [hfound] at h
      obtain rfl := Except.ok.inj h
      obtain ⟨before, piece, after, hpieces, hpiece, hbefore⟩ := findSome?_eq_some_iff.mp hfound
      by_cases heq : piece = code
      · exact .inl ⟨hhost, before, after, heq ▸ hpieces, hbefore⟩
      · refine .inr (.inr ⟨piece, ?_, heq, hpiece⟩)
        rw [hpieces]
        exact mem_append_right before mem_cons_self
  · rw [getCustomServerFromString, if_neg hhost] at h
    exact .inr (.inl ⟨hhost, h⟩)

end Reading

section Cutting

variable {crates : Crates} {front code rest t : List Char} {suffix : Suffix} {tail : List Char}

/-- A text that stands behind a part does not go on with its word. -/
def Apart (rest : List Char) : Prop := ∀ c, rest.head? = some c → c ∉ licensed

theorem replaceText_free (hfree : ¬ licensed <:+: front) (hrest : Apart rest) :
    replaceText ('-' :: (licensed ++ tail)) "--".toList (front ++ rest) =
      front ++ replaceText ('-' :: (licensed ++ tail)) "--".toList rest :=
  replaceText_append (not_prefix_of_word hrest hfree)

theorem Apart.replaceText {old : List Char} (h : Apart rest) :
    Apart (Lib.replaceText ('-' :: old) "--".toList rest) := by
  intro c hc
  rw [show "--".toList = ['-', '-'] from rfl, head?_replaceText] at hc
  exact h c hc

theorem normalise_eq (s : List Char) : normalise s =
    replaceText ('-' :: (licensed ++ ['-'])) "--".toList (replaceText ('-' :: (licensed ++ ['-', '-'])) "--".toList
      (replaceText ('-' :: (licensed ++ ['-', '-', '-'])) "--".toList s)) := rfl

/-- Without the word, a name is left as it is. -/
theorem normalise_append (hfree : ¬ licensed <:+: front) (hrest : Apart rest) :
    normalise (front ++ rest) = front ++ normalise rest := by
  rw [normalise_eq, normalise_eq, replaceText_free hfree hrest, replaceText_free hfree hrest.replaceText,
    replaceText_free hfree hrest.replaceText.replaceText]

theorem normalise_of_free (hfree : ¬ licensed <:+: front) : normalise front = front := by
  have hnil : Apart [] := by
    intro c hc
    cases hc
  have hall := normalise_append hfree hnil
  rwa [append_nil, show normalise [] = [] from rfl, append_nil] at hall

theorem apart_dash (rest : List Char) : Apart ('-' :: rest) := by
  intro c hc
  obtain rfl := some.inj hc
  decide

/-- Two dashes in front stay there. -/
theorem exists_replaceText_dashes (tail t : List Char) : ∃ t',
    replaceText ('-' :: (licensed ++ tail)) "--".toList ('-' :: '-' :: t) = '-' :: '-' :: t' := by
  have hfirst : ¬ '-' :: (licensed ++ tail) <+: '-' :: '-' :: t := by
    intro hprefix
    exact absurd (cons_prefix_cons.mp (cons_prefix_cons.mp hprefix).2).1 (by decide)
  rw [replaceText_cons hfirst]
  by_cases hsecond : '-' :: (licensed ++ tail) <+: '-' :: t
  · obtain ⟨behind, hbehind⟩ := hsecond
    rw [← hbehind, replaceText_old_append (cons_ne_nil _ _)]
    exact ⟨_, rfl⟩
  · rw [replaceText_cons hsecond]
    exact ⟨_, rfl⟩

theorem exists_normalise_dashes (t : List Char) : ∃ t', normalise ('-' :: '-' :: t) = '-' :: '-' :: t' := by
  obtain ⟨t₃, h₃⟩ := exists_replaceText_dashes ['-', '-', '-'] t
  obtain ⟨t₂, h₂⟩ := exists_replaceText_dashes ['-', '-'] t₃
  obtain ⟨t₁, h₁⟩ := exists_replaceText_dashes ['-'] t₂
  exact ⟨t₁, by rw [normalise_eq, h₃, h₂, h₁]⟩

section Apart

variable (hcode : code ≠ []) (hhead : code.head? ≠ some '-') (hfree : ¬ licensed <:+: code) (hrest : Apart rest)
include hcode hhead hfree hrest

/-- More dashes than the separator has are not found in front of a code. -/
theorem replaceText_licensed :
    replaceText ('-' :: (licensed ++ '-' :: '-' :: tail)) "--".toList ("-licensed-".toList ++ (code ++ rest)) =
      "-licensed-".toList ++ (code ++ replaceText ('-' :: (licensed ++ '-' :: '-' :: tail)) "--".toList rest) := by
  have htext : ∀ behind, "-licensed-".toList ++ behind = '-' :: (licensed ++ ('-' :: behind)) := fun _ => rfl
  have hfirst : ¬ '-' :: (licensed ++ '-' :: '-' :: tail) <+: '-' :: (licensed ++ ('-' :: (code ++ rest))) := by
    intro hprefix
    have hbehind := (prefix_append_right_inj licensed).mp (cons_prefix_cons.mp hprefix).2
    have hdash := (cons_prefix_cons.mp hbehind).2
    cases code with
    | nil => exact hcode rfl
    | cons c code =>
      obtain rfl := (cons_prefix_cons.mp hdash).1
      exact hhead rfl
  have hword : ∀ u v, licensed = u ++ v → v ≠ [] →
      ¬ '-' :: (licensed ++ '-' :: '-' :: tail) <+: v ++ ('-' :: (code ++ rest)) := by
    intro u v huv hv hprefix
    cases v with
    | nil => exact hv rfl
    | cons c v =>
      obtain rfl := (cons_prefix_cons.mp hprefix).1
      have hmem : '-' ∈ licensed := huv ▸ mem_append_right u mem_cons_self
      exact absurd hmem (by decide)
  have hdashFree : ¬ licensed <:+: '-' :: code := by
    intro hinfix
    rcases @infix_append_cons _ licensed [] code '-' (by decide) hinfix with hnil | hinside
    · exact absurd (infix_nil.mp hnil) (by decide)
    · exact hfree hinside
  rw [htext, htext, replaceText_cons hfirst, replaceText_append hword]
  exact congrArg (fun behind => '-' :: (licensed ++ behind)) (replaceText_free hdashFree hrest)

/-- The separator in front of a code becomes the dashes. -/
theorem normalise_licensed :
    normalise ("-licensed-".toList ++ (code ++ rest)) = "--".toList ++ (code ++ normalise rest) := by
  rw [normalise_eq, normalise_eq, replaceText_licensed hcode hhead hfree hrest,
    replaceText_licensed hcode hhead hfree hrest.replaceText]
  have hold : "-licensed-".toList = '-' :: (licensed ++ ['-']) := rfl
  rw [hold, replaceText_old_append (cons_ne_nil _ _), replaceText_free hfree hrest.replaceText.replaceText]

end Apart

/-- A part without the separator that does not end with a dash is cut off in front of one. -/
theorem splitText_dashes (hsep : ¬ "--".toList <:+: front) (hlast : front.getLast? ≠ some '-') (rest : List Char) :
    splitText "--".toList (front ++ '-' :: '-' :: rest) = front :: splitText "--".toList rest := by
  have hrest : splitText "--".toList ('-' :: '-' :: rest) = [] :: splitText "--".toList rest :=
    splitText_sep_append (cons_ne_nil '-' ['-']) rest
  refine splitText_append_of_forall_not hrest fun u v huv hv hprefix => ?_
  change ['-', '-'] <+: v ++ '-' :: '-' :: rest at hprefix
  cases v with
  | nil => exact hv rfl
  | cons c v =>
    obtain rfl := (cons_prefix_cons.mp hprefix).1
    cases v with
    | nil => exact hlast (by rw [huv, getLast?_concat])
    | cons d v =>
      obtain rfl := (cons_prefix_cons.mp (cons_prefix_cons.mp hprefix).2).1
      exact hsep ⟨u, v, by rw [huv, append_assoc]; rfl⟩

theorem splitText_whole (hsep : ¬ "--".toList <:+: front) : splitText "--".toList front = [front] := by
  have hnil : splitText "--".toList ([] : List Char) = [] :: [] := rfl
  have hwhole := @splitText_append_of_forall_not _ _ _ _ front _ hnil fun u v huv _ hprefix => ?_
  · rwa [append_nil] at hwhole
  · rw [append_nil] at hprefix
    exact hsep (huv ▸ hprefix.isInfix.trans (suffix_append u v).isInfix)

end Cutting

section Copies

variable {code : List Char} (numbers : List ℕ)

theorem not_mem_copies (hdigit : c.isDigit = false) (hmark : c ∉ " ()".toList) : c ∉ (copies numbers).letters := by
  intro hmem
  obtain ⟨n, -, hn⟩ := mem_flatMap.mp hmem
  simp only [copyMark, mem_append] at hn
  rcases hn with (hspace | hnumber) | hclose
  · exact hmark (mem_append_left [')'] hspace)
  · rw [Nat.isDigit_of_mem_toDigits (by decide) (by decide) hnumber] at hdigit
    cases hdigit
  · exact hmark (mem_append_right [' ', '('] hclose)

end Copies

section Trimming

variable {s code : List Char}

theorem mem_trim (hc : isWhitespace c = false) (hmem : c ∈ s) : c ∈ trim s := by
  have hkept : c ∈ s.dropWhile isWhitespace := by
    rw [← takeWhile_append_dropWhile (p := isWhitespace) (l := s)] at hmem
    rcases mem_append.mp hmem with hfront | hrest
    · rw [mem_takeWhile_imp hfront] at hc
      cases hc
    · exact hrest
  rw [← rdropWhile_append_rtakeWhile (p := isWhitespace) (l := s.dropWhile isWhitespace)] at hkept
  rcases mem_append.mp hkept with hfront | hback
  · exact hfront
  · rw [mem_rtakeWhile_imp hback] at hc
    cases hc

/-- A text without whitespace is what is left when whitespace stands behind it. -/
theorem trim_append_of_free (hcode : code ≠ []) (hfree : ∀ c ∈ code, isWhitespace c = false) {spaces : List Char}
    (hspaces : ∀ c ∈ spaces, isWhitespace c = true) : trim (code ++ spaces) = code := by
  have hfront : (code ++ spaces).dropWhile isWhitespace = code ++ spaces := by
    cases code with
    | nil => exact absurd rfl hcode
    | cons c code => rw [cons_append, dropWhile_cons_of_neg (by simp [hfree c mem_cons_self])]
  have hself : code.rdropWhile isWhitespace = code :=
    rdropWhile_eq_self_iff.mpr fun hne => by simp [hfree _ (getLast_mem hne)]
  have hback : ∀ spaces : List Char, (∀ c ∈ spaces, isWhitespace c = true) →
      (code ++ spaces).rdropWhile isWhitespace = code := by
    intro spaces hspaces
    induction spaces using reverseRecOn with
    | nil => rw [append_nil, hself]
    | append_singleton spaces c ih =>
      have hc : isWhitespace c = true := hspaces c (mem_append_right spaces mem_cons_self)
      rw [← append_assoc, rdropWhile_concat_pos _ _ _ hc]
      exact ih fun d hd => hspaces d (mem_append_left [c] hd)
  rw [trim, hfront, hback spaces hspaces]

end Trimming

section Stem

variable {crates : Crates} {s body : List Char}

section Lowered

variable {letters : List Char} {parts : List (List Char)} (h : List.Forall₂ Lowers letters parts)
include h

/-- The end of a lower case, read from the back. -/
theorem prefix_of_lowered
    {t : List Char} (ht : ∀ d ∈ t, d ∈ ".exhost=".toList) (hpre : t <+: (parts.map reverse).flatten) :
    ∃ u, u <+: letters ∧ u.map toLower = t := by
  induction h generalizing t with
  | nil => exact ⟨[], nil_prefix, (prefix_nil.mp hpre).symm⟩
  | @cons c part letters parts hc h ih =>
    cases t with
    | nil => exact ⟨[], nil_prefix, rfl⟩
    | cons d t =>
      rw [map_cons, flatten_cons] at hpre
      rw [Lowers] at hc
      split at hc
      · subst hc
        obtain ⟨rfl, hrest⟩ := cons_prefix_cons.mp hpre
        obtain ⟨u, hu, rfl⟩ := ih (fun d hd => ht d (mem_cons_of_mem _ hd)) hrest
        exact ⟨c :: u, cons_prefix_cons.mpr ⟨rfl, hu⟩, rfl⟩
      · obtain ⟨hne, hforeign⟩ := hc
        cases hreverse : part.reverse with
        | nil => exact absurd (reverse_eq_nil_iff.mp hreverse) hne
        | cons e more =>
          rw [hreverse] at hpre
          obtain rfl := (cons_prefix_cons.mp hpre).1
          have hmem : d ∈ part := mem_reverse.mp (hreverse ▸ mem_cons_self)
          exact absurd (ht d mem_cons_self) (hforeign d hmem)

theorem lowered_of_prefix {u : List Char} (hascii : ∀ c ∈ u, c.toNat < 128) (hpre : u <+: letters) :
    u.map toLower <+: (parts.map reverse).flatten := by
  induction h generalizing u with
  | nil => rw [prefix_nil.mp hpre]; exact nil_prefix
  | @cons c part letters parts hc h ih =>
    cases u with
    | nil => exact nil_prefix
    | cons d u =>
      obtain ⟨rfl, hrest⟩ := cons_prefix_cons.mp hpre
      rw [Lowers, if_pos (hascii d mem_cons_self)] at hc
      subst hc
      exact cons_prefix_cons.mpr ⟨rfl, ih (fun c hc => hascii c (mem_cons_of_mem d hc)) hrest⟩

end Lowered

theorem reverse_lower (crates : Crates) (s : List Char) : ∃ parts, List.Forall₂ Lowers s.reverse parts ∧
    (crates.lowercase.lower s).reverse = (parts.map reverse).flatten := by
  obtain ⟨parts, hparts, hlower⟩ := crates.lowercase.lower_eq s
  exact ⟨parts.reverse, forall₂_reverse_iff.mpr hparts, by rw [hlower, reverse_flatten, map_reverse]⟩

theorem suffix_of_lower {t : List Char} (ht : ∀ d ∈ t, d ∈ ".exhost=".toList) (h : t <:+ crates.lowercase.lower s) :
    ∃ u, u <:+ s ∧ u.map toLower = t := by
  obtain ⟨parts, hparts, hlower⟩ := reverse_lower crates s
  have hprefix : t.reverse <+: (parts.map reverse).flatten := hlower ▸ reverse_prefix.mpr h
  obtain ⟨u, hu, hmap⟩ := prefix_of_lowered hparts (fun d hd => ht d (mem_reverse.mp hd)) hprefix
  refine ⟨u.reverse, ?_, ?_⟩
  · rw [← reverse_prefix, reverse_reverse]
    exact hu
  · rw [map_reverse, hmap, reverse_reverse]

theorem lower_of_suffix {u : List Char} (hascii : ∀ c ∈ u, c.toNat < 128) (h : u <:+ s) :
    u.map toLower <:+ crates.lowercase.lower s := by
  obtain ⟨parts, hparts, hlower⟩ := reverse_lower crates s
  have hprefix := lowered_of_prefix hparts (fun c hc => hascii c (mem_reverse.mp hc)) (List.reverse_prefix.mpr h)
  rw [← hlower, map_reverse, reverse_prefix] at hprefix
  exact hprefix

/-- The extension is cut off, and a second one with it. -/
theorem stem_exe (body : List Char) : stem crates (body ++ ".exe".toList) = body ∨
    ∃ e, e.map toLower = ".exe".toList ∧ body = stem crates (body ++ ".exe".toList) ++ e := by
  have hone : ".exe".toList <:+ crates.lowercase.lower (body ++ ".exe".toList) :=
    lower_of_suffix (u := ".exe".toList) (all_iff_forall_prop.mp (by decide)) (suffix_append body _)
  by_cases htwo : ".exe.exe".toList <:+ crates.lowercase.lower (body ++ ".exe".toList)
  · right
    obtain ⟨u, ⟨front, hfront⟩, hu⟩ := suffix_of_lower (all_iff_forall_prop.mp (by decide)) htwo
    have hlength : u.length = 8 := by rw [← length_map (f := toLower), hu]; rfl
    have hsplit : body ++ ".exe".toList = (front ++ u.take 4) ++ u.drop 4 := by
      rw [append_assoc, take_append_drop, hfront]
    have hdrop : (u.drop 4).length = 4 := by rw [length_drop, hlength]
    obtain ⟨hbody, -⟩ := append_inj' hsplit hdrop.symm
    have hlong : (body ++ ".exe".toList).length = front.length + 8 := by
      rw [← hfront, length_append, hlength]
    have hstem : stem crates (body ++ ".exe".toList) = front := by
      rw [stem, if_pos htwo, hlong, Nat.add_sub_cancel, ← hfront, take_left]
    refine ⟨u.take 4, ?_, by rw [hstem, hbody]⟩
    rw [map_take, hu]
    rfl
  · rw [stem, if_neg htwo, if_pos hone, length_append]
    exact .inl take_left

end Stem

section RoundTrip

variable {crates : Crates} {front code : List Char} {sep : Separator} {suffix : Suffix}

/-- What stands behind the code stays apart from it. -/
theorem apart_letters (suffix : Suffix) : Apart suffix.letters := by
  cases suffix with
  | text t => exact apart_dash _
  | copies numbers =>
    cases numbers with
    | nil =>
      intro c hc
      cases hc
    | cons n numbers =>
      intro c hc
      obtain rfl : ' ' = c := some.inj hc
      decide

/-- The separator in front of the code becomes the dashes, and nothing else of both is replaced. -/
theorem normalise_name (h : Separable crates front code suffix) :
    normalise (front ++ sep.text ++ code ++ suffix.letters) =
      front ++ '-' :: '-' :: (code ++ normalise suffix.letters) := by
  have hapart := apart_letters suffix
  cases sep with
  | licensed =>
    have htext : front ++ Separator.licensed.text ++ code ++ suffix.letters =
        front ++ ("-licensed-".toList ++ (code ++ suffix.letters)) := by
      rw [append_assoc, append_assoc]
      rfl
    have hfront : normalise (front ++ ("-licensed-".toList ++ (code ++ suffix.letters))) =
        front ++ normalise ("-licensed-".toList ++ (code ++ suffix.letters)) :=
      normalise_append h.frontWord (apart_dash _)
    rw [htext, hfront, normalise_licensed h.codeNonempty h.codeHead h.codeWord hapart]
    rfl
  | dashes =>
    have htext : front ++ Separator.dashes.text ++ code ++ suffix.letters =
        front ++ (('-' :: '-' :: code) ++ suffix.letters) := by
      rw [append_assoc, append_assoc]
      rfl
    have hfree : ¬ licensed <:+: '-' :: '-' :: code := by
      intro hinfix
      rcases @infix_append_cons _ licensed ['-'] code '-' (by decide) hinfix with hnil | hinside
      · exact absurd hnil (by decide)
      · exact h.codeWord hinside
    have hfront : normalise (front ++ (('-' :: '-' :: code) ++ suffix.letters)) =
        front ++ normalise (('-' :: '-' :: code) ++ suffix.letters) := normalise_append h.frontWord (apart_dash _)
    rw [htext, hfront, normalise_append hfree hapart]
    rfl

/-- Nothing but letters of base64. -/
structure IsCode (code : List Char) : Prop where
  nonempty : code ≠ []
  space : ∀ c ∈ code, isWhitespace c = false
  paren : '(' ∉ code
  dot : '.' ∉ code

theorem candidates_code (h : IsCode code) : candidates code = [code] := by
  have htrim : trim (code ++ []) = code := trim_append_of_free h.nonempty h.space fun c hc => absurd hc not_mem_nil
  rw [append_nil] at htrim
  rw [candidates, htrim, if_neg h.paren]

/-- With marks of copies behind it, the code is the first text in front of a parenthesis. -/
theorem exists_candidates_copies (numbers : List ℕ) (h : IsCode code) : ∃ before after,
    candidates (code ++ (copies numbers).letters) = before ++ code :: after ∧ ∀ piece ∈ before, '(' ∈ piece := by
  cases numbers with
  | nil =>
    have hletters : code ++ (copies []).letters = code := append_nil code
    exact ⟨[], [], by rw [hletters, candidates_code h]; rfl, fun piece hpiece => absurd hpiece not_mem_nil⟩
  | cons n numbers =>
    have hletters : code ++ (copies (n :: numbers)).letters =
        (code ++ [' ']) ++ "(".toList ++ (Nat.toDigits 10 n ++ ")".toList ++ (copies numbers).letters) := by
      simp [letters, copyMark]
    have hmem : '(' ∈ code ++ (copies (n :: numbers)).letters := by
      rw [hletters]
      simp
    have hfirst : '(' ∉ code ++ [' '] := by
      intro hin
      rcases mem_append.mp hin with hin | hin
      · exact h.paren hin
      · exact absurd hin (by decide)
    have htrim : trim (code ++ [' ']) = code :=
      trim_append_of_free h.nonempty h.space (forall_mem_singleton.mpr (by decide))
    obtain ⟨after, hafter⟩ : ∃ after,
        (splitText "(".toList (code ++ (copies (n :: numbers)).letters)).map trim = code :: after := by
      have hsplit := @splitText_append_sep _ _ '(' [] _ hfirst
        (Nat.toDigits 10 n ++ ")".toList ++ (copies numbers).letters)
      have hparts := congrArg (map trim) hsplit
      rw [map_cons, htrim] at hparts
      rw [hletters]
      exact ⟨_, hparts⟩
    refine ⟨[trim (code ++ (copies (n :: numbers)).letters)], after, ?_, ?_⟩
    · rw [candidates, if_pos hmem, hafter]
      rfl
    · intro piece hpiece
      rw [mem_singleton.mp hpiece]
      exact mem_trim (by decide) hmem

/-- The code comes out as a piece behind what is in front of it. -/
theorem exists_pieces (h : Separable crates front code suffix) (hcode : IsCode code) : ∃ before after,
    pieces (front ++ sep.text ++ code ++ suffix.letters) = candidates front ++ before ++ code :: after ∧
      ∀ piece ∈ before, '(' ∈ piece := by
  have hnormal : normalise (front ++ sep.text ++ code ++ suffix.letters) =
      front ++ '-' :: '-' :: (code ++ normalise suffix.letters) := normalise_name h
  rw [pieces, hnormal, splitText_dashes h.frontSep h.frontLast, flatMap_cons]
  cases suffix with
  | text t =>
    obtain ⟨t', ht'⟩ := exists_normalise_dashes t
    have hletters : normalise (text t).letters = '-' :: '-' :: t' := ht'
    rw [hletters, splitText_dashes h.codeSep (h.codeLast t rfl), flatMap_cons, candidates_code hcode]
    exact ⟨[], _, by rw [append_nil]; rfl, fun piece hpiece => absurd hpiece not_mem_nil⟩
  | copies numbers =>
    have hdash : '-' ∉ (copies numbers).letters := not_mem_copies numbers (by decide) (by decide)
    have hfree : ¬ licensed <:+: (copies numbers).letters := by
      intro hin
      exact not_mem_copies numbers (c := 'l') (by decide) (by decide) (hin.subset (by decide))
    have hwhole : ¬ "--".toList <:+: code ++ (copies numbers).letters := by
      intro hinfix
      cases hletters : (copies numbers).letters with
      | nil =>
        rw [hletters, append_nil] at hinfix
        exact h.codeSep hinfix
      | cons c rest =>
        rw [hletters] at hinfix hdash
        have hc : c ∉ "--".toList := by
          intro hmem
          have heq : c = '-' := by simpa using hmem
          exact hdash (heq ▸ mem_cons_self)
        rcases infix_append_cons hc hinfix with hcode' | hrest
        · exact h.codeSep hcode'
        · exact hdash (mem_cons_of_mem c (hrest.subset (by decide)))
    obtain ⟨before, after, hcandidates, hbefore⟩ := exists_candidates_copies numbers hcode
    rw [normalise_of_free hfree, splitText_whole hwhole, flatMap_cons, flatMap_nil, append_nil, hcandidates]
    exact ⟨before, after, (append_assoc _ _ _).symm, hbefore⟩

theorem isCode_codeOf {data : Bytes} (hne : codeOf data ≠ []) : IsCode (codeOf data) := by
  have hletters : ∀ n : Fin 64, isWhitespace (toUrl (Base64.char n)) = false ∧
      toUrl (Base64.char n) ≠ '(' ∧ toUrl (Base64.char n) ≠ '.' := by decide +kernel
  have hall : ∀ c ∈ codeOf data, isWhitespace c = false ∧ c ≠ '(' ∧ c ≠ '.' := fun c hc =>
    forall_mem_encode (P := fun c => isWhitespace c = false ∧ c ≠ '(' ∧ c ≠ '.') hletters data c (mem_reverse.mp hc)
  constructor
  case nonempty => exact hne
  case space => exact fun c hc => (hall c hc).1
  case paren => exact fun hmem => (hall '(' hmem).2.1 rfl
  case dot => exact fun hmem => (hall '.' hmem).2.2 rfl

theorem notCode_of_paren {piece : List Char} (h : '(' ∈ piece) :
    getCustomServerFromConfigString crates piece = none := by
  have hdecode : decode piece.reverse = none :=
    decode_eq_none_of_mem (by decide) (by decide) (mem_reverse.mpr h)
  rw [getCustomServerFromConfigString, hdecode]

theorem eq_dot_of_toLower (h : c.toLower = '.') : c = '.' := by
  unfold toLower at h
  split at h
  case isFalse => exact h
  case isTrue hupper =>
    have hval : (c.val + ('a'.val - 'A'.val)).toNat = ('.' : Char).val.toNat := congrArg (fun d : Char => d.val.toNat) h
    have hlow : ('A' : Char).val.toNat ≤ c.val.toNat := UInt32.le_iff_toNat_le.mp hupper.1
    have hhigh : c.val.toNat ≤ ('Z' : Char).val.toNat := UInt32.le_iff_toNat_le.mp hupper.2
    rw [UInt32.toNat_add] at hval
    simp only [reduceVal, UInt32.reduceSub, UInt32.reduceToNat] at hval hlow hhigh
    omega

/-- An extension in front of the extension belongs to the text behind the code. -/
theorem exists_stem (h : Separable crates front code suffix) (hcode : IsCode code) : ∃ suffix',
    stem crates (fileName front sep code suffix) = front ++ sep.text ++ code ++ suffix'.letters ∧
      Separable crates front code suffix' := by
  obtain hwhole | ⟨e, he, hbody⟩ := @stem_exe crates (front ++ sep.text ++ code ++ suffix.letters)
  · exact ⟨suffix, hwhole, h⟩
  have hdash : '-' ∉ e := by
    intro hmem
    have hlower : toLower '-' ∈ ".exe".toList := he ▸ mem_map_of_mem hmem
    exact absurd hlower (by decide)
  have hdot : '.' ∈ e := by
    have hmem : '.' ∈ e.map toLower := he ▸ mem_cons_self
    obtain ⟨c, hc, hlower⟩ := mem_map.mp hmem
    exact eq_dot_of_toLower hlower ▸ hc
  have hsuffix : e <:+ front ++ sep.text ++ code ++ suffix.letters := ⟨_, hbody.symm⟩
  cases suffix with
  | copies numbers =>
    obtain ⟨sepFront, hsep⟩ : ∃ sepFront, sep.text = sepFront ++ ['-'] := by
      cases sep with
      | licensed => exact ⟨"-licensed".toList, rfl⟩
      | dashes => exact ⟨"-".toList, rfl⟩
    have htext : front ++ sep.text ++ code ++ (copies numbers).letters =
        (front ++ sepFront) ++ '-' :: (code ++ (copies numbers).letters) := by
      rw [hsep]
      simp
    rw [htext] at hsuffix
    rcases mem_append.mp ((suffix_of_append_cons hdash hsuffix).subset hdot) with hin | hin
    · exact absurd hin hcode.dot
    · exact absurd hin (not_mem_copies numbers (by decide) (by decide))
  | text t =>
    have htext : front ++ sep.text ++ code ++ (text t).letters = (front ++ sep.text ++ code ++ ['-']) ++ '-' :: t := by
      simp [letters]
    rw [htext] at hsuffix
    obtain ⟨t', rfl⟩ := suffix_of_append_cons hdash hsuffix
    refine ⟨.text t', ?_, { h with codeLast := fun _ _ => h.codeLast _ rfl }⟩
    have hends : front ++ sep.text ++ code ++ (text (t' ++ e)).letters =
        (front ++ sep.text ++ code ++ (text t').letters) ++ e := by
      simp [letters]
    exact (append_cancel_right (hends.symm.trans hbody)).symm

theorem whole_of_separable (h : Separable crates front code suffix) (hcode : IsCode code) :
    Whole crates (fileName front sep code suffix) code := by
  obtain ⟨suffix', hstem, hsep⟩ := @exists_stem crates front code sep suffix h hcode
  obtain ⟨before, after, hpieces, hbefore⟩ := @exists_pieces crates front code sep suffix' hsep hcode
  refine ⟨candidates front ++ before, after, hstem ▸ hpieces, fun piece hpiece => ?_⟩
  rcases mem_append.mp hpiece with hfront | hparen
  · exact h.frontCodes piece hfront
  · exact notCode_of_paren (hbefore piece hparen)

end RoundTrip

/-- A value is read from the name of a file: the value whose code stands in the name is returned if the name has no
`host=` and the code comes out whole, and in no other case, but for names that happen to give the value in another way.
The code comes out whole if it is no part of a separator, has none in it, and nothing in front of it is a code. -/
theorem customServer_roundTrip (crates : Crates) {v : CustomServer} {data : Bytes} (hdata : Carries crates v data)
    (front : List Char) (sep : Separator) (suffix : Suffix) :
    let code := codeOf data
    let name := fileName front sep code suffix
    (HostFree crates name ∧ Whole crates name code → getCustomServerFromString crates name = .ok v) ∧
      (getCustomServerFromString crates name = .ok v →
        HostFree crates name ∧ Whole crates name code ∨ Coincides crates name code v) ∧
      (Separable crates front code suffix → Whole crates name code) := by
  intro code name
  refine ⟨fun h => get_of_whole (getCustomServerFromConfigString_codeOf hdata) h.1 h.2, whole_or_coincides, fun h => ?_⟩
  exact whole_of_separable h (isCode_codeOf h.codeNonempty)

section Samples

theorem lowers_toLower (c : Char) : Lowers c [c.toLower] := by
  rw [Lowers]
  split
  case isTrue => rfl
  case isFalse hlarge =>
    have hsame : c.toLower = c := by
      unfold toLower
      rw [dif_neg]
      intro hupper
      have hhigh : c.val.toNat ≤ ('Z' : Char).val.toNat := UInt32.le_iff_toNat_le.mp hupper.2
      exact hlarge (Nat.lt_of_le_of_lt hhigh (by decide))
    refine ⟨cons_ne_nil _ _, fun d hd hmem => ?_⟩
    rw [mem_singleton.mp hd, hsame] at hmem
    have hsmall : ∀ d ∈ ".exhost=".toList, d.toNat < 128 := all_iff_forall_prop.mp (by decide)
    exact hlarge (hsmall c hmem)

/-- Lower case of ASCII. -/
def asciiLowercase : Lowercase where
  lower s := s.map toLower
  lower_eq := by
    intro s
    refine ⟨s.map fun c => [c.toLower], ?_, ?_⟩
    · rw [List.forall₂_map_right_iff, List.forall₂_same]
      exact fun c _ => lowers_toLower c
    · induction s with
      | nil => rfl
      | cons c s ih => rw [List.map_cons, List.map_cons, List.flatten_cons, ih]; rfl

/-- What the library writes for a value with a host only. -/
def hostJson (host : String) : Bytes :=
  Utf8.encode ("\x7b\"key\":\"\",\"host\":\"" ++ host ++ "\",\"api\":\"\",\"relay\":\"\"\x7d")

/-- Libraries that read the JSON of this host, and nothing else. -/
def hostCrates (host : String) : Crates where
  lowercase := asciiLowercase
  fromSlice json := if json = hostJson host then some { host } else none
  verify _ := none

theorem carries_hostJson (host : String) : Carries (hostCrates host) { host } (hostJson host) := .plain (if_pos rfl)

theorem customServer_roundTrip_ascii :
    let code := codeOf (hostJson "1.1.1.1")
    let name := fileName "rustdesk".toList .licensed code (.copies [1, 2])
    (HostFree (hostCrates "1.1.1.1") name ∧ Whole (hostCrates "1.1.1.1") name code →
      getCustomServerFromString (hostCrates "1.1.1.1") name = .ok { host := "1.1.1.1" }) ∧
      (getCustomServerFromString (hostCrates "1.1.1.1") name = .ok { host := "1.1.1.1" } →
        HostFree (hostCrates "1.1.1.1") name ∧ Whole (hostCrates "1.1.1.1") name code ∨
          Coincides (hostCrates "1.1.1.1") name code { host := "1.1.1.1" }) ∧
      (Separable (hostCrates "1.1.1.1") "rustdesk".toList code (.copies [1, 2]) →
        Whole (hostCrates "1.1.1.1") name code) :=
  customServer_roundTrip (hostCrates "1.1.1.1") (carries_hostJson "1.1.1.1") "rustdesk".toList .licensed
    (.copies [1, 2])

/-- The code of this host has two dashes in a row, and is cut there. -/
theorem not_customServer_roundTrip : ¬ ∀ (crates : Crates) (v : CustomServer) (data : Bytes), Carries crates v data →
    ∀ (front : List Char) (sep : Separator) (suffix : Suffix), ¬ "--".toList <:+: front → ¬ "host=".toList <:+: front →
      getCustomServerFromConfigString crates front = none →
      getCustomServerFromString crates (fileName front sep (codeOf data) suffix) = .ok v := by
  intro hall
  have hget := hall (hostCrates "aϾ") { host := "aϾ" } (hostJson "aϾ") (carries_hostJson "aϾ") "rustdesk".toList
    .licensed (.copies []) (by decide +kernel) (by decide +kernel) (by decide)
  have hcut : (getCustomServerFromString (hostCrates "aϾ")
      (fileName "rustdesk".toList .licensed (codeOf (hostJson "aϾ")) (.copies []))).isOk = false := by decide +kernel
  rw [hget] at hcut
  cases hcut

end Samples

end CustomServer

end UnyDesk
