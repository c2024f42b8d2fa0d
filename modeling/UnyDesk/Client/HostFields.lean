import UnyDesk.Client.CustomServer

/-!
# The fields in the name of a file

Behind `host=` a name has fields between commas. The place of `host=` is found in the lower case of
the name and counted in bytes, but the name itself is cut there. Lower case can have more or fewer
bytes than the letters it is made of, and the name is cut somewhere else then: inside of a letter,
where the cut panics, or so that `host=` is no longer at the beginning of a field.
-/

namespace UnyDesk.CustomServer

open Lib List Char

variable {s : List Char}

/-- The tables of Unicode that `str::to_lowercase` reads. -/
structure CaseTable where
  /-- `char::to_lowercase` -/
  toLower : Char → List Char
  cased : Char → Bool
  caseIgnorable : Char → Bool
  lowers : ∀ c, Lowers c (toLower c)

namespace CaseTable

variable (table : CaseTable)

/-- The next letter that is not ignored is one with a case. -/
def casedNext (s : List Char) : Bool :=
  match s.dropWhile table.caseIgnorable with
  | [] => false
  | c :: _ => table.cased c

/-- A letter with those in front of it, the last one first, and those behind it. -/
def lowerLetter (before : List Char) (c : Char) (after : List Char) : List Char :=
  if c = 'Σ' then if table.casedNext before && !table.casedNext after then ['ς'] else ['σ'] else table.toLower c

def lowerIn (before : List Char) : List Char → List Char → List Char
  | [], _ => []
  | c :: s, after => table.lowerLetter before c (s ++ after) ++ lowerIn (c :: before) s after

/-- `str::to_lowercase` -/
def lower (s : List Char) : List Char := table.lowerIn [] s []

theorem lowers_lowerLetter (before : List Char) (c : Char) (after : List Char) :
    Lowers c (table.lowerLetter before c after) := by
  rw [lowerLetter]
  split
  case isFalse => exact table.lowers c
  case isTrue hsigma =>
    have hlarge : ¬ c.toNat < 128 := by
      rw [hsigma]
      decide
    rw [Lowers, if_neg hlarge]
    split
    · exact ⟨by decide, forall_iff_forall_mem.mp (by decide)⟩
    · exact ⟨by decide, forall_iff_forall_mem.mp (by decide)⟩

theorem exists_lowerIn (before s after : List Char) :
    ∃ parts, List.Forall₂ Lowers s parts ∧ table.lowerIn before s after = parts.flatten := by
  induction s generalizing before with
  | nil => exact ⟨[], .nil, rfl⟩
  | cons c s ih =>
    obtain ⟨parts, hparts, hlower⟩ := ih (c :: before)
    refine ⟨table.lowerLetter before c (s ++ after) :: parts, .cons (table.lowers_lowerLetter _ _ _) hparts, ?_⟩
    rw [lowerIn, hlower, flatten_cons]

def lowercase : Lowercase := ⟨table.lower, fun s => table.exists_lowerIn [] s []⟩

theorem lowerIn_append (before s s' after : List Char) : table.lowerIn before (s ++ s') after =
    table.lowerIn before s (s' ++ after) ++ table.lowerIn (s.reverse ++ before) s' after := by
  induction s generalizing before with
  | nil => rfl
  | cons c s ih =>
    rw [cons_append, lowerIn, lowerIn, ih, append_assoc s s' after, append_assoc, reverse_cons, append_assoc]
    rfl

/-- ASCII is lowered letter by letter. -/
theorem lowerIn_ascii (h : ∀ c ∈ s, c.toNat < 128) (before after : List Char) :
    table.lowerIn before s after = s.map Char.toLower := by
  induction s generalizing before with
  | nil => rfl
  | cons c s ih =>
    have hletter := table.lowers_lowerLetter before c (s ++ after)
    rw [Lowers, if_pos (h c mem_cons_self)] at hletter
    rw [lowerIn, hletter, ih fun d hd => h d (mem_cons_of_mem c hd)]
    rfl

end CaseTable

section Bytes

def byteSize (s : List Char) : ℕ := (String.ofList s).utf8ByteSize

theorem byteSize_append (s s' : List Char) : byteSize (s ++ s') = byteSize s + byteSize s' := by
  rw [byteSize, String.ofList_append, String.utf8ByteSize_append]
  rfl

theorem byteSize_cons (c : Char) (s : List Char) : byteSize (c :: s) = c.utf8Size + byteSize s := by
  have hone : byteSize [c] = c.utf8Size := by
    rw [byteSize]
    exact String.utf8ByteSize_singleton
  rw [← singleton_append, byteSize_append, hone]

theorem eq_nil_of_byteSize (h : byteSize s = 0) : s = [] := by
  cases s with
  | nil => rfl
  | cons c s =>
    have hpos := c.utf8Size_pos
    rw [byteSize_cons] at h
    omega

/-- A text is cut behind as many bytes, if a letter ends there. -/
theorem fromByte_eq_some_iff {n : ℕ} {s rest : List Char} :
    fromByte n s = some rest ↔ ∃ front, s = front ++ rest ∧ byteSize front = n := by
  induction s generalizing n with
  | nil =>
    cases n with
    | zero =>
      constructor
      · rintro h
        exact ⟨[], Option.some.inj h, rfl⟩
      · rintro ⟨front, heq, hsize⟩
        rw [eq_nil_of_byteSize hsize] at heq
        rw [fromByte, heq]
        rfl
    | succ n =>
      refine iff_of_false nofun ?_
      rintro ⟨front, heq, hsize⟩
      rw [(append_eq_nil_iff.mp heq.symm).1] at hsize
      cases hsize
  | cons c s ih =>
    cases n with
    | zero =>
      constructor
      · rintro h
        exact ⟨[], Option.some.inj h, rfl⟩
      · rintro ⟨front, heq, hsize⟩
        rw [eq_nil_of_byteSize hsize] at heq
        rw [fromByte, heq]
        rfl
    | succ n =>
      constructor
      · intro h
        rw [fromByte] at h
        split at h
        case isFalse => cases h
        case isTrue hle =>
          obtain ⟨front, rfl, hsize⟩ := ih.mp h
          refine ⟨c :: front, rfl, ?_⟩
          rw [byteSize_cons]
          omega
      · rintro ⟨front, heq, hsize⟩
        cases front with
        | nil => cases hsize
        | cons d front =>
          obtain ⟨rfl, hrest⟩ := cons.inj heq
          rw [byteSize_cons] at hsize
          rw [fromByte, if_pos (by omega)]
          exact ih.mpr ⟨front, hrest, by omega⟩

/-- The bytes of a lower case do not depend on what stands around the letters. -/
theorem byteSize_lowerIn (table : CaseTable) (before s after : List Char) :
    byteSize (table.lowerIn before s after) = byteSize (table.lower s) := by
  have hletter : ∀ before after before' after' c,
      byteSize (table.lowerLetter before c after) = byteSize (table.lowerLetter before' c after') := by
    intro before after before' after' c
    unfold CaseTable.lowerLetter
    split
    · split <;> split <;> rfl
    · rfl
  have hall : ∀ before before' after', byteSize (table.lowerIn before s after) =
      byteSize (table.lowerIn before' s after') := by
    induction s with
    | nil => exact fun _ _ _ => rfl
    | cons c s ih =>
      intro before before' after'
      rw [CaseTable.lowerIn, CaseTable.lowerIn, byteSize_append, byteSize_append, ih (c :: before) (c :: before') after',
        hletter before (s ++ after) before' (s ++ after') c]
  exact hall before [] []

end Bytes

section Model

inductive Field
  | host
  | key
  | api
  | relay
deriving DecidableEq

def Field.keyword : Field → List Char
  | .host => "host=".toList
  | .key => "key=".toList
  | .api => "api=".toList
  | .relay => "relay=".toList

/-- A name with fields behind a front, with the letters of the keywords as they are written. -/
def hostName (front : List Char) (words values : Field → List Char) (order : List Field) : List Char :=
  front ++ (Field.host :: order).flatMap (fun f => words f ++ values f ++ ",".toList) ++ ".exe".toList

def serverOf (values : Field → List Char) : CustomServer where
  key := String.ofList (values .key)
  host := String.ofList (values .host)
  api := String.ofList (values .api)
  relay := String.ofList (values .relay)

/-- No `host=`, in any case. -/
def NoHost (s : List Char) : Prop := ∀ word, word <:+: s → word.map toLower ≠ Field.host.keyword

variable (table : CaseTable) (fromSlice : Bytes → Option CustomServer) (verify : Bytes → Option Bytes)

def CaseTable.crates : Crates := ⟨table.lowercase, fromSlice, verify⟩

/-- All names with this front give the values that are written in them. -/
def ReadsFields (front : List Char) : Prop :=
  ∀ (words values : Field → List Char) (order : List Field), (∀ f, (words f).map toLower = f.keyword) →
    (∀ f, ',' ∉ values f) → order.Perm [.key, .api, .relay] →
    getCustomServerFromString (table.crates fromSlice verify) (hostName front words values order) =
      .ok (serverOf values)

/-- The lower case in front of `host=`. -/
def hostFront (s : List Char) : List Char :=
  (splitText Field.host.keyword (table.lower s)).head (splitText_ne_nil _ _)

/-- The place of `host=` in the lower case of the name is the beginning of a letter in the name. -/
def OnBoundary (s : List Char) : Prop :=
  let name := stem (table.crates fromSlice verify) s
  ∃ front rest, name = front ++ rest ∧ byteSize front = byteSize (hostFront table name)

/-- The front has as many bytes in lower case, or it ends with a comma and one of its letters begins where its lower case
ends, counted in bytes. -/
def Aligned (front : List Char) : Prop :=
  ∃ start rest, front = start ++ rest ∧ byteSize start = byteSize (table.lower front) ∧
    (rest = [] ∨ ∃ rest', rest = rest' ++ [','])

end Model

section Reading

variable {table : CaseTable} {crates : Crates} {words values : Field → List Char} {order : List Field}
  {fromSlice : Bytes → Option CustomServer} {verify : Bytes → Option Bytes} {parts : List (List Char)}
  {word s t : List Char}

def setField (server : CustomServer) (f : Field) (value : String) : CustomServer :=
  match f with
  | .host => { server with host := value }
  | .key => { server with key := value }
  | .api => { server with api := value }
  | .relay => { server with relay := value }

theorem Lowers.reverse {c : Char} {part : List Char} (h : Lowers c part) : Lowers c part.reverse := by
  unfold Lowers at h ⊢
  split
  case isTrue hascii =>
    rw [if_pos hascii] at h
    rw [h]
    rfl
  case isFalse hlarge =>
    rw [if_neg hlarge] at h
    exact ⟨mt reverse_eq_nil_iff.mp h.1, fun d hd => h.2 d (mem_reverse.mp hd)⟩

/-- The beginning of a lower case. -/
theorem prefix_of_parts (hparts : List.Forall₂ Lowers s parts)
    (ht : ∀ d ∈ t, d ∈ ".exhost=".toList) (h : t <+: parts.flatten) :
    ∃ word, word <+: s ∧ word.map toLower = t := by
  have hreversed : List.Forall₂ Lowers s (parts.map reverse) :=
    forall₂_map_right_iff.mpr (hparts.imp fun _ _ hc => hc.reverse)
  have htwice : (parts.map reverse).map reverse = parts := by
    rw [map_map]
    exact (map_congr_left fun part _ => reverse_reverse part).trans (map_id parts)
  refine prefix_of_lowered hreversed ht ?_
  rw [htwice]
  exact h

/-- A text does not begin among letters that it does not begin with. -/
theorem infix_of_foreign {d : Char} {t front rest : List Char} (hfront : d ∉ front) (h : d :: t <:+: front ++ rest) :
    d :: t <:+: rest := by
  induction front with
  | nil => exact h
  | cons c front ih =>
    rcases infix_cons_iff.mp h with hprefix | hrest
    · obtain ⟨rfl, -⟩ := cons_prefix_cons.mp hprefix
      exact absurd mem_cons_self hfront
    · exact ih (fun hmem => hfront (mem_cons_of_mem c hmem)) hrest

/-- What stands in a lower case stands in the text. -/
theorem infix_of_parts {d : Char} (hparts : List.Forall₂ Lowers s parts)
    (ht : ∀ c ∈ d :: t, c ∈ ".exhost=".toList) (h : d :: t <:+: parts.flatten) :
    ∃ word, word <:+: s ∧ word.map toLower = d :: t := by
  induction hparts with
  | nil => exact absurd (infix_nil.mp h) (cons_ne_nil d t)
  | @cons c part s parts hc hparts ih =>
    have hlater : d :: t <:+: parts.flatten → ∃ word, word <:+: c :: s ∧ word.map toLower = d :: t := by
      intro hrest
      obtain ⟨word, hword, hmap⟩ := ih hrest
      exact ⟨word, infix_cons_iff.mpr (.inr hword), hmap⟩
    have hletter := hc
    rw [Lowers] at hletter
    split at hletter
    case isTrue =>
      subst hletter
      rcases infix_cons_iff.mp h with hprefix | hrest
      · obtain ⟨word, hword, hmap⟩ := prefix_of_parts (.cons hc hparts) ht hprefix
        exact ⟨word, hword.isInfix, hmap⟩
      · exact hlater hrest
    case isFalse =>
      exact hlater (infix_of_foreign (fun hmem => hletter.2 d hmem (ht d mem_cons_self)) h)

theorem toNat_lt_of_word {word keyword : List Char} (hword : word.map toLower = keyword)
    (hkeyword : ∀ d ∈ keyword, d.toNat < 128) : ∀ c ∈ word, c.toNat < 128 := by
  intro c hc
  have hlower : c.toLower.toNat < 128 := hkeyword _ (hword ▸ mem_map_of_mem hc)
  unfold toLower at hlower
  split at hlower
  case isTrue hupper =>
    have hhigh : c.val.toNat ≤ ('Z' : Char).val.toNat := UInt32.le_iff_toNat_le.mp hupper.2
    exact Nat.lt_of_le_of_lt hhigh (by decide)
  case isFalse => exact hlower

theorem toNat_lt_of_keyword (f : Field) : ∀ d ∈ f.keyword, d.toNat < 128 := by
  cases f <;> exact all_iff_forall_prop.mp (by decide)

/-- A keyword at the beginning is found in every case. -/
theorem keyword_prefix_lower {f : Field} (hword : word.map Char.toLower = f.keyword)
    (value : List Char) : f.keyword <+: table.lower (word ++ value) := by
  have hascii := toNat_lt_of_word hword (toNat_lt_of_keyword f)
  rw [CaseTable.lower, CaseTable.lowerIn_append, CaseTable.lowerIn_ascii table hascii, hword]
  exact prefix_append _ _

theorem eq_of_keywords {f g : Field} (hf : f.keyword <+: s) (hg : g.keyword <+: s) : g = f := by
  have hhead : ∀ f : Field, f.keyword <+: s → s.head? = f.keyword.head? := by
    rintro f ⟨rest, rfl⟩
    cases f <;> rfl
  have heads := (hhead g hg).symm.trans (hhead f hf)
  cases f <;> cases g <;> first | rfl | exact absurd heads (by decide)

/-- A field is read as what stands behind its keyword. -/
theorem readElement_field
    {f : Field} (hword : word.map toLower = f.keyword) (value : List Char) (server : CustomServer) :
    readElement (table.crates fromSlice verify) server (word ++ value) = setField server f (String.ofList value) := by
  have hbegins : ∀ g : Field, g.keyword <+: table.lower (word ++ value) ↔ g = f := fun g =>
    ⟨eq_of_keywords (keyword_prefix_lower hword value), fun heq => heq ▸ keyword_prefix_lower hword value⟩
  have hlength : word.length = f.keyword.length := by rw [← hword, length_map]
  have hdrop : (word ++ value).drop f.keyword.length = value := drop_left' hlength
  have hhost : "host=".toList <+: table.lower (word ++ value) ↔ Field.host = f := hbegins .host
  have hkey : "key=".toList <+: table.lower (word ++ value) ↔ Field.key = f := hbegins .key
  have hapi : "api=".toList <+: table.lower (word ++ value) ↔ Field.api = f := hbegins .api
  have hrelay : "relay=".toList <+: table.lower (word ++ value) ↔ Field.relay = f := hbegins .relay
  have hlower : (table.crates fromSlice verify).lowercase.lower = table.lower := rfl
  cases f <;> simp only [readElement, hlower, hhost, hkey, hapi, hrelay, reduceCtorEq, if_false, if_true]
  all_goals
    refine Eq.trans ?_ (congrArg (fun text => setField server _ (String.ofList text)) hdrop)
    rfl

section

variable (server : CustomServer)

theorem readElement_nil : readElement (table.crates fromSlice verify) server [] = server := rfl

def getField : Field → String
  | .host => server.host
  | .key => server.key
  | .api => server.api
  | .relay => server.relay

theorem getField_setField (f g : Field) (value : String) :
    getField (setField server f value) g = if g = f then value else getField server g := by
  cases f <;> cases g <;> rfl

end

theorem eq_of_getField {server server' : CustomServer} (h : ∀ f, getField server f = getField server' f) :
    server = server' := by
  obtain ⟨key, host, api, relay⟩ := server
  obtain ⟨key', host', api', relay'⟩ := server'
  obtain rfl : key = key' := h .key
  obtain rfl : host = host' := h .host
  obtain rfl : api = api' := h .api
  obtain rfl : relay = relay' := h .relay
  rfl

theorem getField_serverOf (f : Field) : getField (serverOf values) f = String.ofList (values f) := by
  cases f <;> rfl

/-- Of what was read before, the fields that follow leave nothing. -/
theorem getField_foldl (fields : List Field) (server : CustomServer) (g : Field) :
    getField (fields.foldl (fun server f => setField server f (String.ofList (values f))) server) g =
      if g ∈ fields then String.ofList (values g) else getField server g := by
  induction fields generalizing server with
  | nil => rfl
  | cons f fields ih =>
    rw [foldl_cons, ih, getField_setField]
    by_cases hg : g = f
    · rw [hg, if_pos rfl, ite_self, if_pos mem_cons_self]
    · rw [if_neg hg]
      simp only [mem_cons, hg, false_or]

end Reading

section Cutting

variable {table : CaseTable} {fromSlice : Bytes → Option CustomServer} {verify : Bytes → Option Bytes}
  {words values : Field → List Char} {order : List Field} {front : List Char}

/-- The fields, each with a comma behind it. -/
def fieldsText (words values : Field → List Char) (fields : List Field) : List Char :=
  fields.flatMap fun f => words f ++ values f ++ ",".toList

section Words

variable (hwords : ∀ f, (words f).map toLower = f.keyword)
include hwords

theorem comma_not_mem_word (f : Field) : ',' ∉ words f := by
  intro hmem
  have hlower : toLower ',' ∈ f.keyword := hwords f ▸ mem_map_of_mem hmem
  cases f <;> exact absurd hlower (by decide)

theorem splitText_fieldsText (hvalues : ∀ f, ',' ∉ values f) (fields : List Field) :
    splitText ",".toList (fieldsText words values fields) = (fields.map fun f => words f ++ values f) ++ [[]] := by
  induction fields with
  | nil => rfl
  | cons f fields ih =>
    have hfree : ',' ∉ words f ++ values f := by
      rw [mem_append, not_or]
      exact ⟨comma_not_mem_word hwords f, hvalues f⟩
    have hcut := @splitText_append_sep _ _ ',' [] _ hfree (fieldsText words values fields)
    exact hcut.trans (congrArg _ ih)

theorem foldl_fieldsText (hvalues : ∀ f, ',' ∉ values f)
    (horder : order.Perm [.key, .api, .relay]) (server : CustomServer) :
    (splitText ",".toList (fieldsText words values (.host :: order))).foldl
      (readElement (table.crates fromSlice verify)) server = serverOf values := by
  rw [splitText_fieldsText hwords hvalues, foldl_append, foldl_cons, foldl_nil, readElement_nil, foldl_map]
  have hfields : ∀ (server : CustomServer) (f : Field),
      readElement (table.crates fromSlice verify) server (words f ++ values f) =
        setField server f (String.ofList (values f)) := fun server f => readElement_field (hwords f) (values f) server
  simp only [hfields]
  refine eq_of_getField fun g => ?_
  have hmem : g ∈ Field.host :: order := by
    rw [mem_cons, horder.mem_iff]
    cases g <;> decide
  rw [getField_foldl, if_pos hmem, getField_serverOf]

end Words

theorem stem_hostName : stem (table.crates fromSlice verify) (hostName front words values order) =
      front ++ fieldsText words values (.host :: order) := by
  obtain hwhole | ⟨e, he, hbody⟩ := @stem_exe (table.crates fromSlice verify)
    (front ++ fieldsText words values (.host :: order))
  · exact hwhole
  obtain hnil | ⟨fields, f, hfields⟩ := eq_nil_or_concat' (Field.host :: order)
  · cases hnil
  obtain rfl | ⟨e', c, rfl⟩ := eq_nil_or_concat' e
  · cases he
  have hlast : front ++ fieldsText words values (.host :: order) =
      (front ++ fieldsText words values fields ++ words f ++ values f) ++ [','] := by
    rw [hfields, fieldsText, flatMap_append, flatMap_singleton, fieldsText]
    simp only [append_assoc]
    rfl
  rw [hlast, ← append_assoc] at hbody
  obtain rfl : ',' = c := singleton_inj.mp (append_inj_right' hbody rfl)
  have hcomma := congrArg getLast? he
  rw [map_append, map_singleton, getLast?_concat] at hcomma
  exact absurd hcomma (by decide)

end Cutting

section Finding

variable {table : CaseTable} {fromSlice : Bytes → Option CustomServer} {verify : Bytes → Option Bytes}
  {word front rest : List Char}

theorem hostKeyword_letters : ∀ d ∈ Field.host.keyword, d ∈ ".exhost=".toList :=
  forall_iff_forall_mem.mp (by decide)

theorem hostKeyword_eq : Field.host.keyword = 'h' :: "ost=".toList := by decide

theorem lower_host (hword : word.map Char.toLower = Field.host.keyword) : ∃ behind,
    table.lower (front ++ (word ++ rest)) =
      table.lowerIn [] front (word ++ rest) ++ (Field.host.keyword ++ behind) := by
  have hascii := toNat_lt_of_word hword (toNat_lt_of_keyword .host)
  refine ⟨table.lowerIn (word.reverse ++ (front.reverse ++ [])) rest [], ?_⟩
  rw [CaseTable.lower, CaseTable.lowerIn_append, CaseTable.lowerIn_append table _ word rest,
    CaseTable.lowerIn_ascii table hascii, hword, append_nil]

/-- The first `host=` of the lower case is the one of the name. -/
theorem hostFront_eq (hfront : NoHost front) (hword : word.map toLower = Field.host.keyword) :
    hostFront table (front ++ (word ++ rest)) = table.lowerIn [] front (word ++ rest) := by
  obtain ⟨behind, hlower⟩ := @lower_host table word front rest hword
  obtain ⟨parts, hparts, hfrontLower⟩ := table.exists_lowerIn [] front (word ++ rest)
  have hsplit : splitText Field.host.keyword (table.lower (front ++ (word ++ rest))) =
      table.lowerIn [] front (word ++ rest) :: splitText Field.host.keyword behind := by
    rw [hlower]
    refine splitText_append_of_forall_not (splitText_sep_append (by decide) behind) ?_
    intro u v huv hv hprefix
    rcases prefix_append_cases hprefix with hinside | ⟨tail, htail, hne, hbehind⟩
    · have hinfix : Field.host.keyword <:+: parts.flatten := by
        rw [← hfrontLower, huv]
        exact hinside.isInfix.trans (suffix_append u v).isInfix
      obtain ⟨found, hfound, hmap⟩ := infix_of_parts hparts hostKeyword_letters hinfix
      exact hfront found hfound hmap
    · -- the rest of the keyword would have to begin with its first letter
      cases v with
      | nil => exact hv rfl
      | cons c v =>
        cases tail with
        | nil => exact hne rfl
        | cons d tail =>
          rw [hostKeyword_eq] at htail hbehind
          obtain rfl : d = 'h' := (cons_prefix_cons.mp hbehind).1
          have htext : "ost=".toList = v ++ 'h' :: tail := (cons.inj htail).2
          have hmem : 'h' ∈ "ost=".toList := htext ▸ mem_append_right v mem_cons_self
          exact absurd hmem (by decide)
  unfold hostFront
  simp only [hsplit, head_cons]

/-- In a name there is no other `host=` up to where no letter can begin one. -/
theorem eq_front_of_host {x p y : List Char} (hfront : NoHost front) (hrest : ∀ c ∈ rest, c.toLower ≠ 'h')
    (heq : front ++ (Field.host.keyword ++ rest) = x ++ (p ++ y)) (hp : p.map toLower = Field.host.keyword) :
    x = front := by
  rcases append_eq_append_iff.mp heq with ⟨more, rfl, hbehind⟩ | ⟨more, rfl, hbehind⟩
  · cases more with
    | nil => exact append_nil front
    | cons b more =>
      -- it would begin behind the `h`
      cases p with
      | nil => cases hp
      | cons c p =>
        have hc : c.toLower = 'h' := (cons.inj hp).1
        rw [hostKeyword_eq] at hbehind
        have htext : "ost=".toList ++ rest = more ++ (c :: p ++ y) := (cons.inj hbehind).2
        have hmem : c ∈ "ost=".toList ++ rest := htext ▸ mem_append_right more mem_cons_self
        rcases mem_append.mp hmem with hin | hin
        · have hnone : ∀ c ∈ "ost=".toList, c.toLower ≠ 'h' := forall_iff_forall_mem.mp (by decide)
          exact absurd hc (hnone c hin)
        · exact absurd hc (hrest c hin)
  · rcases append_eq_append_iff.mp hbehind.symm with ⟨q, rfl, hq⟩ | ⟨q, rfl, -⟩
    · obtain rfl | ⟨q', z, rfl⟩ := eq_nil_or_concat' q
      · rw [append_nil] at hp
        exact absurd hp (hfront more (suffix_append x more).isInfix)
      · -- it would end in front of the `=`
        have hlast : (more ++ q').map toLower ++ [z.toLower] = "host".toList ++ ['='] := by
          rw [← map_singleton, ← map_append, append_assoc]
          exact hp
        have hz : z.toLower = '=' := singleton_inj.mp (append_inj_right' hlast rfl)
        have hlength := congrArg length hp
        rw [length_map, length_append, length_append] at hlength
        cases more with
        | nil => exact append_nil x |>.symm
        | cons b more =>
          have hshort : (q' ++ [z]).length ≤ "host".toList.length := by
            simp [Field.keyword] at hlength ⊢
            omega
          have hbegins : q' ++ [z] <+: "host".toList :=
            prefix_of_prefix_length_le ⟨y, hq.symm⟩ ⟨'=' :: rest, rfl⟩ hshort
          have hnone : ∀ c ∈ "host".toList, c.toLower ≠ '=' := forall_iff_forall_mem.mp (by decide)
          exact absurd hz (hnone z (hbegins.subset (mem_append_right q' mem_cons_self)))
    · have hinfix : p <:+: x ++ (p ++ q) := ⟨x, q, append_assoc x p q⟩
      exact absurd hp (hfront p hinfix)

end Finding

section Fields

variable {table : CaseTable} {fromSlice : Bytes → Option CustomServer} {verify : Bytes → Option Bytes}
  {words values : Field → List Char} {order : List Field} {front : List Char}

theorem fromHost_eq (s : List Char) : fromHost (table.crates fromSlice verify) s =
    match fromByte (byteSize (hostFront table s)) s with
    | none => .error .panicked
    | some stripped => .ok ((splitText ",".toList stripped).foldl (readElement (table.crates fromSlice verify)) {}) :=
  rfl

/-- A name is cut where its front ends in lower case. -/
theorem get_hostName (hfront : NoHost front) (hwords : ∀ f, (words f).map toLower = f.keyword) :
    getCustomServerFromString (table.crates fromSlice verify) (hostName front words values order) =
      match fromByte (byteSize (table.lower front)) (front ++ fieldsText words values (.host :: order)) with
      | none => .error .panicked
      | some stripped =>
        .ok ((splitText ",".toList stripped).foldl (readElement (table.crates fromSlice verify)) {}) := by
  have hstem := @stem_hostName table fromSlice verify words values order front
  obtain ⟨behind, hfields⟩ : ∃ behind, fieldsText words values (.host :: order) = words .host ++ behind :=
    ⟨values .host ++ ",".toList ++ fieldsText words values order, by simp [fieldsText]⟩
  obtain ⟨lowered, hlower⟩ := @lower_host table _ front behind (hwords .host)
  have hfound : ¬ HostFree (table.crates fromSlice verify) (hostName front words values order) := by
    rw [HostFree, not_not, hstem, hfields]
    exact ⟨_, lowered, (append_assoc _ _ _).trans hlower.symm⟩
  rw [getCustomServerFromString, if_neg hfound, hstem, fromHost_eq, hfields, hostFront_eq hfront (hwords .host),
    byteSize_lowerIn]

theorem readsFields_of_aligned (hfront : NoHost front) (h : Aligned table front) :
    ReadsFields table fromSlice verify front := by
  intro words values order hwords hvalues horder
  obtain ⟨start, rest, hsplit, hsize, hrest⟩ := h
  have hcut : fromByte (byteSize (table.lower front)) (front ++ fieldsText words values (.host :: order)) =
      some (rest ++ fieldsText words values (.host :: order)) :=
    fromByte_eq_some_iff.mpr ⟨start, by rw [hsplit, append_assoc], hsize⟩
  rw [get_hostName hfront hwords, hcut]
  refine congrArg Except.ok ?_
  rcases hrest with rfl | ⟨rest', rfl⟩
  · exact foldl_fieldsText hwords hvalues horder {}
  · have hpieces : splitText ",".toList (rest' ++ [','] ++ fieldsText words values (.host :: order)) =
        splitText ",".toList rest' ++ splitText ",".toList (fieldsText words values (.host :: order)) := by
      rw [append_assoc]
      exact splitText_append_cons ',' rest' _
    rw [hpieces, foldl_append]
    exact foldl_fieldsText hwords hvalues horder _

/-- Without a field for it, the host is left as it was. -/
theorem host_foldl {elements : List (List Char)} (server : CustomServer)
    (h : ∀ el ∈ elements, ¬ Field.host.keyword <+: table.lower el) :
    (elements.foldl (readElement (table.crates fromSlice verify)) server).host = server.host := by
  induction elements generalizing server with
  | nil => rfl
  | cons el elements ih =>
    have hel : ¬ "host=".toList <+: (table.crates fromSlice verify).lowercase.lower el := h el mem_cons_self
    rw [foldl_cons, ih _ fun el' hel' => h el' (mem_cons_of_mem el hel'), readElement, if_neg hel]
    repeat' split
    all_goals rfl

/-- A name of a host and three empty fields. -/
def sampleValues : Field → List Char
  | .host => ['a']
  | _ => []

theorem aligned_of_readsFields (hfront : NoHost front) (h : ReadsFields table fromSlice verify front) :
    Aligned table front := by
  have hwords : ∀ f : Field, f.keyword.map toLower = f.keyword := by
    intro f
    cases f <;> decide
  have hvalues : ∀ f, ',' ∉ sampleValues f := by
    intro f
    cases f <;> decide
  have hread := h Field.keyword sampleValues [.key, .api, .relay] hwords hvalues (List.Perm.refl _)
  rw [get_hostName hfront hwords] at hread
  cases hcut : fromByte (byteSize (table.lower front)) (front ++ fieldsText Field.keyword sampleValues
      [.host, .key, .api, .relay]) with
  | none =>
    rw [hcut] at hread
    cases hread
  | some stripped =>
    rw [hcut] at hread
    have hserver := Except.ok.inj hread
    obtain ⟨el, hel, hkeyword⟩ : ∃ el ∈ splitText ",".toList stripped, Field.host.keyword <+: table.lower el := by
      by_contra hnone
      have hhost := @host_foldl table fromSlice verify (splitText ",".toList stripped) {}
        fun el hel hkeyword => hnone ⟨el, hel, hkeyword⟩
      rw [hserver] at hhost
      exact absurd hhost (by decide)
    obtain ⟨before, after, rfl, hbefore⟩ := exists_of_mem_splitText hel
    obtain ⟨parts, hparts, hlower⟩ := table.exists_lowerIn [] el []
    obtain ⟨word, ⟨tail, rfl⟩, hword⟩ := prefix_of_parts hparts hostKeyword_letters (hlower ▸ hkeyword)
    obtain ⟨start, hname, hsize⟩ := fromByte_eq_some_iff.mp hcut
    have hrest : ∀ c ∈ "a,key=,api=,relay=,".toList, c.toLower ≠ 'h' := forall_iff_forall_mem.mp (by decide)
    have hplace : front ++ (Field.host.keyword ++ "a,key=,api=,relay=,".toList) =
        (start ++ before) ++ (word ++ (tail ++ after)) := by
      simp only [append_assoc] at hname ⊢
      exact hname
    exact ⟨start, before, (eq_front_of_host hfront hrest hplace hword).symm, hsize, hbefore⟩

/-- A cut panics inside of a letter, and nowhere else. -/
theorem panicked_iff (s : List Char) : getCustomServerFromString (table.crates fromSlice verify) s ≠ .error .panicked ↔
      HostFree (table.crates fromSlice verify) s ∨ OnBoundary table fromSlice verify s := by
  by_cases hhost : HostFree (table.crates fromSlice verify) s
  · refine iff_of_true ?_ (.inl hhost)
    rw [getCustomServerFromString, if_pos hhost]
    split <;> (intro h; cases h)
  · rw [getCustomServerFromString, if_neg hhost, fromHost_eq, or_iff_right hhost]
    have hcut := @fromByte_eq_some_iff (byteSize (hostFront table (stem (table.crates fromSlice verify) s)))
      (stem (table.crates fromSlice verify) s)
    cases hbyte : fromByte (byteSize (hostFront table (stem (table.crates fromSlice verify) s)))
        (stem (table.crates fromSlice verify) s) with
    | none =>
      refine iff_of_false (fun hne => hne rfl) ?_
      rintro ⟨front, rest, hsplit, hsize⟩
      cases hbyte.symm.trans (hcut.mpr ⟨front, hsplit, hsize⟩)
    | some stripped =>
      obtain ⟨front, hsplit, hsize⟩ := hcut.mp hbyte
      refine iff_of_true (fun hread => ?_) ⟨front, stripped, hsplit, hsize⟩
      cases hread

end Fields

/-- A name with `host=` is read without a panic exactly when the place of `host=` in lower case is the beginning of a
letter of the name. All names with a front give the fields that are written in them exactly when the front has as many
bytes in lower case, or ends with a comma and has a letter that begins where its lower case ends. -/
theorem hostNames_iff (table : CaseTable) (fromSlice : Bytes → Option CustomServer) (verify : Bytes → Option Bytes) :
    (∀ s, getCustomServerFromString (table.crates fromSlice verify) s ≠ .error .panicked ↔
      HostFree (table.crates fromSlice verify) s ∨ OnBoundary table fromSlice verify s) ∧
      ∀ front, NoHost front → (ReadsFields table fromSlice verify front ↔ Aligned table front) :=
  ⟨panicked_iff, fun _ hfront => ⟨aligned_of_readsFields hfront, readsFields_of_aligned hfront⟩⟩

section Samples

/-- ASCII and two letters of Unicode: the Kelvin sign, which becomes `k`, and the capital I with a dot, which becomes an
`i` with a dot behind it. -/
def sampleTable : CaseTable where
  toLower c := if c = '\u212a' then ['k'] else if c = '\u0130' then ['i', '\u0307'] else [c.toLower]
  cased c := c.isAlpha || c = '\u212a' || c = '\u0130'
  caseIgnorable c := c = '.' || c = '\u0307'
  lowers c := by
    by_cases hkelvin : c = '\u212a'
    · rw [if_pos hkelvin, hkelvin, Lowers, if_neg (by decide)]
      exact ⟨by decide, forall_iff_forall_mem.mp (by decide)⟩
    · rw [if_neg hkelvin]
      by_cases hdotted : c = '\u0130'
      · rw [if_pos hdotted, hdotted, Lowers, if_neg (by decide)]
        exact ⟨by decide, forall_iff_forall_mem.mp (by decide)⟩
      · rw [if_neg hdotted]
        exact lowers_toLower c

theorem noHost_sample : NoHost "rustdesk-".toList := by
  rintro word ⟨front, rest, heq⟩ hword
  have hmem : '=' ∈ word.map toLower := hword ▸ (by decide)
  obtain ⟨c, hc, hlower⟩ := mem_map.mp hmem
  have hnone : ∀ c ∈ "rustdesk-".toList, c.toLower ≠ '=' := forall_iff_forall_mem.mp (by decide)
  exact hnone c (heq ▸ mem_append_left rest (mem_append_right front hc)) hlower

theorem hostNames_iff_sample :
    (∀ s, getCustomServerFromString (sampleTable.crates (fun _ => none) fun _ => none) s ≠ .error .panicked ↔
      HostFree (sampleTable.crates (fun _ => none) fun _ => none) s ∨
        OnBoundary sampleTable (fun _ => none) (fun _ => none) s) ∧
      (ReadsFields sampleTable (fun _ => none) (fun _ => none) "rustdesk-".toList ↔
        Aligned sampleTable "rustdesk-".toList) :=
  have h := hostNames_iff sampleTable (fun _ => none) fun _ => none
  ⟨h.1, h.2 "rustdesk-".toList noHost_sample⟩

/-- The Kelvin sign has three bytes and its lower case has one, so the name is cut inside of the sign. -/
theorem not_hostNames_kelvin : ¬ ∀ (table : CaseTable) (fromSlice : Bytes → Option CustomServer)
    (verify : Bytes → Option Bytes),
    (∀ s, getCustomServerFromString (table.crates fromSlice verify) s ≠ .error .panicked) ∧
      ∀ front, NoHost front → ReadsFields table fromSlice verify front := by
  intro h
  refine (h sampleTable (fun _ => none) fun _ => none).1 ("\u212ahost=a.exe".toList) ?_
  decide +kernel

end Samples

end UnyDesk.CustomServer
