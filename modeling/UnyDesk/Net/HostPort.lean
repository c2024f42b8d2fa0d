import UnyDesk.Lib.Decimal
import UnyDesk.Lib.Regex
import UnyDesk.Lib.SplitText

/-!
# Hosts with ports

A server is given as a host name, an IPv4 address or an IPv6 address, with or without a port.
Whether a text is an IPv6 address is decided by a regular expression, which takes groups of
hexadecimal digits between single or double colons, or such groups in brackets with a port.

A host of up to four hexadecimal digits with a port of up to four digits has that form as well.
It is taken for an address of two groups, so it has no port to read or to change.
-/

namespace UnyDesk

open Lib Regex List Bool Option

variable {c : Char}

/-- `\d`: the decimal digits of all scripts. -/
structure DigitClass where
  contains : Char → Bool
  contains_ascii : ∀ c, c.isDigit = true → contains c = true

def DigitClass.ascii : DigitClass := ⟨Char.isDigit, fun _ h => h⟩

/-- `[a-fA-F0-9]` -/
def isHexDigit (c : Char) : Bool := 'a' ≤ c && c ≤ 'f' || 'A' ≤ c && c ≤ 'F' || '0' ≤ c && c ≤ '9'

namespace Ipv6Text

/-- `[a-fA-F0-9]{1,4}` -/
def segment : Regex Char := .oneTo (.chars isHexDigit) 4

/-- `[a-fA-F0-9]{1,4}:{1,2}` -/
def group : Regex Char := .seq segment (.oneTo (.chars (· = ':')) 2)

/-- `([a-fA-F0-9]{1,4}:{1,2})+[a-fA-F0-9]{1,4}` -/
def bare : Regex Char := .seq (.plus group) segment

/-- `\[…\]:\d+` around a bare address -/
def bracketed (digits : DigitClass) : Regex Char :=
  .seq (.chars (· = '[')) (.seq bare (.seq (.chars (· = ']')) (.seq (.chars (· = ':'))
    (.plus (.chars digits.contains)))))

end Ipv6Text

def isIpv6Str (digits : DigitClass) (id : List Char) : Bool :=
  (Regex.alt Ipv6Text.bare (Ipv6Text.bracketed digits)).accepts id

/-- `str::parse::<i32>`. -/
def parseI32 (text : List Char) : Option ℤ :=
  let negative := text.head? = some '-'
  let number := if negative || text.head? = some '+' then text.tail else text
  if number ≠ [] && number.all Char.isDigit then
    let magnitude : ℤ := Nat.ofDigitChars 10 number 0
    let value := if negative then -magnitude else magnitude
    if -(2 ^ 31) ≤ value && value < 2 ^ 31 then some value else none
  else none

/-- `Display` of a number. -/
def showI32 (n : ℤ) : List Char := (toString n).toList

/-- `+` of two `i32`, which wraps around. -/
def addI32 (a b : ℤ) : ℤ := (a + b).bmod (2 ^ 32)

section

variable (digits : DigitClass)

def checkPort (host : List Char) (port : ℤ) : List Char :=
  if isIpv6Str digits host then
    if host.head? = some '[' then host else "[".toList ++ host ++ "]:".toList ++ showI32 port
  else if ':' ∉ host then host ++ ":".toList ++ showI32 port
  else host

def increasePort (host : List Char) (offset : ℤ) : List Char :=
  if isIpv6Str digits host then
    if host.head? = some '[' then
      match splitText "]:".toList host with
      | [address, text] =>
        let port := (parseI32 text).getD 0
        if port > 0 then address ++ "]:".toList ++ showI32 (addI32 port offset) else host
      | _ => host
    else host
  else if ':' ∈ host then
    match splitText ":".toList host with
    | [name, text] =>
      let port := (parseI32 text).getD 0
      if port > 0 then name ++ ":".toList ++ showI32 (addI32 port offset) else host
    | _ => host
  else host

def splitHostPort (host : List Char) : Option (List Char × ℤ) :=
  if isIpv6Str digits host then
    if host.head? = some '[' then
      match splitText "]:".toList host with
      | [address, text] =>
        let port := (parseI32 text).getD 0
        if port > 0 then some (address ++ "]".toList, port) else none
      | _ => none
    else none
  else if ':' ∈ host then
    match splitText ":".toList host with
    | [name, text] =>
      let port := (parseI32 text).getD 0
      if port > 0 then some (name, port) else none
    | _ => none
  else none

end

namespace Ipv6Text

variable {digits : DigitClass} {word host port : List Char}

/-- One to four hexadecimal digits. -/
def IsSegment (word : List Char) : Prop := word ≠ [] ∧ word.length ≤ 4 ∧ ∀ c ∈ word, isHexDigit c = true

instance (word : List Char) : Decidable (IsSegment word) :=
  inferInstanceAs (Decidable (word ≠ [] ∧ word.length ≤ 4 ∧ ∀ c ∈ word, isHexDigit c = true))

theorem matches_segment_iff : segment.Matches word ↔ IsSegment word := matches_oneTo_iff (by decide)

/-- A group ends with one or two colons. -/
theorem matches_group_iff : group.Matches word ↔
    ∃ front, IsSegment front ∧ (word = front ++ [':'] ∨ word = front ++ [':', ':']) := by
  rw [group, matches_seq_iff]
  constructor
  · rintro ⟨front, colons, rfl, hfront, hcolons⟩
    obtain ⟨hne, hlength, hall⟩ := (matches_oneTo_iff (by decide)).mp hcolons
    refine ⟨front, matches_segment_iff.mp hfront, ?_⟩
    have hcolons' : colons = replicate colons.length ':' :=
      eq_replicate_iff.mpr ⟨rfl, fun c hc => of_decide_eq_true (hall c hc)⟩
    have hpos := length_pos_of_ne_nil hne
    obtain hone | htwo : colons.length = 1 ∨ colons.length = 2 := by omega
    · rw [hcolons', hone]
      exact .inl rfl
    · rw [hcolons', htwo]
      exact .inr rfl
  · rintro ⟨front, hfront, rfl | rfl⟩
    · refine ⟨front, _, rfl, matches_segment_iff.mpr hfront, (matches_oneTo_iff (by decide)).mpr ?_⟩
      exact ⟨by decide, by decide, forall_mem_singleton.mpr (by decide)⟩
    · refine ⟨front, _, rfl, matches_segment_iff.mpr hfront, (matches_oneTo_iff (by decide)).mpr ?_⟩
      exact ⟨by decide, by decide, forall_mem_cons.mpr ⟨by decide, forall_mem_singleton.mpr (by decide)⟩⟩

/-- A bare address is one group, further groups and a segment. -/
theorem matches_bare_iff : bare.Matches word ↔
    ∃ (first : List Char) (groups : List (List Char)) (last : List Char), word = first ++ groups.flatten ++ last ∧
      group.Matches first ∧ (∀ g ∈ groups, group.Matches g) ∧ IsSegment last := by
  rw [bare, matches_seq_iff]
  constructor
  · rintro ⟨front, last, rfl, hfront, hlast⟩
    obtain ⟨first, rest, rfl, hfirst, hrest⟩ := matches_seq_iff.mp hfront
    obtain ⟨groups, rfl, hgroups⟩ := matches_star_iff.mp hrest
    exact ⟨first, groups, last, rfl, hfirst, hgroups, matches_segment_iff.mp hlast⟩
  · rintro ⟨first, groups, last, rfl, hfirst, hgroups, hlast⟩
    refine ⟨_, last, rfl, .seq hfirst ?_, matches_segment_iff.mpr hlast⟩
    exact matches_star_iff.mpr ⟨groups, rfl, hgroups⟩

theorem colon_mem_group (h : group.Matches word) : ':' ∈ word := by
  obtain ⟨front, -, rfl | rfl⟩ := matches_group_iff.mp h
  · simp
  · simp

/-- The colon of the first group and what follows it. -/
theorem colon_mem_bare (h : bare.Matches word) : ':' ∈ word := by
  obtain ⟨first, groups, last, rfl, hfirst, -, -⟩ := matches_bare_iff.mp h
  exact mem_append_left _ (mem_append_left _ (colon_mem_group hfirst))

theorem mem_group (h : group.Matches word) (hc : c ∈ word) : isHexDigit c = true ∨ c = ':' := by
  obtain ⟨front, hfront, hword⟩ := matches_group_iff.mp h
  have hmem : c ∈ front ∨ c = ':' := by
    obtain rfl | rfl := hword
    · simpa using hc
    · simpa using hc
  exact hmem.imp_left (hfront.2.2 c)

/-- A bare address has digits and colons only. -/
theorem mem_bare (h : bare.Matches word) (hc : c ∈ word) : isHexDigit c = true ∨ c = ':' := by
  obtain ⟨first, groups, last, rfl, hfirst, hgroups, hlast⟩ := matches_bare_iff.mp h
  rcases mem_append.mp hc with hc | hc
  · rcases mem_append.mp hc with hc | hc
    · exact mem_group hfirst hc
    · obtain ⟨g, hg, hcg⟩ := mem_flatten.mp hc
      exact mem_group (hgroups g hg) hcg
  · exact .inl (hlast.2.2 c hc)

/-- With a single colon there are two segments. -/
theorem matches_bare_colon_iff (hhost : ':' ∉ host) (hport : ':' ∉ port) :
    bare.Matches (host ++ ':' :: port) ↔ IsSegment host ∧ IsSegment port := by
  rw [matches_bare_iff]
  constructor
  · rintro ⟨first, groups, last, hword, hfirst, hgroups, hlast⟩
    obtain ⟨front, hfront, hfirst⟩ := matches_group_iff.mp hfirst
    have hfirst' : ∃ more, first = front ++ ':' :: more ∧ (more = [] ∨ ':' ∈ more) := by
      obtain rfl | rfl := hfirst
      · exact ⟨[], rfl, .inl rfl⟩
      · exact ⟨[':'], rfl, .inr mem_cons_self⟩
    obtain ⟨more, rfl, hmore⟩ := hfirst'
    have hcut : host ++ ':' :: port = front ++ ':' :: (more ++ groups.flatten ++ last) := by
      rw [hword]
      simp
    obtain ⟨rfl, -, rfl⟩ := (append_cons_inj_of_notMem hhost hport).mp hcut
    have hmore' : more = [] := hmore.resolve_right fun hmem =>
      hport (mem_append_left _ (mem_append_left _ hmem))
    have hgroups' : groups = [] := by
      cases groups with
      | nil => rfl
      | cons g groups =>
        refine absurd (colon_mem_group (hgroups g mem_cons_self)) fun hmem => hport ?_
        rw [flatten_cons]
        exact mem_append_left _ (mem_append_right _ (mem_append_left _ hmem))
    rw [hmore', hgroups']
    exact ⟨hfront, hlast⟩
  · rintro ⟨hhost, hport⟩
    refine ⟨host ++ [':'], [], port, by simp, ?_, fun g hg => absurd hg not_mem_nil, hport⟩
    exact matches_group_iff.mpr ⟨host, hhost, .inl rfl⟩

/-- An address in brackets: a bare address and a port of at least one digit. -/
theorem matches_bracketed_iff : (bracketed digits).Matches word ↔
    ∃ address port, word = '[' :: address ++ ']' :: ':' :: port ∧ bare.Matches address ∧
      (Regex.plus (.chars digits.contains)).Matches port := by
  have hchar : ∀ (a : Char) u, (chars (· = a)).Matches u ↔ u = [a] := by
    intro a u
    rw [matches_chars_iff]
    simp
  simp only [bracketed, matches_seq_iff, hchar]
  constructor
  · rintro ⟨_, _, rfl, rfl, address, _, rfl, haddress, _, _, rfl, rfl, _, port, rfl, rfl, hport⟩
    exact ⟨address, port, rfl, haddress, hport⟩
  · rintro ⟨address, port, rfl, haddress, hport⟩
    exact ⟨['['], _, rfl, rfl, address, _, rfl, haddress, [']'], _, rfl, rfl, [':'], port, rfl, rfl, hport⟩

end Ipv6Text

section Classify

variable {digits : DigitClass} {host text address : List Char}

theorem isIpv6Str_iff {word : List Char} :
    isIpv6Str digits word = true ↔ Ipv6Text.bare.Matches word ∨ (Ipv6Text.bracketed digits).Matches word := by
  rw [isIpv6Str, accepts_iff, matches_alt_iff]

theorem isIpv6Str_of_not_colon (h : ':' ∉ host) : isIpv6Str digits host = false := by
  refine eq_false_iff.mpr fun haddress => h ?_
  rcases isIpv6Str_iff.mp haddress with hbare | hbracketed
  · exact Ipv6Text.colon_mem_bare hbare
  · obtain ⟨inner, port, rfl, -, -⟩ := Ipv6Text.matches_bracketed_iff.mp hbracketed
    simp

/-- A text with one colon is taken for an address when both sides are segments. -/
theorem isIpv6Str_colon_iff (hhost : ':' ∉ host) (htext : ':' ∉ text) :
    isIpv6Str digits (host ++ ':' :: text) = true ↔ Ipv6Text.IsSegment host ∧ Ipv6Text.IsSegment text := by
  rw [isIpv6Str_iff, Ipv6Text.matches_bare_colon_iff hhost htext]
  refine or_iff_left ?_
  intro hbracketed
  obtain ⟨inner, port, hword, hinner, -⟩ := Ipv6Text.matches_bracketed_iff.mp hbracketed
  have hone : (host ++ ':' :: text).count ':' = 1 := by
    rw [count_append, count_cons_self, count_eq_zero_of_not_mem hhost, count_eq_zero_of_not_mem htext]
  have hpos := count_pos_iff.mpr (Ipv6Text.colon_mem_bare hinner)
  rw [hword, count_append, count_cons_of_ne (by decide), count_cons_of_ne (by decide), count_cons_self] at hone
  omega

/-- An address that is accepted without brackets is a bare one. -/
theorem bare_of_isIpv6Str (h : isIpv6Str digits address = true) (hhead : address.head? ≠ some '[') :
    Ipv6Text.bare.Matches address := by
  refine (isIpv6Str_iff.mp h).resolve_right fun hbracketed => hhead ?_
  obtain ⟨inner, port, rfl, -, -⟩ := Ipv6Text.matches_bracketed_iff.mp hbracketed
  rfl

end Classify

section Number

variable {p : ℤ}

section

variable (hp : 0 < p)
include hp

theorem showI32_eq : showI32 p = Nat.toDigits 10 p.toNat := by
  obtain ⟨n, rfl⟩ := Int.eq_ofNat_of_zero_le (Int.le_of_lt hp)
  exact Nat.toList_repr

theorem isDigit_of_mem_showI32 (hc : c ∈ showI32 p) : c.isDigit = true := by
  rw [showI32_eq hp] at hc
  exact isDigit_of_mem_digits hc

theorem showI32_ne_nil : showI32 p ≠ [] := by
  rw [showI32_eq hp]
  exact Nat.toDigits_ne_nil

/-- A number is read back from its text. -/
theorem parseI32_showI32 (hp' : p < 2 ^ 31) : parseI32 (showI32 p) = some p := by
  have hn : p.toNat < 2 ^ 31 := by omega
  have hread : parseI32 (Nat.toDigits 10 p.toNat) = some (p.toNat : ℤ) := parseInt_digits hn
  rw [showI32_eq hp, hread, Int.toNat_of_nonneg (Int.le_of_lt hp)]

/-- A port below 10000 is a segment. -/
theorem isSegment_showI32_iff : Ipv6Text.IsSegment (showI32 p) ↔ p < 10000 := by
  have hhex : ∀ c ∈ showI32 p, isHexDigit c = true := by
    intro c hc
    have hdigit := isDigit_of_mem_showI32 hp hc
    simp only [Char.isDigit, and_eq_true, decide_eq_true_eq] at hdigit
    simp only [isHexDigit, or_eq_true, and_eq_true, decide_eq_true_eq]
    exact .inr hdigit
  have hlength : (showI32 p).length ≤ 4 ↔ p < 10000 := by
    rw [showI32_eq hp, Nat.length_toDigits_le_iff (by decide) (by decide)]
    omega
  rw [← hlength]
  exact ⟨fun h => h.2.1, fun h => ⟨showI32_ne_nil hp, h, hhex⟩⟩

end

end Number

/-- How the helpers agree on a host with a port: the port is not added twice, the two are found again, and the port can
be moved. -/
structure HostPortLaws (digits : DigitClass) (host shown : List Char) (p : ℤ) : Prop where
  idempotent : ∀ q, checkPort digits (checkPort digits host p) q = checkPort digits host p
  split : splitHostPort digits (checkPort digits host p) = some (shown, p)
  increase : ∀ offset, increasePort digits (checkPort digits host p) offset = checkPort digits host (addI32 p offset)

section Host

variable {digits : DigitClass} {host : List Char} {p : ℤ}

theorem checkPort_host (hhost : ':' ∉ host) (p : ℤ) : checkPort digits host p = host ++ ':' :: showI32 p := by
  rw [checkPort, isIpv6Str_of_not_colon hhost, if_neg Bool.false_ne_true, if_pos hhost, append_assoc]
  rfl

theorem colon_not_mem_showI32 (hp : 0 < p) : ':' ∉ showI32 p := by
  intro hmem
  exact absurd (isDigit_of_mem_showI32 hp hmem) (by decide)

theorem splitText_host (hhost : ':' ∉ host) (hp : 0 < p) :
    splitText ":".toList (host ++ ':' :: showI32 p) = [host, showI32 p] := by
  have hcut : splitText [':'] (host ++ [':'] ++ showI32 p) = _ := splitText_append_sep hhost (showI32 p)
  rw [append_assoc, splitText_of_not_mem (colon_not_mem_showI32 hp)] at hcut
  exact hcut

/-- Where the text is not taken for an address, the helpers agree. -/
theorem hostPortLaws_of_plain (hhost : ':' ∉ host) (hp : 0 < p) (hp' : p < 2 ^ 31)
    (hplain : isIpv6Str digits (host ++ ':' :: showI32 p) = false) : HostPortLaws digits host host p := by
  have hcolon : ':' ∈ host ++ ':' :: showI32 p := mem_append_right host mem_cons_self
  constructor
  case idempotent =>
    intro q
    rw [checkPort_host hhost, checkPort, hplain, if_neg Bool.false_ne_true, if_neg (not_not.mpr hcolon)]
  case split =>
    rw [checkPort_host hhost, splitHostPort, hplain, if_neg Bool.false_ne_true, if_pos hcolon, splitText_host hhost hp]
    dsimp only
    rw [parseI32_showI32 hp hp', Option.getD_some, if_pos hp]
  case increase =>
    intro offset
    rw [checkPort_host hhost, checkPort_host hhost, increasePort, hplain, if_neg Bool.false_ne_true, if_pos hcolon,
      splitText_host hhost hp]
    dsimp only
    rw [parseI32_showI32 hp hp', Option.getD_some, if_pos hp, append_assoc]
    rfl

/-- Where the text is taken for an address, it is put in brackets with another port. -/
theorem not_hostPortLaws_of_address (hhost : ':' ∉ host) (hsegment : Ipv6Text.IsSegment host)
    (haddress : isIpv6Str digits (host ++ ':' :: showI32 p) = true) : ¬ HostPortLaws digits host host p := by
  intro hlaws
  have hhead : (host ++ ':' :: showI32 p).head? ≠ some '[' := by
    cases host with
    | nil => exact absurd rfl hsegment.1
    | cons c host =>
      intro hhead
      obtain rfl := some.inj hhead
      exact absurd (hsegment.2.2 '[' mem_cons_self) (by decide)
  have hsame := hlaws.idempotent 0
  rw [checkPort_host hhost, checkPort, haddress, if_pos rfl, if_neg hhead] at hsame
  exact hhead (hsame ▸ rfl)

end Host

section Address

variable {digits : DigitClass} {address : List Char} {p : ℤ}
variable (hbare : Ipv6Text.bare.Matches address)
include hbare

theorem checkPort_bare (p : ℤ) : checkPort digits address p = '[' :: address ++ ']' :: ':' :: showI32 p := by
  have hhead : address.head? ≠ some '[' := by
    intro hhead
    rcases Ipv6Text.mem_bare hbare (mem_of_head? hhead) with hhex | hcolon
    · exact absurd hhex (by decide)
    · exact absurd hcolon (by decide)
  rw [checkPort, isIpv6Str_iff.mpr (.inl hbare), if_pos rfl, if_neg hhead, append_assoc]
  rfl

theorem isIpv6Str_bracketed (hp : 0 < p) : isIpv6Str digits ('[' :: address ++ ']' :: ':' :: showI32 p) = true := by
  refine isIpv6Str_iff.mpr (.inr (Ipv6Text.matches_bracketed_iff.mpr ⟨address, showI32 p, rfl, hbare, ?_⟩))
  refine matches_plus_chars (showI32_ne_nil hp) fun c hc => ?_
  exact digits.contains_ascii c (isDigit_of_mem_showI32 hp hc)

theorem splitText_bracketed (hp : 0 < p) :
    splitText "]:".toList ('[' :: address ++ ']' :: ':' :: showI32 p) = ['[' :: address, showI32 p] := by
  have hfront : ']' ∉ '[' :: address := by
    intro hmem
    rcases mem_cons.mp hmem with hopen | hmem
    · exact absurd hopen (by decide)
    · rcases Ipv6Text.mem_bare hbare hmem with hhex | hcolon
      · exact absurd hhex (by decide)
      · exact absurd hcolon (by decide)
  have hback : ']' ∉ showI32 p := by
    intro hmem
    exact absurd (isDigit_of_mem_showI32 hp hmem) (by decide)
  have hcut : splitText [']', ':'] (('[' :: address) ++ [']', ':'] ++ showI32 p) = _ :=
    splitText_append_sep hfront (showI32 p)
  rw [append_assoc, splitText_of_not_mem hback] at hcut
  exact hcut

/-- A bare address gets brackets, and the helpers agree. -/
theorem hostPortLaws_of_bare (hp : 0 < p) (hp' : p < 2 ^ 31) :
    HostPortLaws digits address ('[' :: address ++ [']']) p := by
  constructor
  case idempotent =>
    intro q
    rw [checkPort_bare hbare, checkPort, isIpv6Str_bracketed hbare hp, if_pos rfl]
    exact if_pos rfl
  case split =>
    rw [checkPort_bare hbare, splitHostPort, isIpv6Str_bracketed hbare hp, if_pos rfl, splitText_bracketed hbare hp]
    simp only [cons_append, head?_cons, ↓reduceIte, parseI32_showI32 hp hp', getD_some, if_pos hp]
    rfl
  case increase =>
    intro offset
    rw [checkPort_bare hbare, checkPort_bare hbare, increasePort, isIpv6Str_bracketed hbare hp, if_pos rfl,
      splitText_bracketed hbare hp]
    simp only [cons_append, head?_cons, ↓reduceIte, parseI32_showI32 hp hp', getD_some, if_pos hp]
    simp

end Address

/-- The helpers for every port. On a host name they agree unless both the host and the port are segments of an address,
and on an address without brackets they always do. -/
theorem hostPort_laws (digits : DigitClass) {p : ℤ} (hp : 0 < p) (hp' : p < 65536) : (∀ host, ':' ∉ host →
      (HostPortLaws digits host host p ↔ ¬ (Ipv6Text.IsSegment host ∧ p < 10000))) ∧
      ∀ address, isIpv6Str digits address = true → address.head? ≠ some '[' →
        HostPortLaws digits address ('[' :: address ++ [']']) p := by
  have hrange : p < 2 ^ 31 := by omega
  refine ⟨fun host hhost => ?_, fun address haddress hhead => ?_⟩
  · have hiff : isIpv6Str digits (host ++ ':' :: showI32 p) = true ↔ _ :=
      isIpv6Str_colon_iff hhost (colon_not_mem_showI32 hp)
    rw [isSegment_showI32_iff hp] at hiff
    rw [← hiff]
    constructor
    · intro hlaws haddress
      exact not_hostPortLaws_of_address hhost (hiff.mp haddress).1 haddress hlaws
    · intro hplain
      exact hostPortLaws_of_plain hhost hp hrange (Bool.eq_false_iff.mpr hplain)
  · exact hostPortLaws_of_bare (bare_of_isIpv6Str haddress hhead) hp hrange

theorem hostPort_laws_http :
    HostPortLaws .ascii "abc.com".toList "abc.com".toList 80 ∧ HostPortLaws .ascii "1:2".toList "[1:2]".toList 80 :=
  ⟨((hostPort_laws .ascii (by decide) (by decide)).1 "abc.com".toList (by decide)).mpr (by decide),
    (hostPort_laws .ascii (by decide) (by decide)).2 "1:2".toList (by decide) (by decide)⟩

/-- The text `ab:12` is taken for an address. -/
theorem not_hostPort_laws_hex :
    ¬ ∀ (host : List Char) (p : ℤ), ':' ∉ host → 0 < p → p < 65536 → HostPortLaws .ascii host host p := by
  intro hlaws
  have hsame := (hlaws "ab".toList 12 (by decide) (by decide) (by decide)).idempotent 21
  exact absurd hsame (by decide)

end UnyDesk
