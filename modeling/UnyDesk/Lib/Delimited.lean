import Mathlib.Data.List.Basic

/-!
# Length-delimited fields

A field is a tag byte, the length of its content as a varint and the content. A record is a list of
fields, of which the last one with a tag counts and empty ones are left out.
-/

namespace UnyDesk.Lib.Delimited

open List UInt8

variable {tag tag' : UInt8}

/-- Groups of seven bits, the lowest first, with the high bit set on all but the last; `fuel` is more
than the number of groups. -/
def varintAux : ℕ → ℕ → List UInt8
  | 0, _ => []
  | fuel + 1, n => if n < 128 then [ofNat n] else ofNat (n % 128 + 128) :: varintAux fuel (n / 128)

def varint (n : ℕ) : List UInt8 := varintAux (n + 1) n

def readVarint : List UInt8 → Option (ℕ × List UInt8)
  | [] => none
  | b :: bytes =>
    if b.toNat < 128 then some (b.toNat, bytes)
    else (readVarint bytes).map fun found => (b.toNat - 128 + 128 * found.1, found.2)

theorem readVarint_varintAux {fuel n : ℕ} (h : n < fuel) (rest : List UInt8) :
    readVarint (varintAux fuel n ++ rest) = some (n, rest) := by
  have hsize : size = 256 := rfl
  induction fuel generalizing n with
  | zero => omega
  | succ fuel ih =>
    rw [varintAux]
    split
    next hsmall =>
      have hbyte : (ofNat n).toNat = n := toNat_ofNat_of_lt' (by omega)
      simp [readVarint, hbyte, hsmall]
    next hlarge =>
      have hbyte : (ofNat (n % 128 + 128)).toNat = n % 128 + 128 := toNat_ofNat_of_lt' (by omega)
      have hmore : ¬ n % 128 + 128 < 128 := by omega
      have hvalue : n % 128 + 128 - 128 + 128 * (n / 128) = n := by omega
      rw [cons_append, readVarint, hbyte, if_neg hmore, ih (by omega), Option.map_some, hvalue]

def field (tag : UInt8) (content : List UInt8) : List UInt8 := tag :: varint content.length ++ content

def readField : List UInt8 → Option (UInt8 × List UInt8 × List UInt8)
  | [] => none
  | tag :: bytes =>
    (readVarint bytes).bind fun (n, bytes) =>
      if n ≤ bytes.length then some (tag, bytes.take n, bytes.drop n) else none

theorem readField_field (tag : UInt8) (content rest : List UInt8) :
    readField (field tag content ++ rest) = some (tag, content, rest) := by
  have hread : readVarint (varint content.length ++ (content ++ rest)) = some (content.length, content ++ rest) :=
    readVarint_varintAux (Nat.lt_succ_self _) _
  rw [field, append_assoc, cons_append, readField, hread]
  simp

def fields (record : List (UInt8 × List UInt8)) : List UInt8 := record.flatMap fun f => field f.1 f.2

def readFields : ℕ → List UInt8 → Option (List (UInt8 × List UInt8))
  | _, [] => some []
  | 0, _ :: _ => none
  | fuel + 1, bytes =>
    (readField bytes).bind fun (tag, content, rest) => (readFields fuel rest).map ((tag, content) :: ·)

theorem readFields_fields {record : List (UInt8 × List UInt8)} {fuel : ℕ} (h : record.length ≤ fuel) :
    readFields fuel (fields record) = some record := by
  induction record generalizing fuel with
  | nil => cases fuel <;> rfl
  | cons f record ih =>
    cases fuel with
    | zero => exact absurd h (by simp)
    | succ fuel =>
      have hcons : fields (f :: record) = field f.1 f.2 ++ fields record := rfl
      rw [hcons]
      cases hbytes : field f.1 f.2 ++ fields record with
      | nil => exact nomatch hbytes
      | cons tag bytes =>
        rw [readFields, ← hbytes, readField_field]
        · simp [ih (Nat.le_of_succ_le_succ h)]
        · nofun

theorem length_le_length_fields (record : List (UInt8 × List UInt8)) : record.length ≤ (fields record).length := by
  induction record with
  | nil => exact Nat.zero_le _
  | cons f record ih =>
    have hcons : fields (f :: record) = field f.1 f.2 ++ fields record := rfl
    rw [hcons, length_append, length_cons, field, length_append, length_cons]
    omega

/-- The fields of a text. -/
def read (bytes : List UInt8) : Option (List (UInt8 × List UInt8)) := readFields bytes.length bytes

@[simp] theorem read_fields (record : List (UInt8 × List UInt8)) : read (fields record) = some record :=
  readFields_fields (length_le_length_fields record)

/-- A field that is left out when it is empty. -/
def optional (tag : UInt8) (content : List UInt8) : List (UInt8 × List UInt8) :=
  if content = [] then [] else [(tag, content)]

/-- The content of the last field with a tag. -/
def content (record : List (UInt8 × List UInt8)) (tag : UInt8) : List UInt8 :=
  ((record.filter (·.1 = tag)).getLast?.map (·.2)).getD []

theorem content_optional (tag : UInt8) (bytes : List UInt8) : content (optional tag bytes) tag = bytes := by
  unfold optional
  split
  next h => simp [content, h]
  next => simp [content]

theorem content_fst (h : tag ≠ tag') (bytes bytes' : List UInt8) :
    content (optional tag bytes ++ optional tag' bytes') tag = bytes := by
  have hskip : (optional tag' bytes').filter (·.1 = tag) = [] := by
    unfold optional
    split <;> simp [h.symm]
  rw [content, filter_append, hskip, append_nil]
  exact content_optional tag bytes

theorem content_snd (h : tag ≠ tag') (bytes bytes' : List UInt8) :
    content (optional tag bytes ++ optional tag' bytes') tag' = bytes' := by
  have hskip : (optional tag bytes).filter (·.1 = tag') = [] := by
    unfold optional
    split <;> simp [h]
  rw [content, filter_append, hskip, nil_append]
  exact content_optional tag' bytes'

end UnyDesk.Lib.Delimited
