import Mathlib.Algebra.Group.Nat.Defs
import Mathlib.Data.List.Infix

/-!
# Readers with a buffer

A reader takes bytes of a file ahead and hands them out later. The system may refuse a read, interrupt it, or
give fewer bytes than it was asked for. Wherever a reader stands and however its reads go, what it hands out in
one piece are the next bytes of the file.
-/

namespace UnyDesk.Lib

open List

inductive ReadError
  | interrupted
  | other (text : String)

/-- How the system answers one read: with an error, or with at most one byte more than the limit. -/
abbrev SysAnswer := Except ReadError ℕ

/-- The system read of some bytes; it gives at least one where there is one. -/
def sysRead (content : List UInt8) (filePos count : ℕ) (answer : SysAnswer) : Except ReadError (List UInt8) :=
  answer.map fun limit => (content.drop filePos).take (min count (limit + 1))

/-- `BufReader`: where the next read of the file starts, and the bytes before it that nobody has taken yet. -/
structure BufReader where
  filePos : ℕ
  buffer : List UInt8

namespace BufReader

/-- The position of the next byte that is handed out. -/
def pos (r : BufReader) : ℕ := r.filePos - r.buffer.length

/-- A reader of a file that was just opened. -/
def start : BufReader := ⟨0, []⟩

/-- `seek`, from the start; an offset is sent to the system as an `i64`. -/
def seekStart (fails : Option String) (offset : ℕ) : Except String BufReader :=
  if 2 ^ 63 ≤ offset then .error "Invalid argument"
  else
    match fails with
    | some e => .error e
    | none => .ok ⟨offset, []⟩

/-- `fill_buf`. -/
def fillBuf (content : List UInt8) (capacity : ℕ) (answer : SysAnswer) (r : BufReader) : Except ReadError BufReader :=
  if r.buffer = [] then
    (sysRead content r.filePos capacity answer).map fun block => ⟨r.filePos + block.length, block⟩
  else .ok r

/-- `read`, past the buffer where it would not hold more than is asked for. -/
def read (content : List UInt8) (capacity : ℕ) (answer : SysAnswer) (r : BufReader) (length : ℕ) :
    Except ReadError (List UInt8 × BufReader) :=
  if r.buffer = [] ∧ capacity ≤ length then
    (sysRead content r.filePos length answer).map fun chunk => (chunk, ⟨r.filePos + chunk.length, []⟩)
  else
    (r.fillBuf content capacity answer).map fun r =>
      (r.buffer.take length, { r with buffer := r.buffer.drop length })

/-- `default_read_exact`. The reads take the answers of the system in turn, and one that has no answer left is
not cut short. -/
def readExactLoop (content : List UInt8) (capacity : ℕ) (answers : List SysAnswer) (r : BufReader) (length : ℕ)
    (filled : List UInt8) : Except String (List UInt8 × BufReader) :=
  if length = 0 then .ok (filled, r)
  else
    match r.read content capacity (answers.headD (.ok length)) length with
    | .error .interrupted =>
      match answers with
      | [] => .error "interrupted"
      | _ :: later => readExactLoop content capacity later r length filled
    | .error (.other e) => .error e
    | .ok ([], _) => .error "failed to fill whole buffer"
    | .ok (b :: chunk, r) =>
      readExactLoop content capacity answers.tail r (length - (chunk.length + 1)) (filled ++ b :: chunk)
termination_by answers.length + length
decreasing_by all_goals simp_wf; try omega

/-- `read_exact`. -/
def readExact (content : List UInt8) (capacity : ℕ) (answers : List SysAnswer) (r : BufReader) (length : ℕ) :
    Except String (List UInt8 × BufReader) :=
  if length ≤ r.buffer.length then .ok (r.buffer.take length, { r with buffer := r.buffer.drop length })
  else r.readExactLoop content capacity answers length []

/-- A reader of the file that stands at a position. -/
structure At (r : BufReader) (content : List UInt8) (p : ℕ) : Prop where
  filePos : r.filePos = p + r.buffer.length
  buffer : r.buffer <+: content.drop p

section Position

variable {content : List UInt8} {capacity : ℕ} {answer : SysAnswer} {r r' : BufReader} {p length : ℕ}
  {answers : List SysAnswer}

theorem At.pos_eq (h : r.At content p) : r.pos = p := by
  rw [pos, h.filePos, Nat.add_sub_cancel]

theorem at_start : start.At content 0 := ⟨rfl, nil_prefix⟩

/-- Bytes that follow one another are bytes of the file. -/
theorem append_isPrefix {A : Type*} {first second all : List A} (hfirst : first <+: all)
    (hsecond : second <+: all.drop first.length) : first ++ second <+: all := by
  obtain ⟨rest, rfl⟩ := hfirst
  rw [drop_left] at hsecond
  exact (prefix_append_right_inj first).mpr hsecond

/-- What is left of some bytes lies behind those that are taken. -/
theorem drop_isPrefix {A : Type*} {bytes all : List A} (h : bytes <+: all) (n : ℕ) :
    bytes.drop n <+: all.drop (bytes.take n).length := by
  obtain ⟨rest, rfl⟩ := h
  rw [length_take]
  by_cases hn : n ≤ bytes.length
  · rw [Nat.min_eq_left hn, drop_append_of_le_length hn]
    exact prefix_append _ _
  · rw [drop_eq_nil_of_le (Nat.le_of_not_le hn)]
    exact nil_prefix

theorem at_seekStart {fails : Option String} {offset : ℕ} (h : seekStart fails offset = .ok r) :
    r.At content offset := by
  unfold seekStart at h
  split at h
  · cases h
  · split at h
    · cases h
    · cases h
      exact ⟨rfl, nil_prefix⟩

theorem isPrefix_of_sysRead {count : ℕ} {bytes : List UInt8} (h : sysRead content p count answer = .ok bytes) :
    bytes <+: content.drop p ∧ bytes.length ≤ count := by
  cases answer with
  | error e => cases h
  | ok limit =>
    cases h
    constructor
    · exact take_prefix _ _
    · rw [length_take]
      omega

section

variable (h : r.At content p)
include h

theorem At.fillBuf (hfill : r.fillBuf content capacity answer = .ok r') : r'.At content p := by
  unfold BufReader.fillBuf at hfill
  split at hfill
  next hempty =>
    cases hread : sysRead content r.filePos capacity answer with
    | error e =>
      rw [hread] at hfill
      cases hfill
    | ok block =>
      rw [hread] at hfill
      cases hfill
      have hpos : r.filePos = p := by
        rw [h.filePos, hempty]
        rfl
      rw [hpos] at hread ⊢
      exact ⟨rfl, (isPrefix_of_sysRead hread).1⟩
  next =>
    cases hfill
    exact h

/-- One read hands out bytes of the file and stands behind them. -/
theorem At.read {chunk : List UInt8} (hread : r.read content capacity answer length = .ok (chunk, r')) :
    chunk <+: content.drop p ∧ chunk.length ≤ length ∧ r'.At content (p + chunk.length) := by
  unfold BufReader.read at hread
  split at hread
  next hempty =>
    have hpos : r.filePos = p := by
      rw [h.filePos, hempty.1]
      rfl
    cases hsys : sysRead content r.filePos length answer with
    | error e =>
      rw [hsys] at hread
      cases hread
    | ok bytes =>
      rw [hsys] at hread
      cases hread
      rw [hpos] at hsys ⊢
      have hbytes := isPrefix_of_sysRead hsys
      exact ⟨hbytes.1, hbytes.2, rfl, nil_prefix⟩
  next =>
    cases hfill : r.fillBuf content capacity answer with
    | error e =>
      rw [hfill] at hread
      cases hread
    | ok filled =>
      have hfilled := h.fillBuf hfill
      rw [hfill] at hread
      cases hread
      have hrest := drop_isPrefix hfilled.buffer length
      rw [drop_drop] at hrest
      constructor
      · exact (List.take_prefix length filled.buffer).trans hfilled.buffer
      · constructor
        · rw [length_take]
          exact Nat.min_le_left _ _
        · constructor
          · have hpos := hfilled.filePos
            simp only [length_take, length_drop]
            omega
          · exact hrest

/-- The loop appends as many bytes as are missing, and they are the next ones. -/
theorem At.readExactLoop {filled out : List UInt8}
    (hread : r.readExactLoop content capacity answers length filled = .ok (out, r')) :
    ∃ data, out = filled ++ data ∧ data <+: content.drop p ∧ data.length = length ∧ r'.At content (p + length) := by
  revert hread
  fun_induction BufReader.readExactLoop content capacity answers r length filled generalizing p with
  | case1 answers r filled =>
    intro hread
    cases hread
    exact ⟨[], (append_nil _).symm, nil_prefix, rfl, h⟩
  | case2 => nofun
  | case3 r length filled hlength answer later hinterrupted ih => exact ih h
  | case4 => nofun
  | case5 => nofun
  | case6 answers r length filled hlength b chunk r₁ hchunk ih =>
    intro hread
    obtain ⟨hbytes, hle, hat⟩ := h.read hchunk
    obtain ⟨data, hout, hdata, hcount, hend⟩ := ih hat hread
    rw [length_cons] at hle hat hend hdata
    refine ⟨b :: chunk ++ data, ?_, ?_, ?_, ?_⟩
    · rw [hout, append_assoc]
    · apply append_isPrefix hbytes
      rw [drop_drop]
      exact hdata
    · rw [length_append, length_cons, hcount]
      omega
    · have hsum : p + length = p + (chunk.length + 1) + (length - (chunk.length + 1)) := by omega
      rw [hsum]
      exact hend

/-- A reader fills a buffer with the next bytes of the file, or fails. -/
theorem At.readExact {data : List UInt8} (hread : r.readExact content capacity answers length = .ok (data, r')) :
    data <+: content.drop p ∧ data.length = length ∧ r'.At content (p + length) := by
  unfold BufReader.readExact at hread
  split at hread
  next hlength =>
    cases hread
    have hrest := drop_isPrefix h.buffer length
    have htaken : (r.buffer.take length).length = length := length_take_of_le hlength
    rw [htaken, drop_drop] at hrest
    have hpos := h.filePos
    refine ⟨(List.take_prefix _ _).trans h.buffer, htaken, ?_, hrest⟩
    simp only [length_drop]
    omega
  next =>
    obtain ⟨bytes, hout, hbytes⟩ := h.readExactLoop hread
    rw [nil_append] at hout
    rw [hout]
    exact hbytes

end

end Position

end BufReader

end UnyDesk.Lib
