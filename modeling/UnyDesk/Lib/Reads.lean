import UnyDesk.Lib.BufferedReader

/-!
# Streams that arrive in reads

What the reads of a stream give, in the order of the reads: a piece, or an error. A read that asks for less than the
next piece leaves the rest of it to the next read, and behind the last piece every read gives nothing.
-/

namespace UnyDesk.Lib

open List

variable {α : Type*}

abbrev Reads (α : Type*) := List (Except ReadError (List α))

namespace Reads

/-- One read that asks for at most so many elements. -/
def read : Reads α → ℕ → Except ReadError (List α) × Reads α
  | [], _ => (.ok [], [])
  | .error e :: reads, _ => (.error e, reads)
  | .ok piece :: reads, count =>
    if piece.length ≤ count then (.ok piece, reads) else (.ok (piece.take count), .ok (piece.drop count) :: reads)

/-- The reads give this stream and then its end: no read fails and none is empty, though any can be interrupted. -/
def Delivers : Reads α → List α → Prop
  | [], stream => stream = []
  | .error e :: reads, stream => e = .interrupted ∧ Delivers reads stream
  | .ok piece :: reads, stream => piece ≠ [] ∧ ∃ rest, stream = piece ++ rest ∧ Delivers reads rest

variable {reads reads' : Reads α} {stream : List α} {count : ℕ} {e : ReadError}

theorem length_le_of_read {answer : Except ReadError (List α)} (h : reads.read count = (answer, reads')) :
    reads'.length ≤ reads.length := by
  cases reads with
  | nil =>
    cases h
    exact Nat.le_refl 0
  | cons first reads =>
    cases first with
    | error e =>
      cases h
      exact Nat.le_succ _
    | ok piece =>
      rw [Reads.read] at h
      split at h <;> cases h
      · exact Nat.le_succ _
      · exact Nat.le_refl _

theorem length_lt_of_read_error (h : reads.read count = (.error e, reads')) : reads'.length < reads.length := by
  cases reads with
  | nil => cases h
  | cons first reads =>
    cases first with
    | error e =>
      cases h
      exact Nat.lt_succ_self _
    | ok piece =>
      rw [Reads.read] at h
      split at h <;> cases h

section

variable (h : reads.Delivers stream)
include h

/-- A read that finds the end of a stream has given all of it. -/
theorem Delivers.of_end (hcount : 0 < count) (hread : reads.read count = (.ok [], reads')) :
    stream = [] := by
  cases reads with
  | nil => exact h
  | cons first reads =>
    cases first with
    | error e => cases hread
    | ok piece =>
      obtain ⟨hpiece, -⟩ := h
      rw [Reads.read] at hread
      split at hread
      · exact absurd (Except.ok.inj (Prod.mk.inj hread).1) hpiece
      · have htake : piece.take count = [] := Except.ok.inj (Prod.mk.inj hread).1
        rcases take_eq_nil_iff.mp htake with hzero | hnil
        · exact absurd hzero hcount.ne'
        · exact absurd hnil hpiece

/-- A read gives the next elements of a stream, not more than it asked for. -/
theorem Delivers.of_piece {piece : List α} (hread : reads.read count = (.ok piece, reads'))
    (hpiece : piece ≠ []) : ∃ rest, stream = piece ++ rest ∧ piece.length ≤ count ∧ reads'.Delivers rest := by
  cases reads with
  | nil =>
    cases hread
    exact absurd rfl hpiece
  | cons first reads =>
    cases first with
    | error e => cases hread
    | ok whole =>
      obtain ⟨-, rest, rfl, hrest⟩ := h
      rw [Reads.read] at hread
      split at hread
      · rename_i hfits
        cases hread
        exact ⟨rest, rfl, hfits, hrest⟩
      · rename_i hlong
        cases hread
        have hleft : whole.drop count ≠ [] := by
          rw [Ne, drop_eq_nil_iff]
          exact hlong
        refine ⟨whole.drop count ++ rest, ?_, length_take_le count whole, hleft, rest, rfl, hrest⟩
        rw [← append_assoc, take_append_drop]

/-- The only error is an interruption, and it loses nothing. -/
theorem Delivers.of_error (hread : reads.read count = (.error e, reads')) :
    e = .interrupted ∧ reads'.Delivers stream := by
  cases reads with
  | nil => cases hread
  | cons first reads =>
    cases first with
    | error e =>
      cases hread
      exact h
    | ok piece =>
      rw [Reads.read] at hread
      split at hread <;> cases hread

end

end Reads

end UnyDesk.Lib
