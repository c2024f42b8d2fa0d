import UnyDesk.Lib.Utf8Code
import UnyDesk.Terminal.BufferedLines

/-!
# What a client that comes back is sent again

A client that comes back gets the newest whole lines that fit, or the end of the newest one if that alone does not fit.
Where the output was text the replay is text: the lines are cut behind newlines or where a chunk began, and a line that
is too long is cut before the next character.
-/

namespace UnyDesk

open Lib Lib.Lines Lib.Utf8 List

namespace OutputBuffer

section Slices

variable {maxBytes size : ℕ} {bytes : Bytes}

theorem skipContinuation_suffix (n : ℕ) (bytes : Bytes) : skipContinuation n bytes <:+ bytes := by
  induction n generalizing bytes with
  | zero => exact suffix_rfl
  | succ n ih =>
    cases bytes with
    | nil => exact suffix_rfl
    | cons b bytes =>
      rw [skipContinuation]
      split
      · exact (ih bytes).trans (suffix_cons b bytes)
      · exact suffix_rfl

/-- Continuation bytes before something else are skipped. -/
theorem skipContinuation_append {right rest : Bytes} {n : ℕ} (hlength : right.length ≤ n)
    (hright : ∀ b ∈ right, b &&& 0xC0 = 0x80) (hrest : ∀ b ∈ rest.head?, b &&& 0xC0 ≠ 0x80) :
    skipContinuation n (right ++ rest) = rest := by
  induction right generalizing n with
  | nil =>
    cases n with
    | zero => rfl
    | succ n =>
      cases rest with
      | nil => rfl
      | cons b rest => rw [nil_append, skipContinuation, if_neg (hrest b rfl)]
  | cons b right ih =>
    obtain ⟨hb, hright⟩ := forall_mem_cons.mp hright
    cases n with
    | zero => exact absurd hlength (Nat.not_succ_le_zero _)
    | succ n =>
      rw [cons_append, skipContinuation, if_pos hb]
      exact ih (Nat.le_of_succ_le_succ hlength) hright

/-- A text that is cut anywhere is a text behind the continuation bytes. -/
theorem valid_skipContinuation (h : Valid bytes) (n : ℕ) : Valid (skipContinuation 3 (bytes.drop n)) := by
  rw [← take_append_drop n bytes] at h
  obtain ⟨right, rest, hdrop, hrest, hlength, hright, hbegins⟩ := h.of_suffix
  rwa [hdrop, skipContinuation_append hlength hright hbegins]

/-- What is sent of the newest line if it is too long. -/
def tailChunk (maxBytes : ℕ) (line : Bytes) : Bytes := skipContinuation 3 (line.drop (line.length - maxBytes))

/-- The lines that are collected, or the end of the newest one. -/
theorem recentChunks_cases (P : ℕ → List Bytes → List Bytes → Prop) (none : ∀ size lines, P size lines [])
    (tail : ∀ line lines, maxBytes < line.length → tailChunk maxBytes line ≠ [] →
      P 0 (line :: lines) [tailChunk maxBytes line])
    (whole : ∀ size line lines chunks, size + line.length ≤ maxBytes → P (size + line.length) lines chunks →
      P size (line :: lines) (line :: chunks))
    (size : ℕ) (lines : List Bytes) : P size lines (recentChunks maxBytes size lines) := by
  induction lines generalizing size with
  | nil => exact none size []
  | cons line lines ih =>
    rw [recentChunks]
    by_cases hfits : size + line.length ≤ maxBytes
    · rw [if_neg (Nat.not_lt.mpr hfits)]
      exact whole size line lines _ hfits (ih (size + line.length))
    · rw [if_pos (Nat.not_le.mp hfits)]
      by_cases hlong : size = 0 ∧ maxBytes < line.length
      · obtain ⟨rfl, hlong⟩ := hlong
        rw [if_pos ⟨rfl, hlong⟩]
        change P 0 (line :: lines) (if tailChunk maxBytes line = [] then [] else [tailChunk maxBytes line])
        by_cases htail : tailChunk maxBytes line = []
        · rw [if_pos htail]
          exact none 0 (line :: lines)
        · rw [if_neg htail]
          exact tail line lines hlong htail
      · rw [if_neg hlong]
        exact none size (line :: lines)

/-- The slice is the end of the lines. -/
theorem recentChunks_suffix (maxBytes size : ℕ) (lines : List Bytes) :
    (recentChunks maxBytes size lines).reverse.flatten <:+ lines.reverse.flatten := by
  refine recentChunks_cases (fun _ lines chunks => chunks.reverse.flatten <:+ lines.reverse.flatten) ?_ ?_ ?_ size lines
  · exact fun _ lines => nil_suffix
  · intro line lines _ _
    rw [reverse_singleton, flatten_singleton, reverse_cons, flatten_concat]
    have htail : tailChunk maxBytes line <:+ line := (skipContinuation_suffix 3 _).trans (drop_suffix _ line)
    exact htail.trans (suffix_append _ line)
  · intro _ line lines chunks _ ih
    obtain ⟨dropped, hdropped⟩ := ih
    rw [reverse_cons, reverse_cons, flatten_concat, flatten_concat, ← hdropped]
    exact ⟨dropped, (append_assoc dropped _ line).symm⟩

/-- The slice fits into what is left. -/
theorem recentChunks_length (lines : List Bytes) (hsize : size ≤ maxBytes) :
    size + (recentChunks maxBytes size lines).reverse.flatten.length ≤ maxBytes := by
  refine recentChunks_cases
    (fun size _ chunks => size ≤ maxBytes → size + chunks.reverse.flatten.length ≤ maxBytes) ?_ ?_ ?_ size lines hsize
  · exact fun size _ hsize => hsize
  · intro line _ hlong _ _
    rw [reverse_singleton, flatten_singleton]
    have htail : (tailChunk maxBytes line).length ≤ (line.drop (line.length - maxBytes)).length :=
      (skipContinuation_suffix 3 _).length_le
    rw [length_drop] at htail
    omega
  · intro size line _ chunks hfits ih _
    have hrest := ih hfits
    rw [reverse_cons, flatten_concat, length_append]
    omega

/-- A slice of lines that are texts is a text. -/
theorem recentChunks_valid {lines : List Bytes} (h : ∀ line ∈ lines, Valid line) :
    Valid (recentChunks maxBytes size lines).reverse.flatten := by
  refine recentChunks_cases
    (fun _ lines chunks => (∀ line ∈ lines, Valid line) → Valid chunks.reverse.flatten) ?_ ?_ ?_ size lines h
  · exact fun _ _ _ => valid_nil
  · intro line lines _ _ hvalid
    rw [reverse_singleton, flatten_singleton]
    exact valid_skipContinuation (hvalid line mem_cons_self) _
  · intro _ line lines chunks _ ih hvalid
    obtain ⟨hline, hlines⟩ := forall_mem_cons.mp hvalid
    rw [reverse_cons, flatten_concat]
    exact (ih hlines).append hline

end Slices

section Texts

variable {buffer : OutputBuffer} {data : Bytes}

theorem newline_toNat : newline.toNat < 128 := by decide

/-- The lines of a text are texts. -/
theorem valid_breakLines (h : Valid data) : ∀ line ∈ breakLines newline data, Valid line := by
  induction data using lines_induction newline with
  | opened text htext =>
    intro line hline
    rw [breakLines_of_not_mem htext] at hline
    split at hline
    · cases hline
    · rw [mem_singleton.mp hline]
      exact h
  | line text rest htext ih =>
    obtain ⟨hfirst, hrest⟩ := h.of_ascii newline_toNat
    rw [breakLines_append_cons htext]
    exact forall_mem_cons.mpr ⟨hfirst, ih hrest⟩

theorem trim_lines_suffix (lines : List Bytes) (totalSize : ℕ) (lastLineIncomplete : Bool) :
    (trim lines totalSize lastLineIncomplete).lines <:+ lines := by
  induction lines generalizing totalSize lastLineIncomplete with
  | nil =>
    rw [trim]
    split <;> exact suffix_rfl
  | cons removed lines ih =>
    rw [trim]
    split
    · exact (ih _ _).trans (suffix_cons removed lines)
    · exact suffix_rfl

section ValidLines

variable (h : ∀ line ∈ buffer.lines, Valid line)
include h

theorem valid_appendRemaining (hdata : Valid data) : ∀ line ∈ (buffer.appendRemaining data).lines, Valid line := by
  intro line hline
  rw [appendRemaining, pushLines_splitOn] at hline
  have hkept := (trim_lines_suffix _ _ _).subset hline
  rcases mem_append.mp hkept with hold | hnew
  · exact h line hold
  · exact valid_breakLines hdata line hnew

theorem valid_extendLast {lastLine added : Bytes} {lastLineIncomplete : Bool}
    (hlast : buffer.lines.getLast? = some lastLine) (hadded : Valid added) :
    ∀ line ∈ (buffer.extendLast lastLine added lastLineIncomplete).lines, Valid line := by
  intro line hline
  rcases mem_append.mp hline with hold | hnew
  · exact h line (mem_of_mem_dropLast hold)
  · rw [mem_singleton.mp hnew]
    exact (h lastLine (mem_of_getLast? hlast)).append hadded

/-- An append of a text keeps every line a text. -/
theorem valid_append (hdata : Valid data) : ∀ line ∈ (buffer.append data).lines, Valid line := by
  by_cases hempty : data = []
  · rwa [append, if_pos hempty]
  · cases hincomplete : buffer.lastLineIncomplete with
    | false =>
      rw [(append_of_complete hempty hincomplete).1]
      exact valid_appendRemaining h hdata
    | true =>
      cases hlast : buffer.lines.getLast? with
      | none =>
        rw [append, if_neg hempty, hincomplete, hlast]
        exact valid_appendRemaining h hdata
      | some lastLine =>
        rw [append_of_incomplete hempty hincomplete hlast]
        cases hfind : data.findIdx? (· == newline) with
        | none => exact valid_extendLast h hlast hdata
        | some newlinePos =>
          obtain ⟨text, -, htake⟩ := terminated_take hfind
          have hcut := hdata
          rw [← take_append_drop (newlinePos + 1) data, htake, append_assoc] at hcut
          obtain ⟨hfirst, hrest⟩ := hcut.of_ascii newline_toNat
          rw [← htake] at hfirst
          exact valid_appendRemaining (valid_extendLast h hlast hfirst) hrest

theorem valid_appendAll {chunks : List Bytes}
    (hchunks : ∀ chunk ∈ chunks, Valid chunk) : ∀ line ∈ (buffer.appendAll chunks).lines, Valid line := by
  induction chunks generalizing buffer with
  | nil => exact h
  | cons data chunks ih =>
    obtain ⟨hdata, hrest⟩ := forall_mem_cons.mp hchunks
    exact ih (valid_append h hdata) hrest

end ValidLines

end Texts

/-- What is sent again is the end of what the buffer holds, not more than was asked for, and a text if all output was. -/
theorem getRecent_appendAll (chunks : List Bytes) (maxBytes : ℕ) :
    let buffer := OutputBuffer.appendAll {} chunks
    buffer.getRecent maxBytes <:+ buffer.lines.flatten ∧ (buffer.getRecent maxBytes).length ≤ maxBytes ∧
      ((∀ chunk ∈ chunks, Valid chunk) → Valid (buffer.getRecent maxBytes)) := by
  intro buffer
  rw [getRecent]
  split
  · exact ⟨List.nil_suffix, Nat.zero_le _, fun _ => valid_nil⟩
  · have hsuffix := recentChunks_suffix maxBytes 0 buffer.lines.reverse
    have hlength := recentChunks_length buffer.lines.reverse (Nat.zero_le maxBytes)
    rw [List.reverse_reverse] at hsuffix
    rw [Nat.zero_add] at hlength
    refine ⟨hsuffix, hlength, fun hchunks => recentChunks_valid fun line hline => ?_⟩
    have hlines : ∀ line ∈ buffer.lines, Valid line := valid_appendAll (fun line hline => by cases hline) hchunks
    exact hlines line (List.mem_reverse.mp hline)

/-- The replay of a line that is cut inside its first character. -/
theorem getRecent_cut : Valid ((OutputBuffer.appendAll {} [encode "€1"]).getRecent 2) := by
  refine (getRecent_appendAll [encode "€1"] 2).2.2 fun chunk hchunk => ⟨"€1", ?_⟩
  rw [List.mem_singleton.mp hchunk]

end OutputBuffer

end UnyDesk
