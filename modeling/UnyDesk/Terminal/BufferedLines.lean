import UnyDesk.Lib.Lines
import UnyDesk.Lib.Machine
import UnyDesk.Terminal.OutputBuffer

/-!
# What the output buffer of a terminal holds

The buffer holds the end of what was printed, broken into lines, and counts its bytes right, so the two errors that the
trimming loop can log never occur. Its bounds are another matter: they are restored by the trimming loop alone, and a
chunk without a newline behind an unfinished line returns before it. A shell that prints no newline fills the memory.
-/

namespace UnyDesk

open Lib Lib.Lines List

namespace OutputBuffer

/-- What the trimming loop logs. -/
def trimErrors : List Bytes → ℕ → List String
  | [], totalSize =>
    if maxOutputBufferSize < totalSize then
      [s!"OutputBuffer trim invariant broken: total_size={totalSize}, lines_len=0"]
    else []
  | removed :: lines, totalSize =>
    if maxOutputBufferSize < totalSize || maxBufferLines < (removed :: lines).length then
      if totalSize < removed.length then
        s!"OutputBuffer total_size underflow avoided: total_size={totalSize}, removed_len={removed.length}, lines_len={lines.length}" ::
          trimErrors lines (lines.map List.length).sum
      else trimErrors lines (totalSize - removed.length)
    else []

section

variable (buffer : OutputBuffer)

/-- What `append` logs behind the end of an unfinished line. -/
def remainingErrors (remaining : Bytes) : List String :=
  let buffer := pushLines (remaining.getLast? = some newline) buffer (remaining.splitOn newline)
  trimErrors buffer.lines buffer.totalSize

/-- The last line goes on. -/
def extendLast (lastLine added : Bytes) (lastLineIncomplete : Bool) : OutputBuffer :=
  { lines := buffer.lines.dropLast ++ [lastLine ++ added]
    totalSize := buffer.totalSize + added.length
    lastLineIncomplete }

/-- What `append` logs. -/
def appendErrors (data : Bytes) : List String :=
  if data = [] then []
  else
    match buffer.lastLineIncomplete, buffer.lines.getLast? with
    | true, some lastLine =>
      match data.findIdx? (· == newline) with
      | some newlinePos =>
        (buffer.extendLast lastLine (data.take (newlinePos + 1)) false).remainingErrors (data.drop (newlinePos + 1))
      | none => []
    | _, _ => buffer.remainingErrors data

end

/-- A buffer after some output. -/
structure Holds (output : Bytes) (buffer : OutputBuffer) : Prop where
  content : buffer.lines.flatten <:+ output
  size : buffer.totalSize = (buffer.lines.map List.length).sum
  broken : Broken newline buffer.lines
  incomplete : buffer.lastLineIncomplete = true ↔ buffer.lines ≠ [] ∧ buffer.lines.flatten.getLast? ≠ some newline

section Append

variable {buffer : OutputBuffer} {output data : Bytes} {lastLineIncomplete : Bool} {init : List Bytes}
  {lastLine : Bytes}

theorem holds_empty : Holds [] {} := ⟨suffix_rfl, rfl, trivial, by simp⟩

/-- What `append` does behind an unfinished line. -/
theorem append_of_incomplete (hdata : data ≠ []) (hincomplete : buffer.lastLineIncomplete = true)
    (hlast : buffer.lines.getLast? = some lastLine) :
    buffer.append data =
      match data.findIdx? (· == newline) with
      | some newlinePos =>
        (buffer.extendLast lastLine (data.take (newlinePos + 1)) false).appendRemaining (data.drop (newlinePos + 1))
      | none => buffer.extendLast lastLine data true := by
  rw [append, if_neg hdata, hincomplete, hlast]
  rfl

theorem append_of_complete (hdata : data ≠ []) (hcomplete : buffer.lastLineIncomplete = false) :
    buffer.append data = buffer.appendRemaining data ∧ buffer.appendErrors data = buffer.remainingErrors data := by
  rw [append, appendErrors, if_neg hdata, if_neg hdata, hcomplete]
  exact ⟨rfl, rfl⟩

/-- The lines of the data are pushed, and the last one is unfinished if it lacks its end. -/
theorem pushLines_splitOn (buffer : OutputBuffer) (data : Bytes) :
    pushLines (data.getLast? = some newline) buffer (data.splitOn newline) =
      { lines := buffer.lines ++ breakLines newline data
        totalSize := buffer.totalSize + data.length
        lastLineIncomplete := buffer.lastLineIncomplete || (data ≠ [] ∧ data.getLast? ≠ some newline) } := by
  induction data using lines_induction newline generalizing buffer with
  | opened text h =>
    have hlast : text.getLast? ≠ some newline := fun hlast => h (mem_of_getLast? hlast)
    rw [splitOn_eq_singleton h, pushLines, breakLines_of_not_mem h]
    by_cases htext : text = []
    · simp [htext]
    · simp [htext, hlast, pushLine]
  | line text rest h ih =>
    rw [splitOn_append_cons_self_of_not_mem h, breakLines_append_cons h]
    by_cases hrest : rest = []
    · subst hrest
      have hpush : pushLines ((text ++ [newline]).getLast? = some newline) buffer [text, []] =
          buffer.pushLine (text ++ [newline]) := rfl
      rw [splitOn_nil, hpush]
      simp [pushLine, breakLines]
    · have hlast : (text ++ newline :: rest).getLast? = rest.getLast? := by
        rw [getLast?_append_of_ne_nil text (cons_ne_nil newline rest), getLast?_cons_of_ne_nil hrest]
      obtain ⟨piece, pieces, hpieces⟩ := exists_cons_of_ne_nil (splitOn_ne_nil newline rest)
      have hnext := ih (buffer.pushLine (text ++ [newline]))
      rw [hpieces] at hnext ⊢
      rw [hlast, pushLines, hnext]
      · simp [pushLine, hrest, Nat.add_assoc, Nat.add_comm 1]
      · exact fun heq => cons_ne_nil piece pieces heq

/-- Dropping the oldest lines keeps what the buffer holds, and the loop never finds its size wrong. -/
theorem Holds.trim {lines : List Bytes} {totalSize : ℕ} (h : Holds output ⟨lines, totalSize, lastLineIncomplete⟩) :
    Holds output (trim lines totalSize lastLineIncomplete) ∧ trimErrors lines totalSize = [] := by
  induction lines generalizing totalSize lastLineIncomplete with
  | nil =>
    have hsize : totalSize = 0 := h.size
    rw [OutputBuffer.trim, trimErrors, hsize, if_neg (by decide), if_neg (by decide), ← hsize]
    exact ⟨h, rfl⟩
  | cons removed lines ih =>
    have hsize : totalSize = removed.length + (lines.map length).sum := h.size
    rw [OutputBuffer.trim, trimErrors]
    split
    · have hfits : ¬totalSize < removed.length := by omega
      have hrest : totalSize - removed.length = (lines.map length).sum := by omega
      rw [if_neg hfits, if_neg hfits]
      refine ih ⟨(suffix_append removed lines.flatten).trans h.content, hrest, h.broken.2, ?_⟩
      cases lines with
      | nil => simp
      | cons line lines =>
        have hnil : (line :: lines).flatten ≠ [] := by
          rw [Ne, flatten_eq_nil_iff h.broken.2]
          exact cons_ne_nil line lines
        have hlast : (removed :: line :: lines).flatten.getLast? = (line :: lines).flatten.getLast? := by
          rw [flatten_cons, getLast?_append_of_ne_nil removed hnil]
        have hbefore := h.incomplete
        rw [hlast] at hbefore
        simpa using hbefore
    · exact ⟨h, rfl⟩

theorem Holds.appendRemaining (h : Holds output buffer) (hcomplete : buffer.lastLineIncomplete = false) (data : Bytes) :
    Holds (output ++ data) (buffer.appendRemaining data) ∧ buffer.remainingErrors data = [] := by
  have hends : buffer.lines = [] ∨ buffer.lines.flatten.getLast? = some newline := by
    have hnot := mt h.incomplete.mpr (ne_true_of_eq_false hcomplete)
    simpa [or_iff_not_imp_left] using hnot
  obtain ⟨dropped, hcontent⟩ := h.content
  have hbroken : Broken newline (buffer.lines ++ breakLines newline data) :=
    broken_append (h.broken.terminated hends) (broken_breakLines data)
  rw [OutputBuffer.appendRemaining, remainingErrors, pushLines_splitOn]
  refine Holds.trim ⟨⟨dropped, ?_⟩, ?_, hbroken, ?_⟩
  · rw [flatten_append, flatten_breakLines, ← append_assoc, hcontent]
  · rw [h.size, map_append, sum_append, ← length_flatten, ← length_flatten, flatten_breakLines]
  · rw [hcomplete, Bool.false_or, decide_eq_true_eq, flatten_append, flatten_breakLines]
    by_cases hdata : data = []
    · subst hdata
      have hlines : (breakLines newline ([] : Bytes)) = [] := rfl
      rw [hlines, append_nil, append_nil]
      refine iff_of_false (fun hne => hne.1 rfl) fun hne => hne.2 (hends.resolve_left hne.1)
    · have hne : buffer.lines ++ breakLines newline data ≠ [] :=
        append_ne_nil_of_right_ne_nil _ (breakLines_eq_nil_iff.not.mpr hdata)
      rw [getLast?_append_of_ne_nil _ hdata]
      exact and_congr_left' (iff_of_true hdata hne)

/-- The unfinished line. -/
theorem Holds.opened (h : Holds output buffer) (hincomplete : buffer.lastLineIncomplete = true) :
    ∃ init lastLine, buffer.lines = init ++ [lastLine] ∧ (∀ line ∈ init, Terminated newline line) ∧
      Open newline lastLine := by
  obtain ⟨hne, hlast⟩ := h.incomplete.mp hincomplete
  rcases eq_nil_or_concat buffer.lines with hnil | ⟨init, lastLine, hlines⟩
  · exact absurd hnil hne
  · rw [concat_eq_append] at hlines
    have hbroken := h.broken
    rw [getLast?_flatten hbroken, hlines, getLast?_concat] at hlast
    rw [hlines] at hbroken
    obtain ⟨hinit, hline⟩ := broken_concat.mp hbroken
    exact ⟨init, lastLine, hlines, hinit, hline.resolve_left fun hend => hlast hend.getLast?⟩

theorem extendLast_of_concat (hlines : buffer.lines = init ++ [lastLine])
    (added : Bytes) (lastLineIncomplete : Bool) :
    buffer.extendLast lastLine added lastLineIncomplete =
      ⟨init ++ [lastLine ++ added], buffer.totalSize + added.length, lastLineIncomplete⟩ := by
  rw [extendLast, hlines, dropLast_concat]

/-- An unfinished line goes on. -/
theorem Holds.extendLast (h : Holds output buffer) {lastLine added : Bytes}
    (hlines : buffer.lines = init ++ [lastLine]) (hinit : ∀ line ∈ init, Terminated newline line)
    (hline : Terminated newline (lastLine ++ added) ∧ lastLineIncomplete = false ∨
      Open newline (lastLine ++ added) ∧ lastLineIncomplete = true) :
    Holds (output ++ added) (buffer.extendLast lastLine added lastLineIncomplete) := by
  obtain ⟨dropped, hcontent⟩ := h.content
  rw [extendLast_of_concat hlines]
  have hbroken : Broken newline (init ++ [lastLine ++ added]) :=
    broken_concat.mpr ⟨hinit, hline.imp And.left And.left⟩
  refine ⟨⟨dropped, ?_⟩, ?_, hbroken, ?_⟩
  · rw [← hcontent, hlines]
    simp
  · rw [h.size, hlines]
    simp [Nat.add_assoc]
  · rw [getLast?_flatten hbroken, getLast?_concat]
    rcases hline with ⟨hend, rfl⟩ | ⟨hopen, rfl⟩
    · exact iff_of_false Bool.false_ne_true fun hne => hne.2 hend.getLast?
    · exact iff_of_true rfl ⟨append_ne_nil_of_right_ne_nil _ (cons_ne_nil _ _), hopen.getLast?_ne⟩

/-- The data up to its first newline. -/
theorem terminated_take {newlinePos : ℕ} (h : data.findIdx? (· == newline) = some newlinePos) :
    Terminated newline (data.take (newlinePos + 1)) := by
  obtain ⟨hlt, hfound, hbefore⟩ := findIdx?_eq_some_iff_getElem.mp h
  refine ⟨data.take newlinePos, fun hmem => ?_, ?_⟩
  · obtain ⟨i, hi, hget⟩ := mem_take_iff_getElem.mp hmem
    exact hbefore i (Nat.lt_of_lt_of_le hi (Nat.min_le_left _ _)) (by simp [hget])
  · rw [take_add_one, getElem?_eq_getElem hlt, eq_of_beq hfound]
    rfl

theorem not_mem_of_findIdx? (h : data.findIdx? (· == newline) = none) : newline ∉ data :=
  fun hmem => Bool.false_ne_true ((findIdx?_eq_none_iff.mp h newline hmem).symm.trans (beq_self_eq_true newline))

/-- An append keeps what the buffer holds and logs no error. -/
theorem Holds.append (h : Holds output buffer) (data : Bytes) :
    Holds (output ++ data) (buffer.append data) ∧ buffer.appendErrors data = [] := by
  by_cases hdata : data = []
  · rw [OutputBuffer.append, appendErrors, if_pos hdata, if_pos hdata, hdata, append_nil]
    exact ⟨h, rfl⟩
  · cases hincomplete : buffer.lastLineIncomplete with
    | false =>
      obtain ⟨happend, herrors⟩ := append_of_complete hdata hincomplete
      rw [happend, herrors]
      exact h.appendRemaining hincomplete data
    | true =>
      obtain ⟨init, lastLine, hlines, hinit, hopen⟩ := h.opened hincomplete
      have hlast : buffer.lines.getLast? = some lastLine := by rw [hlines, getLast?_concat]
      rw [append_of_incomplete hdata hincomplete hlast, appendErrors, if_neg hdata, hincomplete, hlast]
      dsimp only
      cases hfind : data.findIdx? (· == newline) with
      | none => exact ⟨h.extendLast hlines hinit (.inr ⟨hopen.append_open (not_mem_of_findIdx? hfind), rfl⟩), rfl⟩
      | some newlinePos =>
        have hextended := h.extendLast hlines hinit (.inl ⟨hopen.append_terminated (terminated_take hfind), rfl⟩)
        have hrest := hextended.appendRemaining rfl (data.drop (newlinePos + 1))
        rwa [append_assoc, take_append_drop] at hrest

theorem Holds.appendAll (h : Holds output buffer) (chunks : List Bytes) :
    Holds (output ++ chunks.flatten) (buffer.appendAll chunks) := by
  induction chunks generalizing output buffer with
  | nil => simpa using h
  | cons data chunks ih =>
    have hnext := ih (h.append data).1
    rwa [append_assoc, ← flatten_cons] at hnext

/-- What a new buffer holds after some chunks. -/
theorem holds_appendAll (chunks : List Bytes) : Holds chunks.flatten (OutputBuffer.appendAll {} chunks) :=
  holds_empty.appendAll chunks

end Append

/-- After any chunks the buffer holds the end of what was printed by lines, and the next chunk finds its size right. -/
theorem appendAll_content (chunks : List Bytes) :
    let buffer := OutputBuffer.appendAll {} chunks
    buffer.lines.flatten <:+ chunks.flatten ∧ buffer.totalSize = (buffer.lines.map List.length).sum ∧
      (∀ line ∈ buffer.lines, line ≠ []) ∧
      (∀ line ∈ buffer.lines.dropLast, ∃ text, newline ∉ text ∧ line = text ++ [newline]) ∧
      (buffer.lastLineIncomplete = true ↔
        ∃ lastLine, buffer.lines.getLast? = some lastLine ∧ lastLine.getLast? ≠ some newline) ∧
      ∀ data, buffer.appendErrors data = [] := by
  intro buffer
  have h : Holds chunks.flatten buffer := holds_appendAll chunks
  refine ⟨h.content, h.size, fun line hline => h.broken.ne_nil hline, ?_, ?_, fun data => (h.append data).2⟩
  · rcases List.eq_nil_or_concat buffer.lines with hnil | ⟨init, lastLine, hlines⟩
    · rw [hnil]
      exact fun line hline => by cases hline
    · have hbroken := h.broken
      rw [hlines, List.concat_eq_append] at hbroken ⊢
      rw [List.dropLast_concat]
      exact (broken_concat.mp hbroken).1
  · rw [h.incomplete, getLast?_flatten h.broken]
    cases hlast : buffer.lines.getLast? with
    | none => simp [List.getLast?_eq_none_iff.mp hlast]
    | some lastLine =>
      have hne : buffer.lines ≠ [] := fun hnil => by rw [hnil] at hlast; cases hlast
      simp [hne]

section Bounds

/-- The bounds that the buffer is meant to keep. -/
def Bounded (buffer : OutputBuffer) : Prop :=
  buffer.totalSize ≤ maxOutputBufferSize ∧ buffer.lines.length ≤ maxBufferLines

/-- The chunk goes on with an unfinished line, does not finish it, and is too much for the buffer. -/
def Overflows (buffer : OutputBuffer) (data : Bytes) : Prop :=
  buffer.lastLineIncomplete = true ∧ newline ∉ data ∧ maxOutputBufferSize < buffer.totalSize + data.length

variable {buffer : OutputBuffer} {output data : Bytes}

/-- The trimming loop ends within the bounds, whatever it starts from. -/
theorem bounded_trim (lines : List Bytes) (totalSize : ℕ) (lastLineIncomplete : Bool) :
    (trim lines totalSize lastLineIncomplete).Bounded := by
  induction lines generalizing totalSize lastLineIncomplete with
  | nil =>
    rw [trim]
    split
    · exact ⟨Nat.zero_le _, Nat.zero_le _⟩
    · exact ⟨by dsimp only; omega, Nat.zero_le _⟩
  | cons removed lines ih =>
    rw [trim]
    split
    · exact ih _ _
    · rename_i hfits
      simp only [Bool.or_eq_true, decide_eq_true_eq, not_or, Nat.not_lt] at hfits
      exact hfits

theorem bounded_appendRemaining (buffer : OutputBuffer) (data : Bytes) : (buffer.appendRemaining data).Bounded := by
  rw [appendRemaining]
  exact bounded_trim _ _ _

/-- From within the bounds an append stays there unless it lets an unfinished line overflow. -/
theorem bounded_append_iff (h : Holds output buffer) (hbounded : buffer.Bounded) :
    (buffer.append data).Bounded ↔ ¬buffer.Overflows data := by
  by_cases hdata : data = []
  · have hsize : buffer.totalSize + data.length = buffer.totalSize := by rw [hdata, length_nil, Nat.add_zero]
    rw [append, if_pos hdata]
    refine iff_of_true hbounded fun hover => ?_
    exact Nat.not_lt.mpr hbounded.1 (hsize ▸ hover.2.2)
  · cases hincomplete : buffer.lastLineIncomplete with
    | false =>
      rw [(append_of_complete hdata hincomplete).1]
      exact iff_of_true (bounded_appendRemaining buffer data) fun hover => Bool.false_ne_true (hincomplete ▸ hover.1)
    | true =>
      obtain ⟨init, lastLine, hlines, -, -⟩ := h.opened hincomplete
      have hlast : buffer.lines.getLast? = some lastLine := by rw [hlines, getLast?_concat]
      rw [append_of_incomplete hdata hincomplete hlast]
      cases hfind : data.findIdx? (· == newline) with
      | some newlinePos =>
        obtain ⟨text, -, htake⟩ := terminated_take hfind
        have hmem : newline ∈ data := mem_of_mem_take (htake ▸ mem_concat_self)
        exact iff_of_true (bounded_appendRemaining _ _) fun hover => hover.2.1 hmem
      | none =>
        have hlength : (init ++ [lastLine ++ data]).length = buffer.lines.length := by
          rw [hlines, length_append, length_append, length_singleton, length_singleton]
        dsimp only
        rw [extendLast_of_concat hlines, Bounded, Overflows, hlength, and_iff_left hbounded.2,
          and_iff_right hincomplete, and_iff_right (not_mem_of_findIdx? hfind), Nat.not_lt]

theorem appendAll_eq_runEvents (buffer : OutputBuffer) (chunks : List Bytes) :
    buffer.appendAll chunks = runEvents append buffer chunks := by
  induction chunks generalizing buffer with
  | nil => rfl
  | cons data chunks ih => exact ih (buffer.append data)

/-- The buffer is within its bounds after every append of a run exactly when none lets an unfinished line overflow. -/
theorem bounded_appendAll_iff (chunks : List Bytes) :
    (∀ given rest, chunks = given ++ rest → (OutputBuffer.appendAll {} given).Bounded) ↔
      RunMeets append (fun buffer data => ¬buffer.Overflows data) {} chunks := by
  have hrun : ∀ given, OutputBuffer.appendAll {} given = runEvents append {} given := appendAll_eq_runEvents {}
  simp only [hrun]
  refine runMeets_iff (I := fun buffer => ∃ output, Holds output buffer) ?_ ?_ ⟨[], holds_empty⟩
    ⟨Nat.zero_le _, Nat.zero_le _⟩
  · intro buffer data hholds _ _
    obtain ⟨output, h⟩ := hholds
    exact ⟨output ++ data, (h.append data).1⟩
  · intro buffer data hholds hbounded
    obtain ⟨output, h⟩ := hholds
    exact bounded_append_iff h hbounded

/-- A program prints a letter and then a megabyte of them, without a newline. -/
theorem unbounded_without_newline :
    ¬∀ chunks : List Bytes, ∀ given rest, chunks = given ++ rest → (OutputBuffer.appendAll {} given).Bounded := by
  intro h
  obtain ⟨data, hover⟩ : ∃ data, Overflows (append {} [97]) data := by
    refine ⟨List.replicate maxOutputBufferSize 97, by decide, fun hmem => ?_, ?_⟩
    · exact absurd (List.eq_of_mem_replicate hmem) (by decide)
    · rw [List.length_replicate]
      decide
  have hletter : Holds [97] (append {} [97]) := (holds_empty.append [97]).1
  have hbounded : (append {} [97]).Bounded := h [[97]] [[97]] [] rfl
  have hnext : (append (append {} [97]) data).Bounded := h [[97], data] [[97], data] [] rfl
  exact (bounded_append_iff hletter hbounded).mp hnext hover

end Bounds

end OutputBuffer

end UnyDesk
