import Mathlib.Data.List.Basic

/-!
# Streams broken into lines

A line ends with its only separator; behind the last separator of a stream there may be an open line, which is not
empty. Breaking a stream gives all its lines in order and loses nothing.
-/

namespace UnyDesk.Lib.Lines

open List

variable {α : Type*} (sep : α) {line added : List α}

/-- A line with its end. -/
def Terminated (line : List α) : Prop := ∃ text, sep ∉ text ∧ line = text ++ [sep]

/-- A line that still lacks its end. -/
def Open (line : List α) : Prop := line ≠ [] ∧ sep ∉ line

/-- Lines of which only the last one may be open. -/
def Broken : List (List α) → Prop
  | [] => True
  | line :: lines => (Terminated sep line ∨ lines = [] ∧ Open sep line) ∧ Broken lines

/-- The lines of a stream. -/
def breakLines [DecidableEq α] : List α → List (List α)
  | [] => []
  | a :: data =>
    if a = sep then [a] :: breakLines data
    else
      match breakLines data with
      | [] => [[a]]
      | line :: lines => (a :: line) :: lines

variable {sep}

theorem Terminated.ne_nil (h : Terminated sep line) : line ≠ [] := by
  obtain ⟨text, -, rfl⟩ := h
  exact append_ne_nil_of_right_ne_nil text (cons_ne_nil sep [])

theorem Terminated.getLast? (h : Terminated sep line) : line.getLast? = some sep := by
  obtain ⟨text, -, rfl⟩ := h
  exact getLast?_concat

theorem Open.getLast?_ne (h : Open sep line) : line.getLast? ≠ some sep :=
  fun hlast => h.2 (mem_of_getLast? hlast)

/-- An open line goes on up to its end. -/
theorem Open.append_terminated (h : Open sep line) (hadded : Terminated sep added) :
    Terminated sep (line ++ added) := by
  obtain ⟨text, htext, rfl⟩ := hadded
  refine ⟨line ++ text, ?_, (append_assoc line text [sep]).symm⟩
  rw [mem_append]
  exact not_or.mpr ⟨h.2, htext⟩

/-- An open line goes on and stays open. -/
theorem Open.append_open (h : Open sep line) (hadded : sep ∉ added) : Open sep (line ++ added) := by
  refine ⟨append_ne_nil_of_left_ne_nil h.1 added, ?_⟩
  rw [mem_append]
  exact not_or.mpr ⟨h.2, hadded⟩

section Broken

variable {lines init : List (List α)} {line : List α}

theorem Broken.ne_nil (h : Broken sep lines) (hline : line ∈ lines) : line ≠ [] := by
  induction lines with
  | nil => cases hline
  | cons first lines ih =>
    rcases mem_cons.mp hline with rfl | hline
    · rcases h.1 with hfirst | ⟨-, hfirst⟩
      · exact hfirst.ne_nil
      · exact hfirst.1
    · exact ih h.2 hline

theorem broken_append (hinit : ∀ line ∈ init, Terminated sep line) (h : Broken sep lines) : Broken sep (init ++ lines) := by
  induction init with
  | nil => exact h
  | cons first init ih =>
    refine ⟨.inl (hinit first mem_cons_self), ih fun line hline => ?_⟩
    exact hinit line (mem_cons_of_mem first hline)

theorem broken_singleton : Broken sep [line] ↔ Terminated sep line ∨ Open sep line := by
  simp [Broken]

/-- Before the last line all have their end. -/
theorem broken_concat : Broken sep (init ++ [line]) ↔
    (∀ line ∈ init, Terminated sep line) ∧ (Terminated sep line ∨ Open sep line) := by
  induction init with
  | nil => simp [broken_singleton]
  | cons first init ih =>
    simp only [cons_append, Broken, ih, append_eq_nil_iff, cons_ne_nil, and_false, false_and, or_false,
      forall_mem_cons, and_assoc]

/-- The last element of lines that are not empty is that of the last one. -/
theorem getLast?_flatten (h : Broken sep lines) : lines.flatten.getLast? = lines.getLast?.bind List.getLast? := by
  rcases eq_nil_or_concat lines with rfl | ⟨init, line, rfl⟩
  · rfl
  · rw [concat_eq_append] at h ⊢
    have hline : line ≠ [] := h.ne_nil mem_concat_self
    rw [flatten_concat, getLast?_append_of_ne_nil _ hline, getLast?_concat]
    rfl

theorem flatten_eq_nil_iff (h : Broken sep lines) : lines.flatten = [] ↔ lines = [] := by
  constructor
  · intro hnil
    cases lines with
    | nil => rfl
    | cons line lines => exact absurd (flatten_eq_nil_iff.mp hnil line mem_cons_self) (h.ne_nil mem_cons_self)
  · rintro rfl
    rfl

/-- Lines that end with a separator all have their end. -/
theorem Broken.terminated (h : Broken sep lines) (hlast : lines = [] ∨ lines.flatten.getLast? = some sep) :
    ∀ line ∈ lines, Terminated sep line := by
  rcases eq_nil_or_concat lines with rfl | ⟨init, last, rfl⟩
  · exact fun line hline => by cases hline
  · rw [concat_eq_append] at h hlast ⊢
    rw [getLast?_flatten h, getLast?_concat] at hlast
    obtain ⟨hinit, hline⟩ := broken_concat.mp h
    have hend : last.getLast? = some sep := hlast.resolve_left (append_ne_nil_of_right_ne_nil _ (cons_ne_nil _ _))
    intro line hmem
    rcases mem_append.mp hmem with hmem | hmem
    · exact hinit line hmem
    · rw [mem_singleton.mp hmem]
      exact hline.resolve_right fun hopen => hopen.getLast?_ne hend

end Broken

section Streams

variable [DecidableEq α] {text : List α}

/-- A stream is an open line, or a line with its end before another stream. -/
theorem lines_induction (sep : α) {P : List α → Prop} (opened : ∀ text, sep ∉ text → P text)
    (line : ∀ text rest, sep ∉ text → P rest → P (text ++ sep :: rest)) (data : List α) : P data := by
  have hsplit : ∀ (data before : List α), sep ∉ before → P data ∧ P (before ++ data) := by
    intro data
    induction data with
    | nil =>
      intro before hbefore
      refine ⟨opened [] not_mem_nil, ?_⟩
      rw [append_nil]
      exact opened before hbefore
    | cons a data ih =>
      intro before hbefore
      by_cases ha : a = sep
      · subst ha
        have hrest : P data := (ih [] not_mem_nil).1
        exact ⟨line [] data not_mem_nil hrest, line before data hbefore hrest⟩
      · have hgo : ∀ before : List α, sep ∉ before → P (before ++ a :: data) := by
          intro before hbefore
          have hlonger : sep ∉ before ++ [a] := by
            rw [mem_append, mem_singleton]
            exact not_or.mpr ⟨hbefore, Ne.symm ha⟩
          have h := (ih (before ++ [a]) hlonger).2
          rwa [append_assoc] at h
        exact ⟨hgo [] not_mem_nil, hgo before hbefore⟩
  exact (hsplit data [] not_mem_nil).1

theorem breakLines_of_not_mem (h : sep ∉ text) : breakLines sep text = if text = [] then [] else [text] := by
  induction text with
  | nil => rfl
  | cons a text ih =>
    have ha : a ≠ sep := fun heq => h (heq ▸ mem_cons_self)
    rw [breakLines, if_neg ha, ih fun hmem => h (mem_cons_of_mem a hmem)]
    by_cases htext : text = [] <;> simp [htext]

@[simp] theorem breakLines_append_cons (h : sep ∉ text) (rest : List α) :
    breakLines sep (text ++ sep :: rest) = (text ++ [sep]) :: breakLines sep rest := by
  induction text with
  | nil => simp [breakLines]
  | cons a text ih =>
    have ha : a ≠ sep := fun heq => h (heq ▸ mem_cons_self)
    rw [cons_append, breakLines, if_neg ha, ih fun hmem => h (mem_cons_of_mem a hmem)]
    rfl

@[simp] theorem flatten_breakLines (data : List α) : (breakLines sep data).flatten = data := by
  induction data using lines_induction sep with
  | opened text h =>
    rw [breakLines_of_not_mem h]
    by_cases htext : text = [] <;> simp [htext]
  | line text rest h ih => rw [breakLines_append_cons h, flatten_cons, ih, append_assoc, singleton_append]

theorem broken_breakLines (data : List α) : Broken sep (breakLines sep data) := by
  induction data using lines_induction sep with
  | opened text h =>
    rw [breakLines_of_not_mem h]
    by_cases htext : text = []
    · rw [if_pos htext]
      trivial
    · rw [if_neg htext]
      exact broken_singleton.mpr (.inr ⟨htext, h⟩)
  | line text rest h ih =>
    rw [breakLines_append_cons h]
    exact ⟨.inl ⟨text, h, rfl⟩, ih⟩

theorem breakLines_eq_nil_iff {data : List α} : breakLines sep data = [] ↔ data = [] := by
  rw [← flatten_eq_nil_iff (broken_breakLines data), flatten_breakLines]

end Streams

end UnyDesk.Lib.Lines
