import Mathlib.Data.List.Basic

/-!
# Splitting at a separator of several letters

A text is read from the left and cut wherever the separator stands; the letters of a separator
that was found are passed over. Replacing a text joins the pieces again with another one.
-/

namespace UnyDesk.Lib

open List

section Words

variable {α : Type*} {word front rest : List α} {a : α}

/-- A beginning of two texts in a row is one of the first text, or reaches into the second. -/
theorem prefix_append_cases (h : word <+: front ++ rest) :
    word <+: front ∨ ∃ tail, word = front ++ tail ∧ tail ≠ [] ∧ tail <+: rest := by
  rcases prefix_or_prefix_of_prefix h (prefix_append front rest) with hfront | ⟨tail, rfl⟩
  · exact .inl hfront
  · cases tail with
    | nil =>
      rw [append_nil]
      exact .inl (prefix_refl front)
    | cons a tail => exact .inr ⟨a :: tail, rfl, cons_ne_nil a tail, (prefix_append_right_inj front).mp h⟩

/-- A word does not reach over a letter that it has not. -/
theorem infix_append_cons (ha : a ∉ word) (h : word <:+: front ++ a :: rest) : word <:+: front ∨ word <:+: rest := by
  induction front with
  | nil =>
    rcases infix_cons_iff.mp h with hhead | hrest
    · cases word with
      | nil => exact .inl (infix_refl [])
      | cons b word =>
        obtain rfl := (cons_prefix_cons.mp hhead).1
        exact absurd mem_cons_self ha
    · exact .inr hrest
  | cons b front ih =>
    rcases infix_cons_iff.mp h with hhead | htail
    · rcases @prefix_append_cases _ _ (b :: front) _ hhead with hfront | ⟨tail, rfl, hne, htail⟩
      · exact .inl hfront.isInfix
      · cases tail with
        | nil => exact absurd rfl hne
        | cons c tail =>
          obtain rfl := (cons_prefix_cons.mp htail).1
          exact absurd (mem_append_right _ mem_cons_self) ha
    · exact (ih htail).imp_left fun hfront => infix_cons_iff.mpr (.inr hfront)

theorem suffix_of_append_cons (ha : a ∉ word) (h : word <:+ front ++ a :: rest) : word <:+ rest := by
  rcases suffix_or_suffix_of_suffix h (suffix_append front (a :: rest)) with hshort | hlong
  · rcases suffix_cons_iff.mp hshort with rfl | hrest
    · exact absurd mem_cons_self ha
    · exact hrest
  · exact absurd (hlong.subset mem_cons_self) ha

/-- A text with a word in it does not begin where the word cannot stand. -/
theorem not_prefix_of_word {word tail front rest : List α} (hrest : ∀ c, rest.head? = some c → c ∉ word)
    (hfree : ¬ word <:+: front) : ∀ u v, front = u ++ v → v ≠ [] → ¬ a :: (word ++ tail) <+: v ++ rest := by
  rintro u v rfl hv hprefix
  cases v with
  | nil => exact hv rfl
  | cons b v =>
    have hword : word <+: v ++ rest := (prefix_append word tail).trans (cons_prefix_cons.mp hprefix).2
    rcases prefix_append_cases hword with hfront | ⟨behind, rfl, hne, hbehind⟩
    · refine hfree (hfront.isInfix.trans ?_)
      exact ⟨u ++ [b], [], by rw [append_nil, append_assoc]; rfl⟩
    · cases behind with
      | nil => exact hne rfl
      | cons c behind =>
        obtain ⟨more, rfl⟩ := hbehind
        exact hrest c rfl (mem_append_right v mem_cons_self)

end Words

variable {α : Type*} [DecidableEq α] {a : α} {sep old front rest tail text piece : List α} {pieces : List (List α)}

/-- A letter in front of the first piece. -/
def consPiece (a : α) : List (List α) → List (List α)
  | [] => [[a]]
  | piece :: pieces => (a :: piece) :: pieces

/-- The pieces of a text of which the first letters still belong to a separator. -/
def splitFrom (sep : List α) : ℕ → List α → List (List α)
  | _, [] => [[]]
  | skip + 1, _ :: text => splitFrom sep skip text
  | 0, a :: text =>
    if sep.isPrefixOf (a :: text) then [] :: splitFrom sep (sep.length - 1) text
    else consPiece a (splitFrom sep 0 text)

/-- `str::split` at a text. -/
def splitText (sep text : List α) : List (List α) := splitFrom sep 0 text

/-- `str::replace`. -/
def replaceText (old new text : List α) : List α := new.intercalate (splitText old text)

theorem splitFrom_append (skipped text : List α) :
    splitFrom sep skipped.length (skipped ++ text) = splitText sep text := by
  induction skipped with
  | nil => rfl
  | cons a skipped ih => exact ih

/-- A separator at the front. -/
theorem splitText_sep_append (hsep : sep ≠ []) (text : List α) :
    splitText sep (sep ++ text) = [] :: splitText sep text := by
  cases sep with
  | nil => exact absurd rfl hsep
  | cons a tail =>
    have hprefix : (a :: tail).isPrefixOf (a :: (tail ++ text)) = true :=
      isPrefixOf_iff_prefix.mpr (prefix_append (a :: tail) text)
    rw [cons_append, splitText, splitFrom, if_pos hprefix]
    exact congrArg _ (splitFrom_append tail text)

theorem splitText_cons (h : ¬ sep <+: a :: text) :
    splitText sep (a :: text) = consPiece a (splitText sep text) := by
  rw [splitText, splitFrom, if_neg (mt isPrefixOf_iff_prefix.mp h)]
  rfl

theorem splitFrom_ne_nil (sep : List α) (skip : ℕ) (text : List α) : splitFrom sep skip text ≠ [] := by
  induction text generalizing skip with
  | nil => cases skip <;> exact cons_ne_nil _ _
  | cons a text ih =>
    cases skip with
    | succ skip => exact ih skip
    | zero =>
      rw [splitFrom]
      split
      · exact cons_ne_nil _ _
      · cases splitFrom sep 0 text <;> exact cons_ne_nil _ _

theorem splitText_ne_nil (sep text : List α) : splitText sep text ≠ [] := splitFrom_ne_nil sep 0 text

/-- A text in which the separator begins nowhere before a position goes with the first piece behind it. -/
theorem splitText_append
    (hrest : splitText sep rest = piece :: pieces)
    (h : ∀ u v, front = u ++ v → v ≠ [] → ¬ sep <+: v ++ rest) :
    splitText sep (front ++ rest) = (front ++ piece) :: pieces := by
  induction front with
  | nil => exact hrest
  | cons a front ih =>
    have htail := ih fun u v huv => h (a :: u) v (by rw [huv, cons_append])
    have hhead : ¬ sep <+: a :: (front ++ rest) := h [] (a :: front) rfl (cons_ne_nil a front)
    rw [cons_append, splitText_cons hhead, htail]
    rfl

/-- Nothing is replaced up to a position before which the text begins nowhere. -/
theorem replaceText_append {new : List α} (h : ∀ u v, front = u ++ v → v ≠ [] → ¬ old <+: v ++ rest) :
    replaceText old new (front ++ rest) = front ++ replaceText old new rest := by
  cases hrest : splitText old rest with
  | nil => exact absurd hrest (splitText_ne_nil old rest)
  | cons piece pieces =>
    rw [replaceText, replaceText, splitText_append hrest h, hrest]
    cases pieces <;> simp [intercalate]

theorem replaceText_old_append (hold : old ≠ []) (new text : List α) :
    replaceText old new (old ++ text) = new ++ replaceText old new text := by
  rw [replaceText, replaceText, splitText_sep_append hold]
  cases hrest : splitText old text with
  | nil => exact absurd hrest (splitText_ne_nil old text)
  | cons piece pieces => simp [intercalate]

@[simp] theorem replaceText_nil (old new : List α) : replaceText old new [] = [] := by
  simp [replaceText, splitText, splitFrom, intercalate]

/-- A letter at which the text does not begin is kept. -/
theorem replaceText_cons {new : List α} (h : ¬ old <+: a :: rest) :
    replaceText old new (a :: rest) = a :: replaceText old new rest := by
  refine @replaceText_append _ _ old [a] rest new fun u v huv hv => ?_
  obtain rfl : u = [] := by
    have hlength := congrArg length huv
    rw [length_append, length_singleton] at hlength
    exact eq_nil_of_length_eq_zero (by have hpos := length_pos_of_ne_nil hv; omega)
  rw [nil_append] at huv
  exact huv ▸ h

/-- A text that is replaced by one with the same first letter leaves the first letter of every text. -/
theorem head?_replaceText (a : α) (old new text : List α) :
    (replaceText (a :: old) (a :: new) text).head? = text.head? := by
  cases text with
  | nil => rw [replaceText_nil]
  | cons b rest =>
    by_cases hfound : a :: old <+: b :: rest
    · obtain ⟨behind, hbehind⟩ := hfound
      obtain rfl := (cons.inj hbehind).1
      rw [← hbehind, replaceText_old_append (cons_ne_nil a old)]
      rfl
    · rw [replaceText_cons hfound]
      rfl

/-- A text in which the separator begins nowhere before a position is one piece up to there. -/
theorem splitText_append_of_forall_not (hrest : splitText sep rest = [] :: pieces)
    (h : ∀ u v, piece = u ++ v → v ≠ [] → ¬ sep <+: v ++ rest) : splitText sep (piece ++ rest) = piece :: pieces := by
  have hfirst := splitText_append hrest h
  rwa [append_nil] at hfirst

/-- A piece without the first letter of the separator ends where the separator stands. -/
theorem splitText_append_sep (h : a ∉ piece) (rest : List α) :
    splitText (a :: tail) (piece ++ (a :: tail) ++ rest) = piece :: splitText (a :: tail) rest := by
  rw [append_assoc]
  refine splitText_append_of_forall_not (splitText_sep_append (cons_ne_nil a tail) rest) ?_
  intro u v huv hv hprefix
  cases v with
  | nil => exact hv rfl
  | cons b v =>
    obtain rfl := (cons_prefix_cons.mp hprefix).1
    exact h (huv ▸ mem_append_right u mem_cons_self)

/-- A text without the first letter of the separator is one piece. -/
theorem splitText_of_not_mem (h : a ∉ text) : splitText (a :: tail) text = [text] := by
  have hnil : splitText (a :: tail) [] = [] :: [] := rfl
  have hwhole := @splitText_append_of_forall_not _ _ _ _ text _ hnil ?_
  · rwa [append_nil] at hwhole
  · intro u v huv hv hprefix
    cases v with
    | nil => exact hv rfl
    | cons b v =>
      obtain rfl := (cons_prefix_cons.mp hprefix).1
      exact h (huv ▸ mem_append_right u mem_cons_self)

omit [DecidableEq α] in
theorem consPiece_append (a : α) (h : pieces ≠ []) (more : List (List α)) :
    consPiece a (pieces ++ more) = consPiece a pieces ++ more := by
  cases pieces with
  | nil => exact absurd rfl h
  | cons piece pieces => rfl

/-- A separator of one letter cuts a text in two that are split on their own. -/
theorem splitText_append_cons (a : α) (front rest : List α) :
    splitText [a] (front ++ a :: rest) = splitText [a] front ++ splitText [a] rest := by
  induction front with
  | nil => exact splitText_sep_append (cons_ne_nil a []) rest
  | cons b front ih =>
    by_cases hb : a = b
    · have hwhole := splitText_sep_append (cons_ne_nil a []) (front ++ a :: rest)
      have hfront := splitText_sep_append (cons_ne_nil a []) front
      rw [← hb]
      exact hwhole.trans (by rw [ih]; exact (congrArg (· ++ splitText [a] rest) hfront).symm)
    · have hne : ∀ text, ¬ [a] <+: b :: text := fun text h => hb (cons_prefix_cons.mp h).1
      rw [cons_append, splitText_cons (hne _), splitText_cons (hne _), ih,
        consPiece_append b (splitText_ne_nil [a] front)]

theorem splitText_singleton_spec
    (h : splitText [a] text = piece :: pieces) :
    piece <+: text ∧ ∀ el ∈ pieces, ∃ front rest, text = front ++ [a] ++ el ++ rest := by
  induction text generalizing piece pieces with
  | nil =>
    obtain ⟨rfl, rfl⟩ := cons.inj h
    exact ⟨List.nil_prefix, fun el hel => absurd hel not_mem_nil⟩
  | cons b text ih =>
    obtain ⟨first, others, hrest⟩ := exists_cons_of_ne_nil (splitText_ne_nil [a] text)
    obtain ⟨⟨tail, htail⟩, hothers⟩ := ih hrest
    have hbehind : ∀ el ∈ others, ∃ front rest, b :: text = front ++ [a] ++ el ++ rest := by
      intro el hel
      obtain ⟨front, rest, heq⟩ := hothers el hel
      exact ⟨b :: front, rest, congrArg (b :: ·) heq⟩
    by_cases hb : a = b
    · have hcut : splitText [a] (b :: text) = [] :: splitText [a] text :=
        hb ▸ splitText_sep_append (cons_ne_nil a []) text
      rw [hcut, hrest] at h
      obtain ⟨rfl, rfl⟩ := cons.inj h
      refine ⟨List.nil_prefix, fun el hel => ?_⟩
      rcases mem_cons.mp hel with rfl | hel
      · exact ⟨[], tail, by rw [← htail, hb]; rfl⟩
      · exact hbehind el hel
    · have hne : ¬ [a] <+: b :: text := fun hprefix => hb (cons_prefix_cons.mp hprefix).1
      rw [splitText_cons hne, hrest] at h
      obtain ⟨rfl, rfl⟩ := cons.inj h
      exact ⟨cons_prefix_cons.mpr ⟨rfl, tail, htail⟩, hbehind⟩

/-- A piece begins where the text does, or behind a separator. -/
theorem exists_of_mem_splitText {el : List α} (h : el ∈ splitText [a] text) :
    ∃ front rest, text = front ++ el ++ rest ∧ (front = [] ∨ ∃ front', front = front' ++ [a]) := by
  obtain ⟨piece, pieces, hsplit⟩ := exists_cons_of_ne_nil (splitText_ne_nil [a] text)
  obtain ⟨⟨tail, htail⟩, hpieces⟩ := splitText_singleton_spec hsplit
  rw [hsplit] at h
  rcases mem_cons.mp h with rfl | hmem
  · exact ⟨[], tail, htail.symm, .inl rfl⟩
  · obtain ⟨front, rest, heq⟩ := hpieces el hmem
    exact ⟨front ++ [a], rest, heq, .inr ⟨front, rfl⟩⟩

end UnyDesk.Lib
