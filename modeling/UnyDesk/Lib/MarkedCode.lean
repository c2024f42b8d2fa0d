import Mathlib.Computability.Language

/-!
# Codes with marked words

Every word of the code begins with a letter that tells the length of the word, and no other letter of a word can begin
one. A stream of words that is cut anywhere therefore shows where its words begin: behind the cut the letters that begin
no word are the rest of the word that was cut, and before the cut the last letter that begins one tells how much is missing.
-/

namespace UnyDesk.Lib

open Computability List Language

structure MarkedCode (α : Type*) where
  words : Language α
  /-- The length of the words that the letter begins, and 0 if it begins none. -/
  wordLength : α → ℕ
  shape : ∀ word ∈ words, ∃ lead tail,
    word = lead :: tail ∧ wordLength lead = tail.length + 1 ∧ ∀ a ∈ tail, wordLength a = 0

namespace MarkedCode

variable {α : Type*} (code : MarkedCode α) {lead : α} {tail : List α}

/-- Words one behind the other. -/
def Stream (letters : List α) : Prop := letters ∈ code.words∗

/-- The beginning of a word that lacks its end, or nothing. -/
def Partial (letters : List α) : Prop :=
  letters = [] ∨ ∃ missing, missing ≠ [] ∧ letters ++ missing ∈ code.words

variable {code} {word letters letters' : List α}

theorem ne_nil_of_mem_words (h : word ∈ code.words) : word ≠ [] := by
  obtain ⟨lead, tail, rfl, -, -⟩ := code.shape word h
  exact cons_ne_nil lead tail

/-- A word that begins as another one is as long. -/
theorem length_eq_of_mem_words (h : lead :: tail ∈ code.words) : code.wordLength lead = tail.length + 1 := by
  obtain ⟨lead', tail', hword, hlength, -⟩ := code.shape _ h
  obtain ⟨rfl, rfl⟩ := cons.inj hword
  exact hlength

theorem tail_of_mem_words (h : lead :: tail ∈ code.words) : ∀ a ∈ tail, code.wordLength a = 0 := by
  obtain ⟨lead', tail', hword, -, htail⟩ := code.shape _ h
  obtain ⟨rfl, rfl⟩ := cons.inj hword
  exact htail

@[simp] theorem stream_nil : code.Stream [] := nil_mem_kstar code.words

theorem Stream.cons (hword : word ∈ code.words) (h : code.Stream letters) : code.Stream (word ++ letters) := by
  obtain ⟨words, rfl, hwords⟩ := mem_kstar.mp h
  exact mem_kstar.mpr ⟨word :: words, rfl, forall_mem_cons.mpr ⟨hword, hwords⟩⟩

theorem stream_of_mem_words (h : word ∈ code.words) : code.Stream word := by
  have hword := stream_nil.cons h
  rwa [append_nil] at hword

/-- A stream is empty, or a word before another stream. -/
theorem stream_induction {P : ∀ letters, code.Stream letters → Prop} (nil : P [] stream_nil)
    (cons : ∀ word letters (hword : word ∈ code.words) (h : code.Stream letters), P letters h →
      P (word ++ letters) (h.cons hword))
    {letters : List α} (h : code.Stream letters) : P letters h := by
  obtain ⟨words, heq, hwords⟩ := mem_kstar.mp h
  induction words generalizing letters with
  | nil =>
    subst heq
    exact nil
  | cons word words ih =>
    obtain ⟨hword, hrest⟩ := forall_mem_cons.mp hwords
    subst heq
    have hstream : code.Stream words.flatten := join_mem_kstar hrest
    exact cons word words.flatten hword hstream (ih hstream rfl hrest)

theorem Stream.append (h : code.Stream letters) (h' : code.Stream letters') : code.Stream (letters ++ letters') := by
  induction h using stream_induction with
  | nil => exact h'
  | cons word letters hword _ ih =>
    rw [append_assoc]
    exact ih.cons hword

theorem stream_flatten {streams : List (List α)} (h : ∀ letters ∈ streams, code.Stream letters) :
    code.Stream streams.flatten := by
  induction streams with
  | nil => exact stream_nil
  | cons letters streams ih =>
    obtain ⟨hletters, hstreams⟩ := forall_mem_cons.mp h
    exact hletters.append (ih hstreams)

/-- A stream that is not empty begins with a word. -/
theorem Stream.exists_word (h : code.Stream letters) (hne : letters ≠ []) :
    ∃ word rest, word ∈ code.words ∧ code.Stream rest ∧ letters = word ++ rest := by
  induction h using stream_induction with
  | nil => exact absurd rfl hne
  | cons word letters hword hrest _ => exact ⟨word, letters, hword, hrest, rfl⟩

/-- Behind a stream that begins it a stream goes on with words. -/
theorem Stream.of_append (h : code.Stream letters) (happend : code.Stream (letters ++ letters')) :
    code.Stream letters' := by
  induction h using stream_induction with
  | nil => exact happend
  | cons word letters hword hrest ih =>
    have hne : word ++ letters ++ letters' ≠ [] := by
      rw [append_assoc]
      exact append_ne_nil_of_left_ne_nil (ne_nil_of_mem_words hword) _
    obtain ⟨first, rest, hfirst, hafter, heq⟩ := happend.exists_word hne
    obtain ⟨lead, tail, rfl, hlength, -⟩ := code.shape word hword
    obtain ⟨lead', tail', rfl, hlength', -⟩ := code.shape first hfirst
    rw [append_assoc] at heq
    have hlead : lead = lead' := (cons.inj heq).1
    have htails : (lead :: tail).length = (lead' :: tail').length := by
      rw [length_cons, length_cons, ← hlength, ← hlength', hlead]
    rw [← (append_inj heq htails).2] at hafter
    exact ih hafter

/-- Where a stream is cut no word is cut, or one is. -/
theorem Stream.cut (h : code.Stream (letters ++ letters')) :
    ∃ whole left right rest, letters = whole ++ left ∧ letters' = right ++ rest ∧ code.Stream whole ∧ code.Stream rest ∧
      (left = [] ∧ right = [] ∨ left ≠ [] ∧ right ≠ [] ∧ left ++ right ∈ code.words) := by
  generalize hall : letters ++ letters' = all at h
  induction h using stream_induction generalizing letters with
  | nil =>
    obtain ⟨rfl, rfl⟩ := append_eq_nil_iff.mp hall
    exact ⟨[], [], [], [], rfl, rfl, stream_nil, stream_nil, .inl ⟨rfl, rfl⟩⟩
  | cons word rest hword hrest ih =>
    rcases append_eq_append_iff.mp hall with ⟨right, hwords, hletters'⟩ | ⟨letters, hletters, hgo⟩
    · by_cases hleft : letters = []
      · subst hleft
        rw [nil_append] at hwords
        refine ⟨[], [], [], letters', rfl, rfl, stream_nil, ?_, .inl ⟨rfl, rfl⟩⟩
        rw [hletters', ← hwords]
        exact hrest.cons hword
      · by_cases hright : right = []
        · subst hright
          rw [append_nil] at hwords
          exact ⟨letters, [], [], rest, (append_nil letters).symm, hletters', hwords ▸ stream_of_mem_words hword, hrest,
            .inl ⟨rfl, rfl⟩⟩
        · exact ⟨[], letters, right, rest, rfl, hletters', stream_nil, hrest, .inr ⟨hleft, hright, hwords ▸ hword⟩⟩
    · obtain ⟨whole, left, right, rest', hleft, hright, hwhole, hrest', hcut⟩ := ih hgo.symm
      refine ⟨word ++ whole, left, right, rest', ?_, hright, hwhole.cons hword, hrest', hcut⟩
      rw [hletters, hleft, append_assoc]

/-- The beginning of a stream is words and the beginning of another one. -/
theorem Stream.prefix_eq (h : code.Stream (letters ++ letters')) :
    ∃ whole part, letters = whole ++ part ∧ code.Stream whole ∧ code.Partial part := by
  obtain ⟨whole, left, right, -, hletters, -, hwhole, -, hcut⟩ := h.cut
  refine ⟨whole, left, hletters, hwhole, ?_⟩
  rcases hcut with ⟨hleft, -⟩ | ⟨-, hright, hword⟩
  · exact .inl hleft
  · exact .inr ⟨right, hright, hword⟩

/-- A letter that can begin a word does so in every stream. -/
theorem Stream.of_begins {rest : List α} (h : code.Stream (letters ++ lead :: rest))
    (hlead : code.wordLength lead ≠ 0) : code.Stream letters ∧ code.Stream (lead :: rest) := by
  obtain ⟨whole, left, right, rest', hletters, hrest, hwhole, hrest', hcut⟩ := h.cut
  rcases hcut with ⟨rfl, rfl⟩ | ⟨hleft, hright, hword⟩
  · rw [append_nil] at hletters
    exact ⟨hletters ▸ hwhole, hrest ▸ hrest'⟩
  · obtain ⟨first, left, rfl⟩ := exists_cons_of_ne_nil hleft
    obtain ⟨lead', right, rfl⟩ := exists_cons_of_ne_nil hright
    obtain ⟨rfl, -⟩ := cons.inj hrest
    exact absurd (tail_of_mem_words hword lead (mem_append_right left mem_cons_self)) hlead

/-- A beginning that lacks its end is no stream. -/
theorem Partial.eq_nil (hpart : code.Partial letters) (h : code.Stream letters) : letters = [] := by
  rcases hpart with hnil | ⟨missing, hmissing, hword⟩
  · exact hnil
  · by_contra hne
    obtain ⟨word, rest, hfirst, -, rfl⟩ := h.exists_word hne
    obtain ⟨lead, tail, rfl, hlength, -⟩ := code.shape word hfirst
    have hwhole : code.wordLength lead = (tail ++ rest ++ missing).length + 1 := length_eq_of_mem_words hword
    have hpos := length_pos_iff.mpr hmissing
    rw [length_append, length_append] at hwhole
    omega

/-- A stream that is not empty ends with a word. -/
theorem Stream.exists_last (h : code.Stream letters) (hne : letters ≠ []) :
    ∃ front word, letters = front ++ word ∧ word ∈ code.words := by
  induction h using stream_induction with
  | nil => exact absurd rfl hne
  | cons word letters hword _ ih =>
    by_cases hletters : letters = []
    · exact ⟨[], word, by rw [hletters, append_nil, nil_append], hword⟩
    · obtain ⟨front, last, rfl, hlast⟩ := ih hletters
      exact ⟨word ++ front, last, (append_assoc word front last).symm, hlast⟩

end MarkedCode

end UnyDesk.Lib
