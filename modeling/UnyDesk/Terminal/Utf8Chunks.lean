import UnyDesk.Lib.Utf8Code
import UnyDesk.Proto.Message

/-!
# Terminal output in chunks of whole characters

What is read from a terminal can end inside a character. The accumulator keeps back the beginning of a character until
the next read brings the rest, and it keeps nothing else back, so that the output goes on complete and, where it is a
text, every chunk of it is one.
-/

namespace UnyDesk

open Lib Lib.Utf8 List Option Nat

/-- The scan back over the last bytes, with the number of bytes that it has already seen. -/
def splitPointFrom (length : ℕ) : ℕ → Bytes → ℕ
  | _, [] => length
  | seen, b :: before =>
    if b &&& 0x80 = 0 then length
    else if b &&& 0xC0 = 0x80 then splitPointFrom length (seen + 1) before
    else
      let seqLen :=
        if b &&& 0xE0 = 0xC0 then some 2
        else if b &&& 0xF0 = 0xE0 then some 3
        else if b &&& 0xF8 = 0xF0 then some 4
        else none
      match seqLen with
      | none => length
      | some seqLen => if seqLen ≤ seen + 1 then length else length - (seen + 1)

def findUtf8SplitPoint (buf : Bytes) : ℕ :=
  if buf = [] then 0 else splitPointFrom buf.length 0 (buf.reverse.take 3)

structure Utf8ChunkAccumulator where
  remainder : Bytes := []

namespace Utf8ChunkAccumulator

def pushChunk (acc : Utf8ChunkAccumulator) (data : Bytes) : Utf8ChunkAccumulator × Option Bytes :=
  if data = [] then (acc, none)
  else
    let combined := acc.remainder ++ data
    let split := findUtf8SplitPoint combined
    if split = combined.length then ({}, some combined)
    -- bytes that are no text so far are not held back
    else if acc.remainder = [] ∧ 0 < split ∧ decode? (combined.take split) = none then ({}, some combined)
    else ({ remainder := combined.drop split }, if combined.take split = [] then none else some (combined.take split))

def finish (acc : Utf8ChunkAccumulator) : Utf8ChunkAccumulator × Option Bytes :=
  if acc.remainder = [] then (acc, none) else ({}, some acc.remainder)

/-- The chunks one after the other, with what each of them sends on. -/
def pushChunks : Utf8ChunkAccumulator → List Bytes → Utf8ChunkAccumulator × List Bytes
  | acc, [] => (acc, [])
  | acc, data :: chunks =>
    let (acc, output) := acc.pushChunk data
    let (acc, outputs) := pushChunks acc chunks
    (acc, output.toList ++ outputs)

end Utf8ChunkAccumulator

section SplitPoint

variable {length seen : ℕ} {before tail buf : Bytes} {lead : UInt8}

theorem le_splitPointFrom (length seen : ℕ) (before : Bytes) :
    length ≤ splitPointFrom length seen before + (seen + before.length) := by
  induction before generalizing seen with
  | nil => exact le_add_right length _
  | cons b before ih =>
    have hnext := ih (seen + 1)
    rw [splitPointFrom, length_cons]
    split
    · omega
    · split
      · omega
      · dsimp only
        split
        · omega
        · split <;> omega

/-- Continuation bytes are passed. -/
theorem splitPointFrom_continuation (htail : ∀ b ∈ tail, b &&& 0xC0 = 0x80) :
    splitPointFrom length seen (tail ++ before) = splitPointFrom length (seen + tail.length) before := by
  induction tail generalizing seen with
  | nil => rfl
  | cons b tail ih =>
    obtain ⟨hb, htail⟩ := forall_mem_cons.mp htail
    have hhigh : b &&& 0x80 ≠ 0 := by
      have hmark : b &&& 0x80 = 0x80 &&& 0x80 := and_of_and hb (by decide)
      rw [hmark]
      decide
    rw [cons_append, splitPointFrom, if_neg hhigh, if_pos hb, ih htail, length_cons, add_assoc, add_comm 1]

/-- The scan ends at the first byte of a character, which tells whether the bytes behind it are all there. -/
theorem splitPointFrom_lead (hlead : sequenceLength lead ≠ 0) :
    splitPointFrom length seen (lead :: before) =
      if sequenceLength lead ≤ seen + 1 then length else length - (seen + 1) := by
  have hbegins : ¬lead &&& 0xC0 = 0x80 := fun h => hlead (sequenceLength_eq_zero h)
  rw [splitPointFrom, if_neg hbegins]
  rw [sequenceLength] at hlead ⊢
  by_cases hone : lead &&& 0x80 = 0
  · simp [hone]
  by_cases htwo : lead &&& 0xE0 = 0xC0
  · simp [hone, htwo]
  by_cases hthree : lead &&& 0xF0 = 0xE0
  · simp [hone, htwo, hthree]
  by_cases hfour : lead &&& 0xF8 = 0xF0
  · simp [hone, htwo, hthree, hfour]
  · simp [hone, htwo, hthree, hfour] at hlead

/-- At most three bytes are behind the split point. -/
theorem length_drop_findUtf8SplitPoint (buf : Bytes) : (buf.drop (findUtf8SplitPoint buf)).length ≤ 3 := by
  rw [length_drop, findUtf8SplitPoint]
  split
  · rename_i hnil
    rw [hnil]
    exact zero_le 3
  · have hscan := le_splitPointFrom buf.length 0 (buf.reverse.take 3)
    have htake := length_take_le 3 buf.reverse
    omega

/-- The split point of bytes that end with a character, or with the beginning of one. -/
theorem findUtf8SplitPoint_eq (hlead : sequenceLength lead ≠ 0) (htail : ∀ b ∈ tail, b &&& 0xC0 = 0x80)
    (hlength : tail.length ≤ 2 ∨ tail.length = 3 ∧ sequenceLength lead ≤ 4) :
    findUtf8SplitPoint (before ++ lead :: tail) =
      if sequenceLength lead ≤ tail.length + 1 then (before ++ lead :: tail).length else before.length := by
  have hne : before ++ lead :: tail ≠ [] := append_ne_nil_of_right_ne_nil before (cons_ne_nil lead tail)
  have hreverse : (before ++ lead :: tail).reverse = tail.reverse ++ lead :: before.reverse := by simp
  have hcontinues : ∀ b ∈ tail.reverse, b &&& 0xC0 = 0x80 := fun b hb => htail b (mem_reverse.mp hb)
  rw [findUtf8SplitPoint, if_neg hne, hreverse]
  rcases hlength with hshort | ⟨hthree, hfour⟩
  · obtain ⟨n, hn⟩ : ∃ n, 3 = tail.reverse.length + (n + 1) := ⟨2 - tail.length, by rw [length_reverse]; omega⟩
    rw [hn, take_length_add_append, take_succ_cons, splitPointFrom_continuation hcontinues, length_reverse,
      zero_add, splitPointFrom_lead hlead]
    have hbefore : (before ++ lead :: tail).length - (tail.length + 1) = before.length := by
      rw [length_append, length_cons]
      omega
    rw [hbefore]
  · have htake : (tail.reverse ++ lead :: before.reverse).take 3 = tail.reverse ++ [] := by
      rw [append_nil, ← hthree, ← length_reverse, take_left']
      rfl
    rw [htake, splitPointFrom_continuation hcontinues, splitPointFrom, if_pos (by omega)]

/-- A text is not split. -/
theorem findUtf8SplitPoint_of_valid (h : Valid buf) : findUtf8SplitPoint buf = buf.length := by
  by_cases hnil : buf = []
  · rw [findUtf8SplitPoint, if_pos hnil, hnil, length_nil]
  · obtain ⟨before, lead, tail, rfl, hlead, hlength, htail⟩ := h.exists_last hnil
    rw [findUtf8SplitPoint_eq (by omega) htail (by omega), if_pos (le_of_eq hlead)]

/-- A text with the beginning of a character behind it is split before that. -/
theorem findUtf8SplitPoint_of_begun {part : Bytes} (hpart : charCode.Partial part) (hne : part ≠ []) :
    findUtf8SplitPoint (before ++ part) = before.length := by
  obtain ⟨lead, tail, rfl, hlead, hlength, htail⟩ := partial_shape hpart hne
  rw [length_cons] at hlead hlength
  rw [findUtf8SplitPoint_eq (by omega) htail (by omega), if_neg (not_le.mpr hlead)]

end SplitPoint

namespace Utf8ChunkAccumulator

section Push

variable {acc : Utf8ChunkAccumulator} {data future : Bytes}

/-- Nothing is lost: a chunk is sent on or kept back, behind what was kept back before. -/
theorem pushChunk_complete (acc : Utf8ChunkAccumulator) (data : Bytes) :
    (acc.pushChunk data).2.getD [] ++ (acc.pushChunk data).1.remainder = acc.remainder ++ data := by
  rw [pushChunk]
  split
  · rename_i hdata
    rw [hdata, append_nil]
    rfl
  · dsimp only
    split
    · exact append_nil _
    · split
      · exact append_nil _
      · by_cases htake : (acc.remainder ++ data).take (findUtf8SplitPoint (acc.remainder ++ data)) = []
        · have hcombined := take_append_drop (findUtf8SplitPoint (acc.remainder ++ data)) (acc.remainder ++ data)
          rw [htake] at hcombined
          rw [if_pos htake]
          exact hcombined
        · rw [if_neg htake]
          exact take_append_drop _ _

theorem pushChunk_remainder_length (h : acc.remainder.length ≤ 3) (data : Bytes) :
    (acc.pushChunk data).1.remainder.length ≤ 3 := by
  rw [pushChunk]
  split
  · exact h
  · dsimp only
    split
    · exact zero_le 3
    · split
      · exact zero_le 3
      · exact length_drop_findUtf8SplitPoint _

/-- Where a text goes on, a chunk that is sent on is a text and what is kept back is the beginning of a character. -/
theorem pushChunk_valid (hpart : charCode.Partial acc.remainder) (h : Valid (acc.remainder ++ data ++ future)) :
    (∀ output ∈ (acc.pushChunk data).2, Valid output) ∧ charCode.Partial (acc.pushChunk data).1.remainder := by
  rw [pushChunk]
  split
  · exact ⟨fun output houtput => absurd houtput (not_mem_none output), hpart⟩
  · obtain ⟨whole, part, hcombined, hwhole, hbegins⟩ := h.of_prefix
    dsimp only
    rw [hcombined]
    by_cases hnil : part = []
    · subst hnil
      rw [append_nil, if_pos (findUtf8SplitPoint_of_valid hwhole)]
      refine ⟨fun output houtput => ?_, .inl rfl⟩
      rw [← mem_some.mp houtput]
      exact hwhole
    · have hlength : ¬whole.length = (whole ++ part).length := by
        have hpos := length_pos_iff.mpr hnil
        rw [length_append]
        omega
      have hread : decode? whole ≠ none := fun hnone => decode?_eq_none_iff.mp hnone hwhole
      rw [findUtf8SplitPoint_of_begun hbegins hnil, if_neg hlength, take_left, drop_left,
        if_neg fun hguess => hread hguess.2.2]
      refine ⟨fun output houtput => ?_, hbegins⟩
      split at houtput
      · cases houtput
      · rw [← mem_some.mp houtput]
        exact hwhole

end Push

section Run

variable {acc : Utf8ChunkAccumulator} {chunks : List Bytes}

theorem flatten_toList (output : Option Bytes) (outputs : List Bytes) :
    (output.toList ++ outputs).flatten = output.getD [] ++ outputs.flatten := by
  cases output <;> rfl

theorem pushChunks_complete (acc : Utf8ChunkAccumulator) (chunks : List Bytes) :
    (acc.pushChunks chunks).2.flatten ++ (acc.pushChunks chunks).1.remainder = acc.remainder ++ chunks.flatten := by
  induction chunks generalizing acc with
  | nil => exact (append_nil acc.remainder).symm
  | cons data chunks ih =>
    rw [pushChunks]
    dsimp only
    rw [flatten_toList, append_assoc, ih, ← append_assoc, pushChunk_complete, append_assoc, flatten_cons]

theorem pushChunks_remainder_length (h : acc.remainder.length ≤ 3) (chunks : List Bytes) :
    (acc.pushChunks chunks).1.remainder.length ≤ 3 := by
  induction chunks generalizing acc with
  | nil => exact h
  | cons data chunks ih => exact ih (pushChunk_remainder_length h data)

theorem pushChunks_valid (hpart : charCode.Partial acc.remainder) (h : Valid (acc.remainder ++ chunks.flatten)) :
    (∀ output ∈ (acc.pushChunks chunks).2, Valid output) ∧ (acc.pushChunks chunks).1.remainder = [] := by
  induction chunks generalizing acc with
  | nil =>
    rw [flatten_nil, append_nil] at h
    exact ⟨fun output houtput => absurd houtput not_mem_nil, hpart.eq_nil (valid_iff.mp h)⟩
  | cons data chunks ih =>
    rw [flatten_cons, ← append_assoc] at h
    obtain ⟨houtput, hkept⟩ := pushChunk_valid hpart h
    have hsent : Valid ((acc.pushChunk data).2.getD []) := by
      cases hnext : (acc.pushChunk data).2 with
      | none => exact valid_nil
      | some output => exact houtput output hnext
    rw [← pushChunk_complete acc data, append_assoc] at h
    obtain ⟨houtputs, hend⟩ := ih hkept (hsent.of_append h)
    refine ⟨fun output hmem => ?_, hend⟩
    rcases mem_append.mp hmem with hfirst | hrest
    · exact houtput output (mem_toList.mp hfirst)
    · exact houtputs output hrest

end Run

theorem finish_getD (acc : Utf8ChunkAccumulator) : acc.finish.2.getD [] = acc.remainder := by
  rw [finish]
  split
  · rename_i hnil
    rw [hnil]
    rfl
  · rfl

/-- What the accumulator sends on is what it was given, it keeps back at most three bytes, and of a text it sends on
texts and keeps nothing at the end. -/
theorem pushChunks_finish (chunks : List Bytes) :
    let run := pushChunks {} chunks
    run.2.flatten ++ run.1.finish.2.getD [] = chunks.flatten ∧
      (∀ given rest, chunks = given ++ rest → (pushChunks {} given).1.remainder.length ≤ 3) ∧
      (Valid chunks.flatten → (∀ output ∈ run.2, Valid output) ∧ run.1.finish.2 = none) := by
  have hcomplete := pushChunks_complete {} chunks
  have hstart : ({} : Utf8ChunkAccumulator).remainder.length ≤ 3 := Nat.zero_le 3
  have hnothing : charCode.Partial ({} : Utf8ChunkAccumulator).remainder := .inl rfl
  refine ⟨?_, fun given _ _ => pushChunks_remainder_length hstart given, fun hvalid => ?_⟩
  · rw [finish_getD]
    exact hcomplete
  · obtain ⟨houtputs, hend⟩ := pushChunks_valid hnothing hvalid
    refine ⟨houtputs, ?_⟩
    rw [finish, if_pos hend]

/-- A character that is read in two pieces. -/
example : pushChunks {} [[0x61, 0xE2], [0x82, 0xAC]] = ({}, [[0x61], [0xE2, 0x82, 0xAC]]) := rfl

end Utf8ChunkAccumulator

end UnyDesk
