import Mathlib.Data.List.Perm.Basic
import Mathlib.Data.List.Sort

/-!
# Pages of a sorted table

A table is read page by page, and every page is cut out of an order of its rows of its own, which only has to be sorted
by a key. The pages share the rows out exactly when no page ends inside a group of rows of one key: such a group may be
ordered differently for the next page.
-/

namespace UnyDesk.Lib.Paging

open List Bool Nat

variable {A K : Type*} [LinearOrder K]

/-- An order of the rows that the sort key allows. -/
def Ordered (key : A → K) (rows order : List A) : Prop :=
  order.Perm rows ∧ order.Pairwise fun a b => key a ≤ key b

/-- The rows of a page; the first page has the number `0`. -/
def page (size k : ℕ) (order : List A) : List A := (order.drop (k * size)).take size

/-- The number of pages. -/
def pageCount (total size : ℕ) : ℕ := (total + size - 1) / size

/-- The rows, page after page, when every page has an order of its own. -/
def pages (size : ℕ) (rows : List A) (orders : ℕ → List A) : List A :=
  (List.range (pageCount rows.length size)).flatMap fun k => page size k (orders k)

/-- How many rows come before the row in every order. -/
def before (key : A → K) (rows : List A) (a : A) : ℕ := rows.countP fun b => key b < key a

/-- How many rows come before the last place of the row in any order, together with it. -/
def upTo (key : A → K) (rows : List A) (a : A) : ℕ := rows.countP fun b => key b ≤ key a

/-- Rows with the key of this row lie on both sides of the place. -/
def Crosses (key : A → K) (rows : List A) (place : ℕ) (a : A) : Prop :=
  before key rows a < place ∧ place < upTo key rows a

section Places

variable {key : A → K} {rows order : List A} {a : A} {i : ℕ} {P : A → Bool}

section Sorted

variable (h : order.Pairwise fun a b => key a ≤ key b)
include h

theorem Ordered.key_getElem_le {j : ℕ} (hij : i ≤ j)
    (hi : i < order.length) (hj : j < order.length) : key order[i] ≤ key order[j] := by
  rcases eq_or_lt_of_le hij with rfl | hlt
  · exact le_refl _
  · exact pairwise_iff_getElem.mp h i j _ hj hlt

section

variable (hi : i < order.length)
include hi

/-- What holds up to a place holds of more rows than come before it. -/
theorem lt_countP_of_getElem (hP : ∀ b, key b ≤ key order[i] → P b = true) : i < order.countP P := by
  have htake : (order.take (i + 1)).countP P = (order.take (i + 1)).length := by
    refine countP_eq_length.mpr fun b hb => ?_
    obtain ⟨j, hj, rfl⟩ := mem_take_iff_getElem.mp hb
    exact hP _ (Ordered.key_getElem_le h (by omega) (by omega) hi)
  have hlength : (order.take (i + 1)).length = i + 1 := by
    rw [length_take]
    omega
  have hsplit : order.countP P = (order.take (i + 1)).countP P + (order.drop (i + 1)).countP P := by
    rw [← countP_append, take_append_drop]
  omega

/-- What fails from a place on holds of no more rows than come before it. -/
theorem countP_le_of_getElem (hP : ∀ b, key order[i] ≤ key b → P b = false) : order.countP P ≤ i := by
  have hdrop : (order.drop i).countP P = 0 := by
    refine countP_eq_zero.mpr fun b hb => ?_
    obtain ⟨j, hj, rfl⟩ := mem_drop_iff_getElem.mp hb
    rw [hP _ (Ordered.key_getElem_le h (le_add_right i j) hi (by omega))]
    exact false_ne_true
  have hsplit : order.countP P = (order.take i).countP P + (order.drop i).countP P := by
    rw [← countP_append, take_append_drop]
  have htake : (order.take i).countP P ≤ (order.take i).length := countP_le_length
  rw [length_take] at htake
  omega

/-- The place of a row lies in its group. -/
theorem before_le_place : before key order order[i] ≤ i :=
  countP_le_of_getElem h hi fun _ hb => decide_eq_false (not_lt_of_ge hb)

theorem place_lt_upTo : i < upTo key order order[i] :=
  lt_countP_of_getElem h hi fun _ hb => decide_eq_true hb

/-- A place in the group of a row has its key. -/
theorem key_eq_of_place (hbefore : before key order a ≤ i) (hupTo : i < upTo key order a) : key order[i] = key a := by
  refine le_antisymm (le_of_not_gt fun hgt => ?_) (le_of_not_gt fun hlt => ?_)
  · have hle : upTo key order a ≤ i :=
      countP_le_of_getElem h hi fun b hb => decide_eq_false (not_le_of_gt (lt_of_lt_of_le hgt hb))
    omega
  · have hlt' : i < before key order a :=
      lt_countP_of_getElem h hi fun b hb => decide_eq_true (lt_of_le_of_lt hb hlt)
    omega

end

end Sorted

theorem before_perm (h : order.Perm rows) : before key order a = before key rows a := h.countP_eq _

theorem upTo_perm (h : order.Perm rows) : upTo key order a = upTo key rows a := h.countP_eq _

theorem upTo_le_length : upTo key rows a ≤ rows.length := countP_le_length

theorem before_lt_length (ha : a ∈ rows) : before key rows a < rows.length := by
  refine lt_of_le_of_ne countP_le_length fun heq => ?_
  have hself := countP_eq_length.mp heq a ha
  exact absurd (of_decide_eq_true hself) (lt_irrefl _)

theorem upTo_eq_add : upTo key rows a = before key rows a + rows.countP fun b => key b = key a := by
  induction rows with
  | nil => rfl
  | cons b rows ih =>
    simp only [upTo, before, countP_cons] at ih ⊢
    rw [ih]
    rcases lt_trichotomy (key b) (key a) with hlt | heq | hgt
    · simp only [hlt, hlt.le, hlt.ne, decide_true, decide_false, false_eq_true, ↓reduceIte]
      omega
    · simp only [heq, le_refl, lt_irrefl, decide_true, decide_false, false_eq_true, ↓reduceIte]
      omega
    · simp only [hgt.not_gt, hgt.not_ge, hgt.ne', decide_false, false_eq_true, ↓reduceIte]
      omega

/-- Where the keys are distinct, a group is a single row. -/
theorem not_crosses_of_nodup (hnodup : (rows.map key).Nodup) (ha : a ∈ rows) (place : ℕ) :
    ¬ Crosses key rows place a := by
  rintro ⟨hbefore, hupTo⟩
  have hcount : rows.countP (fun b => key b = key a) = 1 := by
    have hone := count_eq_one_of_mem hnodup (mem_map_of_mem ha)
    rw [List.count, countP_map] at hone
    exact hone
  rw [upTo_eq_add, hcount] at hupTo
  omega

end Places

section Share

variable {key : A → K} {rows order : List A} {size k : ℕ}

theorem mem_page {i : ℕ} (hi : i < order.length) (hsize : 0 < size) (hk : i / size = k) :
    order[i] ∈ page size k order := by
  subst hk
  have hstart : i / size * size ≤ i := div_mul_le_self i size
  have hend : i < (i / size + 1) * size := lt_mul_of_div_lt (lt_succ_self _) hsize
  rw [succ_mul] at hend
  refine mem_take_iff_getElem.mpr ⟨i - i / size * size, ?_, ?_⟩
  · rw [length_drop]
    omega
  · rw [getElem_drop]
    congr 1
    omega

theorem mem_page_append {front back : List A} {a : A} (hsize : 0 < size) (hk : front.length / size = k) :
    a ∈ page size k (front ++ a :: back) := by
  have hlength : front.length < (front ++ a :: back).length := by simp
  have hmem := mem_page hlength hsize hk
  have ha : (front ++ a :: back)[front.length] = a := by simp
  rwa [ha] at hmem

/-- A page holds the rows with its number, if the rows are numbered in their order. -/
theorem page_eq_filter_of_number {number : A → ℕ} (hsize : 0 < size)
    (hnumber : ∀ i (hi : i < order.length), number order[i] = i / size) :
    page size k order = order.filter fun a => number a = k := by
  have hall : ∀ part : List A, (∀ a ∈ part, number a = k) → part.filter (fun a => number a = k) = part :=
    fun part hpart => filter_eq_self.mpr fun a ha => decide_eq_true (hpart a ha)
  have hnone : ∀ part : List A, (∀ a ∈ part, number a ≠ k) → part.filter (fun a => number a = k) = [] :=
    fun part hpart => filter_eq_nil_iff.mpr fun a ha => by simpa using hpart a ha
  have hfront := hnone (order.take (k * size)) fun a ha => by
    obtain ⟨i, hi, rfl⟩ := mem_take_iff_getElem.mp ha
    rw [hnumber i (by omega)]
    exact Nat.ne_of_lt ((Nat.div_lt_iff_lt_mul hsize).mpr (by omega))
  have hpage := hall (page size k order) fun a ha => by
    obtain ⟨i, hi, rfl⟩ := mem_take_iff_getElem.mp ha
    rw [length_drop] at hi
    rw [getElem_drop, hnumber _ (by omega), Nat.add_comm, Nat.add_mul_div_right _ _ hsize,
      Nat.div_eq_of_lt (by omega), Nat.zero_add]
  have hback := hnone ((order.drop (k * size)).drop size) fun a ha => by
    rw [drop_drop] at ha
    obtain ⟨i, hi, rfl⟩ := mem_drop_iff_getElem.mp ha
    rw [hnumber _ (by omega)]
    refine Nat.ne_of_gt ((Nat.le_div_iff_mul_le hsize).mpr ?_)
    rw [Nat.succ_mul]
    omega
  have hsplit : order = order.take (k * size) ++ (page size k order ++ (order.drop (k * size)).drop size) := by
    rw [page, take_append_drop, take_append_drop]
  conv_rhs => rw [hsplit]
  rw [filter_append, filter_append, hfront, hpage, hback, nil_append, append_nil]

/-- Where no group crosses its ends, a page holds the rows whose groups begin on it. -/
theorem page_eq_filter (h : order.Pairwise fun a b => key a ≤ key b) (hsize : 0 < size)
    (hcrosses : ∀ j, ∀ a ∈ order, ¬ Crosses key order (j * size) a) :
    page size k order = order.filter fun a => before key order a / size = k := by
  refine page_eq_filter_of_number hsize fun i hi => ?_
  have hbefore := before_le_place h hi
  have hupTo := place_lt_upTo h hi
  have hnot := hcrosses (i / size) order[i] (getElem_mem hi)
  have hstart : i / size * size ≤ i := Nat.div_mul_le_self i size
  have hge : i / size * size ≤ before key order order[i] := by
    by_contra hlt
    exact hnot ⟨Nat.lt_of_not_le hlt, by omega⟩
  exact Nat.le_antisymm (Nat.div_le_div_right hbefore) ((Nat.le_div_iff_mul_le hsize).mpr hge)

/-- A list shared out by a number of every element. -/
theorem flatMap_filter_perm (number : A → ℕ) (rows : List A) (n : ℕ) :
    ((List.range n).flatMap fun k => rows.filter fun a => number a = k).Perm (rows.filter fun a => number a < n) := by
  induction n with
  | zero => simp
  | succ n ih =>
    rw [range_succ, flatMap_append, flatMap_cons, flatMap_nil, append_nil]
    have hlow : rows.filter (fun a => number a < n) =
        (rows.filter fun a => number a < n + 1).filter fun a => number a < n := by
      rw [filter_filter]
      refine filter_congr fun a _ => ?_
      simp only [← decide_and, decide_eq_decide]
      omega
    have hlast : rows.filter (fun a => number a = n) =
        (rows.filter fun a => number a < n + 1).filter fun a => !(number a < n : Bool) := by
      rw [filter_filter]
      refine filter_congr fun a _ => ?_
      simp only [← decide_not, ← decide_and, decide_eq_decide]
      omega
    rw [hlast]
    refine (ih.append_right _).trans ?_
    rw [hlow]
    exact filter_append_perm _ _

theorem lt_pageCount {i total : ℕ} (hi : i < total) (hsize : 0 < size) : i / size < pageCount total size := by
  have hstart : i / size * size ≤ i := div_mul_le_self i size
  refine (le_div_iff_mul_le hsize).mpr ?_
  rw [succ_mul]
  omega

/-- Where no group crosses the end of a page, the pages share the rows out. -/
theorem pages_perm (hsize : 0 < size) (hcrosses : ∀ j, ∀ a ∈ rows, ¬ Crosses key rows (j * size) a)
    {orders : ℕ → List A} (horders : ∀ k, Ordered key rows (orders k)) : (pages size rows orders).Perm rows := by
  have hpage : ∀ k, (page size k (orders k)).Perm (rows.filter fun a => before key rows a / size = k) := by
    intro k
    obtain ⟨hperm, hsorted⟩ := horders k
    have hnot : ∀ j, ∀ a ∈ orders k, ¬ Crosses key (orders k) (j * size) a := by
      intro j a ha hcross
      rw [Crosses, before_perm hperm, upTo_perm hperm] at hcross
      exact hcrosses j a (hperm.mem_iff.mp ha) hcross
    rw [page_eq_filter hsorted hsize hnot]
    have hnumber : (fun a => decide (before key (orders k) a / size = k)) =
        fun a => decide (before key rows a / size = k) := by
      funext a
      rw [before_perm hperm]
    rw [hnumber]
    exact hperm.filter _
  refine (List.Perm.flatMap_left _ fun k _ => hpage k).trans ?_
  refine (flatMap_filter_perm (fun a => before key rows a / size) rows _).trans (List.Perm.of_eq ?_)
  refine filter_eq_self.mpr fun a ha => decide_eq_true ?_
  exact lt_pageCount (before_lt_length ha) hsize

/-- A group that crosses a place can be ordered in two ways around it. -/
theorem exists_swap {a : A} {place : ℕ} (h : Crosses key rows place a) : ∃ front x y back, front.length + 1 = place ∧
    Ordered key rows (front ++ x :: y :: back) ∧ Ordered key rows (front ++ y :: x :: back) := by
  obtain ⟨hbefore, hupTo⟩ := h
  have hperm : (rows.mergeSort fun a b => key a ≤ key b).Perm rows := mergeSort_perm ..
  have hsorted : (rows.mergeSort fun a b => key a ≤ key b).Pairwise fun a b => key a ≤ key b := by
    have hpairwise := @pairwise_mergeSort A (fun a b => decide (key a ≤ key b))
      (fun a b c hab hbc => by simpa using le_trans (of_decide_eq_true hab) (of_decide_eq_true hbc))
      (fun a b => by simpa using le_total (key a) (key b)) rows
    simpa using hpairwise
  generalize (rows.mergeSort fun a b => key a ≤ key b) = sorted at hperm hsorted
  rw [← before_perm hperm] at hbefore
  rw [← upTo_perm hperm] at hupTo
  have hplace : place < sorted.length := Nat.lt_of_lt_of_le hupTo upTo_le_length
  have hprev : place - 1 < sorted.length := by omega
  have hx : key sorted[place - 1] = key a := key_eq_of_place hsorted hprev (by omega) (by omega)
  have hy : key sorted[place] = key a := key_eq_of_place hsorted hplace (by omega) hupTo
  have hsplit : sorted = sorted.take (place - 1) ++ sorted[place - 1] :: sorted[place] :: sorted.drop (place + 1) := by
    have hdrop : sorted.drop (place - 1) = sorted[place - 1] :: sorted.drop place := by
      rw [drop_eq_getElem_cons hprev]
      congr 2
      omega
    rw [← drop_eq_getElem_cons hplace, ← hdrop, take_append_drop]
  refine ⟨_, _, _, _, ?_, ⟨hsplit ▸ hperm, hsplit ▸ hsorted⟩, ?_, ?_⟩
  · rw [length_take]
    omega
  · exact (List.Perm.append_left _ (List.Perm.swap _ _ _)).trans (hsplit ▸ hperm)
  · have hsorted' := hsorted
    rw [hsplit] at hsorted'
    rw [pairwise_append, pairwise_cons, pairwise_cons] at hsorted' ⊢
    obtain ⟨hfront, ⟨hxback, hyback, hback⟩, hcross⟩ := hsorted'
    refine ⟨hfront, ⟨?_, fun b hb => hxback b (mem_cons_of_mem _ hb), hback⟩, fun a' ha' b hb => ?_⟩
    · intro b hb
      rcases mem_cons.mp hb with rfl | hb
      · exact le_of_eq (hy.trans hx.symm)
      · exact hyback b hb
    · exact hcross a' ha' b ((List.Perm.swap _ _ _).mem_iff.mp hb)

/-- The pages share the rows out, whatever the orders are, exactly when no group crosses the end of a page. -/
theorem pages_perm_iff {B : Type*} (name : A → B) (hnodup : (rows.map name).Nodup) (hsize : 0 < size) :
    (∀ orders : ℕ → List A, (∀ k, Ordered key rows (orders k)) →
      ((pages size rows orders).map name).Perm (rows.map name)) ↔
      ∀ k, ∀ a ∈ rows, ¬ Crosses key rows (k * size) a := by
  constructor
  · intro hall k a ha hcross
    obtain ⟨front, x, y, back, hlength, hxy, hyx⟩ := exists_swap hcross
    cases k with
    | zero => omega
    | succ k =>
      -- the last place of the page and the first one of the next page
      have hend : (k + 1) * size < rows.length := Nat.lt_of_lt_of_le hcross.2 upTo_le_length
      let orders : ℕ → List A := fun j => if j ≤ k then front ++ x :: y :: back else front ++ y :: x :: back
      have horders : ∀ j, Ordered key rows (orders j) := by
        intro j
        by_cases hj : j ≤ k
        · rw [show orders j = _ from if_pos hj]
          exact hxy
        · rw [show orders j = _ from if_neg hj]
          exact hyx
      have hnodup' := (((hall orders horders).nodup_iff).mpr hnodup).of_map
      have hpages := (nodup_flatMap.mp hnodup').2
      have hnext : (k + 1) * size / size = k + 1 := Nat.mul_div_cancel _ hsize
      have hcount : k + 1 < pageCount rows.length size := by
        rw [← hnext]
        exact lt_pageCount hend hsize
      have hdisjoint := pairwise_iff_getElem.mp hpages k (k + 1) (by simp; omega) (by simpa using hcount)
        (Nat.lt_succ_self k)
      rw [getElem_range, getElem_range] at hdisjoint
      have hfirst : x ∈ page size k (orders k) := by
        rw [show orders k = _ from if_pos (Nat.le_refl k)]
        refine mem_page_append hsize (Nat.div_eq_of_lt_le ?_ (by omega))
        rw [Nat.succ_mul] at hlength
        omega
      have hsecond : x ∈ page size (k + 1) (orders (k + 1)) := by
        rw [show orders (k + 1) = _ from if_neg (Nat.not_succ_le_self k)]
        have hlength' : (front ++ [y]).length / size = k + 1 := by
          rw [length_append, length_singleton, hlength, hnext]
        have hmem : x ∈ page size (k + 1) (front ++ [y] ++ x :: back) := mem_page_append hsize hlength'
        rwa [append_assoc] at hmem
      exact hdisjoint hfirst hsecond
  · exact fun hcrosses orders horders => (pages_perm hsize hcrosses horders).map name

end Share

end UnyDesk.Lib.Paging
