import Mathlib.Data.List.Basic

/-!
# Files with names and open handles

A name leads to a file, and the file keeps its bytes when it is renamed or removed while a handle
is open. Two names never lead to one file: hard links are left out, so that a write through a
handle is seen under one name at most.

Locations and bytes are arbitrary types. Operations are total; whether the operating system lets
one succeed is decided by the caller.
-/

namespace UnyDesk.Lib

open Function Option
open Function (update update_of_ne update_self)

variable {K B : Type*}

/-- The bytes of a file after a write at a position; a gap is filled up. -/
def overwrite [Inhabited B] (old : List B) (pos : ℕ) (bytes : List B) : List B :=
  old.take pos ++ List.replicate (pos - old.length) default ++ bytes ++ old.drop (pos + bytes.length)

/-- Writing at the end appends. -/
@[simp] theorem overwrite_length [Inhabited B] (old bytes : List B) :
    overwrite old old.length bytes = old ++ bytes := by
  simp [overwrite]

/-- Named files and what they hold. -/
structure FileSystem (K B : Type*) where
  names : K → Option ℕ
  data : ℕ → List B
  next : ℕ
  names_lt : ∀ k i, names k = some i → i < next
  names_inj : ∀ k k' i, names k = some i → names k' = some i → k = k'

namespace FileSystem

variable {fs : FileSystem K B} {k k' : K} {i : ℕ} {k : K} {bytes : List B}

/-- No file at all. -/
def empty : FileSystem K B where
  names := fun _ => none
  data := fun _ => []
  next := 0
  names_lt := by simp
  names_inj := by simp

section

variable (fs : FileSystem K B)

/-- What a reader of the name finds. -/
def contents (k : K) : Option (List B) := (fs.names k).map fs.data

/-- The name leads to a file. -/
def existsAt (k : K) : Bool := (fs.names k).isSome

end

theorem contents_of_names (h : fs.names k = some i) : fs.contents k = some (fs.data i) := by
  simp [contents, h]

theorem exists_names_of_contents (h : fs.contents k = some bytes) : ∃ i, fs.names k = some i ∧ fs.data i = bytes :=
  map_eq_some_iff.mp h

section

variable (fs : FileSystem K B)

/-- Writes through a handle. -/
def write [Inhabited B] (i pos : ℕ) (bytes : List B) : FileSystem K B :=
  { fs with data := update fs.data i (overwrite (fs.data i) pos bytes) }

@[simp] theorem write_names [Inhabited B] (i pos : ℕ) (bytes : List B) :
    (fs.write i pos bytes).names = fs.names := rfl

@[simp] theorem write_data [Inhabited B] (i pos : ℕ) (bytes : List B) :
    (fs.write i pos bytes).data i = overwrite (fs.data i) pos bytes := by
  simp [write]

theorem write_data_of_ne [Inhabited B] {i j : ℕ} (h : j ≠ i) (pos : ℕ) (bytes : List B) :
    (fs.write i pos bytes).data j = fs.data j :=
  update_of_ne h _ _

end

/-- A write through a handle is seen under the name of its file only. -/
theorem contents_write_of_ne [Inhabited B] (h : fs.names k ≠ some i) (pos : ℕ) (bytes : List B) :
    (fs.write i pos bytes).contents k = fs.contents k := by
  unfold contents
  rw [write_names]
  cases hk : fs.names k with
  | none => rfl
  | some j =>
    have hne : j ≠ i := fun heq => h (by rw [hk, heq])
    simp [write, update_of_ne hne]

variable [DecidableEq K]

/-- Removes a name; the file lives on while a handle is open. -/
def remove (fs : FileSystem K B) (k : K) : FileSystem K B where
  names := update fs.names k none
  data := fs.data
  next := fs.next
  names_lt := by
    intro k' i h
    by_cases hk : k' = k
    · simp [hk] at h
    · exact fs.names_lt k' i (by simpa [update_of_ne hk] using h)
  names_inj := by
    intro a b i ha hb
    by_cases hak : a = k
    · simp [hak] at ha
    · by_cases hbk : b = k
      · simp [hbk] at hb
      · rw [update_of_ne hak] at ha
        rw [update_of_ne hbk] at hb
        exact fs.names_inj a b i ha hb

section Remove

variable (fs : FileSystem K B)

@[simp] theorem remove_names_self (k : K) : (fs.remove k).names k = none := by
  simp [remove]

theorem remove_names_of_ne (h : k' ≠ k) : (fs.remove k).names k' = fs.names k' := by
  simp [remove, update_of_ne h]

@[simp] theorem remove_data (k : K) : (fs.remove k).data = fs.data := rfl

@[simp] theorem remove_next (k : K) : (fs.remove k).next = fs.next := rfl

@[simp] theorem contents_remove_self (k : K) :
    (fs.remove k).contents k = none := by
  simp [contents]

theorem contents_remove_of_ne (h : k' ≠ k) : (fs.remove k).contents k' = fs.contents k' := by
  simp [contents, remove_names_of_ne fs h]

end Remove

section

variable (fs : FileSystem K B)

/-- Opens a name for writing: an existing file is emptied, a missing one is made. -/
def create (k : K) : FileSystem K B × ℕ :=
  match hk : fs.names k with
  | some i => ({ fs with data := update fs.data i [] }, i)
  | none =>
    ({ names := update fs.names k (some fs.next)
       data := update fs.data fs.next []
       next := fs.next + 1
       names_lt := by
        intro k' i h
        by_cases hk' : k' = k
        · subst hk'
          simp only [update_self, some.injEq] at h
          omega
        · rw [update_of_ne hk'] at h
          have := fs.names_lt k' i h
          omega
       names_inj := by
        have hfresh : ∀ {a : K}, fs.names a ≠ some fs.next := by
          intro a ha
          exact absurd (fs.names_lt a _ ha) (Nat.lt_irrefl _)
        intro a b i ha hb
        by_cases hak : a = k <;> by_cases hbk : b = k
        · exact hak.trans hbk.symm
        · subst hak
          rw [update_self, some.injEq] at ha
          rw [update_of_ne hbk, ← ha] at hb
          exact absurd hb hfresh
        · subst hbk
          rw [update_self, some.injEq] at hb
          rw [update_of_ne hak, ← hb] at ha
          exact absurd ha hfresh
        · rw [update_of_ne hak] at ha
          rw [update_of_ne hbk] at hb
          exact fs.names_inj a b i ha hb }, fs.next)

@[simp] theorem create_names_self (k : K) :
    (fs.create k).1.names k = some (fs.create k).2 := by
  unfold create
  split
  next i hk => exact hk
  next hk => simp

theorem create_names_of_ne (h : k' ≠ k) : (fs.create k).1.names k' = fs.names k' := by
  unfold create
  split
  next => rfl
  next => simp [update_of_ne h]

@[simp] theorem create_data_self (k : K) :
    (fs.create k).1.data (fs.create k).2 = [] := by
  unfold create
  split <;> simp

end

/-- A free name gets a file of its own. -/
theorem create_file_of_none (h : fs.names k = none) : (fs.create k).2 = fs.next := by
  unfold create
  split
  next i hk => exact absurd (h.symm.trans hk) (by simp)
  next => rfl

theorem create_next_of_none (h : fs.names k = none) : (fs.create k).1.next = fs.next + 1 := by
  unfold create
  split
  next i hk => exact absurd (h.symm.trans hk) (by simp)
  next => rfl

section

variable (fs : FileSystem K B)

theorem create_data_of_ne (h : i ≠ (fs.create k).2) : (fs.create k).1.data i = fs.data i := by
  unfold create at h ⊢
  split at h
  · exact update_of_ne h _ _
  · exact update_of_ne h _ _

@[simp] theorem contents_create_self (k : K) :
    (fs.create k).1.contents k = some [] := by
  simp [contents]

theorem next_le_create (k : K) : fs.next ≤ (fs.create k).1.next := by
  unfold create
  split
  next => exact Nat.le_refl _
  next => exact Nat.le_succ _

end

/-- A name that leads to an old file after the opening of a name did so before. -/
theorem names_of_create (hold : i < fs.next) (h : (fs.create k).1.names k' = some i) : fs.names k' = some i := by
  by_cases hkk : k' = k
  · subst hkk
    cases hk : fs.names k' with
    | none =>
      rw [create_names_self, create_file_of_none hk] at h
      exact absurd (some.inj h) (Nat.ne_of_gt hold)
    | some j =>
      unfold create at h
      split at h
      next => rw [← hk, h]
      next hnone => exact nomatch hk.symm.trans hnone
  · rw [← create_names_of_ne fs hkk, h]

section

variable (fs : FileSystem K B)

/-- Opening a name leaves what the other names lead to. -/
theorem contents_create_of_ne (h : k' ≠ k) : (fs.create k).1.contents k' = fs.contents k' := by
  unfold contents
  rw [create_names_of_ne fs h]
  cases hk' : fs.names k' with
  | none => rfl
  | some j =>
    have hdata : (fs.create k).1.data j = fs.data j := by
      unfold create
      split
      next i hk =>
        have hne : j ≠ i := fun heq => h (fs.names_inj k' k i (by rw [hk', heq]) hk)
        exact update_of_ne hne _ _
      next =>
        have hne : j ≠ fs.next := Nat.ne_of_lt (fs.names_lt k' j hk')
        exact update_of_ne hne _ _
    simp [hdata]

/-- Writes a whole file. -/
def put [Inhabited B] (k : K) (bytes : List B) : FileSystem K B :=
  (fs.create k).1.write (fs.create k).2 0 bytes

theorem put_names_of_ne [Inhabited B] (h : k' ≠ k) (bytes : List B) : (fs.put k bytes).names k' = fs.names k' := by
  rw [put, write_names, create_names_of_ne fs h]

end

theorem names_of_put [Inhabited B] (hold : i < fs.next)
    (h : (fs.put k bytes).names k' = some i) : fs.names k' = some i := by
  rw [put, write_names] at h
  exact names_of_create hold h

/-- Writing one file leaves the others. -/
theorem contents_put_of_ne [Inhabited B] (fs : FileSystem K B) (h : k' ≠ k)
    (bytes : List B) : (fs.put k bytes).contents k' = fs.contents k' := by
  have hother : (fs.create k).1.names k' ≠ some (fs.create k).2 := by
    intro heq
    exact h (names_inj _ _ _ _ heq (create_names_self fs k))
  rw [put, contents_write_of_ne hother, contents_create_of_ne fs h]

/-- Moves a file to another name; what that name led to is gone. -/
def rename (fs : FileSystem K B) (source target : K) : FileSystem K B :=
  match hs : fs.names source with
  | none => fs
  | some i =>
    if hne : source = target then fs
    else
      { names := update (update fs.names target (some i)) source none
        data := fs.data
        next := fs.next
        names_lt := by
          intro k j h
          by_cases hk : k = source
          · simp [hk] at h
          · rw [update_of_ne hk] at h
            by_cases hk' : k = target
            · subst hk'
              rw [update_self, some.injEq] at h
              exact h ▸ fs.names_lt source i hs
            · rw [update_of_ne hk'] at h
              exact fs.names_lt k j h
        names_inj := by
          -- Before the move only the source leads to the moved file.
          have honly : ∀ {a : K}, a ≠ source → fs.names a ≠ some i := by
            intro a ha h
            exact ha (fs.names_inj a source i h hs)
          intro a b j ha hb
          by_cases has : a = source
          · simp [has] at ha
          by_cases hbs : b = source
          · simp [hbs] at hb
          rw [update_of_ne has] at ha
          rw [update_of_ne hbs] at hb
          by_cases hat : a = target <;> by_cases hbt : b = target
          · exact hat.trans hbt.symm
          · subst hat
            rw [update_self, some.injEq] at ha
            rw [update_of_ne hbt, ← ha] at hb
            exact absurd hb (honly hbs)
          · subst hbt
            rw [update_self, some.injEq] at hb
            rw [update_of_ne hat, ← hb] at ha
            exact absurd ha (honly has)
          · rw [update_of_ne hat] at ha
            rw [update_of_ne hbt] at hb
            exact fs.names_inj a b j ha hb }

section Rename

variable {fs : FileSystem K B} {source target : K}

theorem rename_of_none (h : fs.names source = none) : fs.rename source target = fs := by
  unfold rename
  split
  next => rfl
  next i hs => simp [h] at hs

@[simp] theorem rename_data : (fs.rename source target).data = fs.data := by
  unfold rename
  split
  next => rfl
  next => split <;> rfl

@[simp] theorem rename_next : (fs.rename source target).next = fs.next := by
  unfold rename
  split
  next => rfl
  next => split <;> rfl

theorem rename_names (hne : source ≠ target) (h : fs.names source = some i) (k : K) :
    (fs.rename source target).names k =
      if k = source then none else if k = target then some i else fs.names k := by
  unfold rename
  split
  next hs => simp [h] at hs
  next j hs =>
    obtain rfl : i = j := by simpa [h] using hs
    rw [dif_neg hne]
    by_cases hks : k = source
    · simp [hks]
    · by_cases hkt : k = target
      · subst hkt
        simp [hks]
      · simp [hks, hkt]

/-- Renaming touches the two names only. -/
theorem rename_names_of_ne (hs : k ≠ source) (ht : k ≠ target) : (fs.rename source target).names k = fs.names k := by
  cases h : fs.names source with
  | none => rw [rename_of_none h]
  | some i =>
    by_cases hne : source = target
    · unfold rename
      split
      next => rfl
      next => simp [hne]
    · simp [rename_names hne h, hs, ht]

theorem contents_rename_of_ne (hs : k ≠ source) (ht : k ≠ target) :
    (fs.rename source target).contents k = fs.contents k := by
  simp [contents, rename_names_of_ne hs ht]

/-- After a move the source name is free. -/
theorem rename_names_source (hne : source ≠ target) : (fs.rename source target).names source = none := by
  cases h : fs.names source with
  | none => rw [rename_of_none h, h]
  | some i => simp [rename_names hne h]

theorem contents_rename_target (hne : source ≠ target) (h : fs.names source = some i) :
    (fs.rename source target).contents target = some (fs.data i) := by
  simp [contents, rename_names hne h, Ne.symm hne]

end Rename

end FileSystem

end UnyDesk.Lib
