import Mathlib.Algebra.Group.Int.Defs
import UnyDesk.Lib.LittleEndian

/-!
# Memory that is read and written byte by byte

A write changes the bytes from its address on and no other ones. A number of 32 bits with a sign is
kept in four bytes, lowest byte first; it is read back as it was written, and a write elsewhere leaves
it.
-/

namespace UnyDesk.Lib

open LittleEndian List

/-- The byte at each address. -/
abbrev ByteMemory := ℕ → UInt8

namespace ByteMemory

/-- `slice::from_raw_parts` -/
def read (m : ByteMemory) (ptr len : ℕ) : List UInt8 := (List.range len).map fun i => m (ptr + i)

def write (m : ByteMemory) (ptr : ℕ) (bytes : List UInt8) : ByteMemory :=
  fun a => if ptr ≤ a then bytes.getD (a - ptr) (m a) else m a

/-- `i32::from_ne_bytes` at an address. -/
def readI32 (m : ByteMemory) (ptr : ℕ) : ℤ := (LittleEndian.value (m.read ptr 4) : ℤ).bmod (2 ^ 32)

/-- `i32::to_ne_bytes` -/
def i32Bytes (i : ℤ) : List UInt8 := LittleEndian.put 4 (i % 2 ^ 32).toNat

section Laws

variable (m : ByteMemory) {ptr ptr' len : ℕ} {bytes : List UInt8}

theorem readI32_congr {m m' : ByteMemory} (h : m.read ptr 4 = m'.read ptr' 4) : m.readI32 ptr = m'.readI32 ptr' :=
  congrArg (fun bytes => (value bytes : ℤ).bmod (2 ^ 32)) h

@[simp] theorem length_read (ptr len : ℕ) : (m.read ptr len).length = len := by
  rw [read, length_map, length_range]

/-- What was written is read back. -/
theorem read_write (ptr : ℕ) (bytes : List UInt8) : (m.write ptr bytes).read ptr bytes.length = bytes := by
  refine ext_getElem (length_read _ _ _) fun i hi hi' => ?_
  have hoffset : ptr + i - ptr = i := Nat.add_sub_cancel_left ptr i
  simp only [read, write, getElem_map, getElem_range, Nat.le_add_right, if_true, hoffset]
  rw [getD_eq_getElem?_getD, getElem?_eq_getElem hi', Option.getD_some]

/-- A write that ends in front of what is read, or begins behind it. -/
theorem read_write_of_disjoint (h : ptr' + bytes.length ≤ ptr ∨ ptr + len ≤ ptr') :
    (m.write ptr' bytes).read ptr len = m.read ptr len := by
  refine map_congr_left fun i hi => ?_
  have hi : i < len := mem_range.mp hi
  rw [write]
  split
  case isTrue hle =>
    have hbehind : bytes.length ≤ ptr + i - ptr' := by omega
    rw [getD_eq_getElem?_getD, getElem?_eq_none hbehind, Option.getD_none]
  case isFalse => rfl

@[simp] theorem length_i32Bytes (i : ℤ) : (i32Bytes i).length = 4 := length_put 4 _

theorem readI32_write {i : ℤ} (hmin : -(2 ^ 31) ≤ i) (hmax : i < 2 ^ 31) :
    (m.write ptr (i32Bytes i)).readI32 ptr = i := by
  have hbytes : (m.write ptr (i32Bytes i)).read ptr 4 = i32Bytes i := by
    rw [← length_i32Bytes i]
    exact read_write m ptr (i32Bytes i)
  have hpos : 0 ≤ i % 2 ^ 32 := Int.emod_nonneg i (by decide)
  have hlt : i % 2 ^ 32 < 2 ^ 32 := Int.emod_lt_of_pos i (by decide)
  have hvalue : (value (i32Bytes i) : ℤ) = i % 2 ^ 32 := by
    rw [i32Bytes, value_put, Nat.mod_eq_of_lt (by omega), Int.toNat_of_nonneg hpos]
  calc (m.write ptr (i32Bytes i)).readI32 ptr
      = (value (i32Bytes i) : ℤ).bmod (2 ^ 32) :=
        congrArg (fun bytes => (value bytes : ℤ).bmod (2 ^ 32)) hbytes
    _ = (i % 2 ^ 32).bmod (2 ^ 32) := congrArg (Int.bmod · (2 ^ 32)) hvalue
    _ = i.bmod (2 ^ 32) := Int.emod_bmod i (2 ^ 32)
    _ = i := Int.bmod_eq_of_le (by omega) (by omega)

/-- `ptr::copy_nonoverlapping` of four bytes copies their number. -/
theorem readI32_copy (ptr ptr' : ℕ) : (m.write ptr' (m.read ptr 4)).readI32 ptr' = m.readI32 ptr := by
  have hread := read_write m ptr' (m.read ptr 4)
  rw [length_read] at hread
  exact readI32_congr hread

theorem readI32_write_of_disjoint (h : ptr' + bytes.length ≤ ptr ∨ ptr + 4 ≤ ptr') :
    (m.write ptr' bytes).readI32 ptr = m.readI32 ptr := readI32_congr (read_write_of_disjoint m h)

theorem readI32_lt (ptr : ℕ) : m.readI32 ptr < 2 ^ 31 := by
  exact Int.bmod_lt (by decide)

end Laws

end ByteMemory

end UnyDesk.Lib
