import Mathlib.Algebra.Group.Nat.Defs
import UnyDesk.Lib.Machine
import UnyDesk.Lib.PublicKey
import UnyDesk.Proto.Message

/-!
# The encryption of a stream

Both ends of a secured stream have one key and count the messages of each direction. The count is the nonce
of the box, from 1 on in either direction.
-/

namespace UnyDesk

open Lib Nat

/-- The key of a stream, the messages sealed and the messages opened. -/
structure Encrypt where
  key : Key32
  sent : ℕ
  received : ℕ
deriving DecidableEq

def Encrypt.new (key : Key32) : Encrypt := ⟨key, 0, 0⟩

/-- `u64::to_le_bytes`. -/
def u64ToLeBytes (n : ℕ) : Bytes := (List.range 8).map fun i => UInt8.ofNat (n >>> (8 * i))

/-- The nonce of a count, which wraps at 64 bits. -/
def getNonce (seqnum : ℕ) : Nonce := ⟨u64ToLeBytes seqnum ++ List.replicate 16 0, by simp [u64ToLeBytes, nonceBytes]⟩

namespace Encrypt

variable (box : SecretBox)

/-- The message, or `none` for a decryption error. A frame of at most one byte is passed on as it is. -/
def dec (e : Encrypt) (bytes : Bytes) : Encrypt × Option Bytes :=
  if bytes.length ≤ 1 then (e, some bytes)
  else
    let e := { e with received := e.received + 1 }
    (e, box.openBox e.key.1 (getNonce e.received) bytes)

def enc (e : Encrypt) (data : Bytes) : Encrypt × Bytes :=
  let e := { e with sent := e.sent + 1 }
  (e, box.sealBox e.key.1 (getNonce e.sent) data)

end Encrypt

section Nonces

theorem length_u64ToLeBytes (n : ℕ) : (u64ToLeBytes n).length = 8 := by simp [u64ToLeBytes]

/-- Numbers with the same bytes are the same. -/
theorem eq_of_bytes {k m n : ℕ} (hm : m < 256 ^ k) (hn : n < 256 ^ k)
    (h : ∀ i < k, m >>> (8 * i) % 256 = n >>> (8 * i) % 256) : m = n := by
  induction k generalizing m n with
  | zero => omega
  | succ k ih =>
    have hlow : m % 256 = n % 256 := h 0 (succ_pos k)
    have hhigh : m / 256 = n / 256 := by
      refine ih (by rw [pow_succ] at hm; omega) (by rw [pow_succ] at hn; omega) fun i hi => ?_
      have hbyte := h (i + 1) (by omega)
      have hshift : ∀ x : ℕ, x >>> (8 * (i + 1)) = (x / 256) >>> (8 * i) := fun x => by
        rw [mul_succ, add_comm, shiftRight_add, shiftRight_eq_div_pow x 8]
      rwa [hshift, hshift] at hbyte
    omega

/-- Counts below 2⁶⁴ are told apart by their bytes. -/
theorem u64ToLeBytes_injective {m n : ℕ} (hm : m < 2 ^ 64) (hn : n < 2 ^ 64) (h : u64ToLeBytes m = u64ToLeBytes n) :
    m = n := by
  refine eq_of_bytes (k := 8) hm hn fun i hi => ?_
  have hget := congrArg (fun bytes => bytes[i]?) h
  simpa [u64ToLeBytes, hi, UInt8.toNat_ofNat', ← UInt8.toNat_inj] using hget

theorem getNonce_injective {m n : ℕ} (hm : m < 2 ^ 64) (hn : n < 2 ^ 64) (h : getNonce m = getNonce n) : m = n := by
  refine u64ToLeBytes_injective hm hn ?_
  exact List.append_cancel_right (congrArg Nonce.bytes h)

end Nonces

end UnyDesk
