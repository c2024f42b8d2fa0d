import UnyDesk.Lib.LittleEndian
import UnyDesk.Proto.Message

/-!
# Mangled socket addresses

Some routers rewrite addresses of their own pool that they find in a packet, so an IPv4 address
is sent with the time added to it. Address, time and port are fields of a 128-bit word, from bit
49, from bit 17 and from bit 0; the word is sent lowest byte first without the zero bytes at its
end. An IPv6 address is sent as it is, with its port.

The reader subtracts the time again. The mask with which it takes the port reaches into the time,
and only the conversion to 16 bits removes those bits. Nothing tells it that the word came from
the writer, so the fields of a word that did not may be smaller than what is subtracted.
-/

namespace UnyDesk

open Lib LittleEndian List Option Nat

/-- `Ipv4Addr`, from the left. -/
structure Ipv4Addr where
  a : UInt8
  b : UInt8
  c : UInt8
  d : UInt8
deriving DecidableEq

open Ipv4Addr

def Ipv4Addr.octets (ip : Ipv4Addr) : Bytes := [ip.a, ip.b, ip.c, ip.d]

/-- The address of a number, its lowest byte first; higher bytes are dropped. -/
def Ipv4Addr.ofLeBytes (n : ℕ) : Ipv4Addr :=
  ⟨UInt8.ofNat n, UInt8.ofNat (n / 256), UInt8.ofNat (n / 256 / 256), UInt8.ofNat (n / 256 / 256 / 256)⟩

/-- `Ipv6Addr`. -/
structure Ipv6Addr where
  octets : Bytes
  length_octets : octets.length = 16
deriving DecidableEq

def Ipv6Addr.unspecified : Ipv6Addr := ⟨List.replicate 16 0, List.length_replicate⟩

/-- Sixteen bytes as an address; `try_into().unwrap_or_default()` for other lengths. -/
def Ipv6Addr.ofBytes (bytes : Bytes) : Ipv6Addr :=
  if h : bytes.length = 16 then ⟨bytes, h⟩ else .unspecified

/-- `::1`. -/
def Ipv6Addr.isLoopback (ip : Ipv6Addr) : Bool := ip.octets = List.replicate 15 0 ++ [1]

/-- `to_ipv4`: the address that a mapped or a compatible one carries. -/
def Ipv6Addr.toIpv4 (ip : Ipv6Addr) : Option Ipv4Addr :=
  let start := ip.octets.take 12
  if start = List.replicate 12 0 ∨ start = List.replicate 10 0 ++ [255, 255] then
    match ip.octets.drop 12 with
    | [a, b, c, d] => some ⟨a, b, c, d⟩
    | _ => none
  else none

inductive IpAddr
  | v4 (ip : Ipv4Addr)
  | v6 (ip : Ipv6Addr)

inductive SocketAddr
  | v4 (ip : Ipv4Addr) (port : UInt16)
  | v6 (ip : Ipv6Addr) (port : UInt16) (flowinfo scopeId : UInt32)
deriving DecidableEq

namespace SocketAddr

def ip : SocketAddr → IpAddr
  | v4 ip _ => .v4 ip
  | v6 ip _ _ _ => .v6 ip

def port : SocketAddr → UInt16
  | v4 _ port => port
  | v6 _ port _ _ => port

end SocketAddr

def tryIntoV4 (addr : SocketAddr) : SocketAddr :=
  match addr with
  | .v6 ip port _ _ =>
    if ip.isLoopback then addr
    else match ip.toIpv4 with
      | some v4 => .v4 v4 port
      | none => addr
  | .v4 _ _ => addr

/-- An addition of 128-bit numbers, nothing when it overflows. -/
def checkedAdd (x y : ℕ) : Option ℕ := if x + y < 2 ^ 128 then some (x + y) else none

/-- A subtraction, nothing when it underflows. -/
def checkedSub (x y : ℕ) : Option ℕ := if y ≤ x then some (x - y) else none

/-- `<<` of a 128-bit number. -/
def shiftLeft128 (x count : ℕ) : ℕ := (x <<< count) % 2 ^ 128

/-- `copy_from_slice` to the front of a buffer; nothing when the range is not inside it. -/
def copyToFront (buffer bytes : Bytes) : Option Bytes :=
  if bytes.length ≤ buffer.length then some (bytes ++ buffer.drop bytes.length) else none

namespace AddrMangle

/-- The word for an IPv4 address, nothing when an addition overflows. -/
def word (ip : Ipv4Addr) (port : UInt16) (tm : UInt32) : Option ℕ := do
  let tm := tm.toNat
  let masked ← checkedAdd (LittleEndian.value ip.octets) tm
  let low ← checkedAdd port.toNat (tm &&& 0xFFFF)
  return shiftLeft128 masked 49 ||| shiftLeft128 tm 17 ||| low

/-- The bytes of a word without the zeros at the end. -/
def trimPadding (bytes : Bytes) : Bytes :=
  let nPadding := (bytes.reverse.takeWhile (· = 0)).length
  bytes.take (16 - nPadding)

/-- `AddrMangle::encode` at the time `tm`, in microseconds. -/
def encode (addr : SocketAddr) (tm : UInt32) : Option Bytes :=
  match tryIntoV4 addr with
  | .v4 ip port => (word ip port tm).map fun v => trimPadding (LittleEndian.put 16 v)
  | .v6 ip port _ _ => some (ip.octets ++ LittleEndian.put 2 port.toNat)

/-- The address in a word, nothing when a subtraction underflows. -/
def unword (number : ℕ) : Option SocketAddr := do
  let tm := (number >>> 17) &&& 0xFFFFFFFF
  let ip ← checkedSub (number >>> 49) tm
  let port ← checkedSub (number &&& 0xFFFFFF) (tm &&& 0xFFFF)
  return .v4 (ofLeBytes ip) (UInt16.ofNat port)

/-- `AddrMangle::decode`; nothing where the checked arithmetic or the copy fails. -/
def decode (bytes : Bytes) : Option SocketAddr :=
  if bytes.length > 16 then
    if bytes.length ≠ 18 then some (.v6 .unspecified 0 0 0)
    else
      let port := UInt16.ofNat (LittleEndian.value (bytes.drop 16))
      some (.v6 (Ipv6Addr.ofBytes (bytes.take 16)) port 0 0)
  else do
    let padded ← copyToFront (List.replicate 16 0) bytes
    unword (LittleEndian.value padded)

/-- The word that at most sixteen bytes stand for. -/
def wordOf (bytes : Bytes) : ℕ := LittleEndian.value bytes

/-- The time in a word. -/
def timestamp (number : ℕ) : ℕ := number / 2 ^ 17 % 2 ^ 32

section Padding

/-- The bytes of a buffer are those that stay and the zeros that are cut off. -/
theorem trimPadding_append {bytes : Bytes} (h : bytes.length = 16) :
    trimPadding bytes ++ replicate (16 - (trimPadding bytes).length) 0 = bytes := by
  generalize hn : (bytes.reverse.takeWhile (· = 0)).length = n
  have htail : bytes.reverse.takeWhile (· = 0) = bytes.reverse.take n :=
    hn ▸ prefix_iff_eq_take.mp (List.takeWhile_prefix _)
  have hle : n ≤ 16 := by
    have hlength := congrArg length htail
    rw [hn, length_take, length_reverse, h] at hlength
    omega
  have hzeros : bytes.drop (16 - n) = replicate n 0 := by
    refine eq_replicate_iff.mpr ⟨by rw [length_drop, h]; omega, fun b hb => ?_⟩
    have hmem : b ∈ bytes.reverse.takeWhile (· = 0) := by
      rw [htail, take_reverse, h]
      exact mem_reverse.mpr hb
    exact of_decide_eq_true (all_eq_true.mp all_takeWhile b hmem)
  have hkept : trimPadding bytes = bytes.take (16 - n) := by rw [trimPadding, hn]
  have hcount : 16 - (bytes.take (16 - n)).length = n := by
    rw [length_take, h]
    omega
  rw [hkept, hcount, ← hzeros, take_append_drop]

theorem length_trimPadding_le (bytes : Bytes) : (trimPadding bytes).length ≤ 16 := by
  rw [trimPadding, length_take]
  omega

/-- A buffer of sixteen zeros takes up to sixteen bytes. -/
theorem copyToFront_zeros {bytes : Bytes} (h : bytes.length ≤ 16) :
    copyToFront (replicate 16 0) bytes = some (bytes ++ replicate (16 - bytes.length) 0) := by
  rw [copyToFront, if_pos (by rw [length_replicate]; exact h), drop_replicate]

end Padding

section Word

theorem shiftLeft128_eq {x count : ℕ} (hx : x < 2 ^ 34) (hcount : count ≤ 49) :
    shiftLeft128 x count = x * 2 ^ count := by
  rw [shiftLeft128, Nat.shiftLeft_eq, Nat.mod_eq_of_lt]
  calc x * 2 ^ count ≤ x * 2 ^ 49 := Nat.mul_le_mul_left x (Nat.pow_le_pow_right (by decide) hcount)
    _ < 2 ^ 128 := by omega

/-- Fields that do not overlap are added. -/
theorem or_fields {high mid low : ℕ} (hmid : mid < 2 ^ 32) (hlow : low < 2 ^ 17) :
    high * 2 ^ 49 ||| mid * 2 ^ 17 ||| low = high * 2 ^ 49 + mid * 2 ^ 17 + low := by
  have hmid' : mid * 2 ^ 17 < 2 ^ 49 := by omega
  have hupper : high * 2 ^ 49 ||| mid * 2 ^ 17 = high * 2 ^ 49 + mid * 2 ^ 17 := by
    rw [← shiftLeft_eq high, shiftLeft_add_eq_or_of_lt hmid']
  have hfactor : high * 2 ^ 49 + mid * 2 ^ 17 = (high * 2 ^ 32 + mid) <<< 17 := by
    rw [shiftLeft_eq]
    omega
  rw [hupper, hfactor, shiftLeft_add_eq_or_of_lt hlow]

variable (ip : Ipv4Addr) (port : UInt16) (tm : UInt32)

theorem value_octets_lt : value ip.octets < 2 ^ 32 := by
  have hlt := value_lt ip.octets
  simpa [octets] using hlt

/-- The word is the sum of its fields, and nothing overflows. -/
theorem word_eq : word ip port tm =
    some ((value ip.octets + tm.toNat) * 2 ^ 49 + tm.toNat * 2 ^ 17 + (port.toNat + tm.toNat % 2 ^ 16)) := by
  have hip := value_octets_lt ip
  have hport := port.toNat_lt
  have htm := tm.toNat_lt
  have hlow : tm.toNat &&& 0xFFFF = tm.toNat % 2 ^ 16 := and_two_pow_sub_one_eq_mod _ 16
  have hmod : tm.toNat % 2 ^ 16 < 2 ^ 16 := mod_lt _ (by decide)
  have hmasked : checkedAdd (value ip.octets) tm.toNat = some (value ip.octets + tm.toNat) := if_pos (by omega)
  have hsum : checkedAdd port.toNat (tm.toNat % 2 ^ 16) = some (port.toNat + tm.toNat % 2 ^ 16) :=
    if_pos (by omega)
  simp only [word, hmasked, hlow, hsum, Option.bind_eq_bind, Option.bind_some, Option.pure_def]
  rw [shiftLeft128_eq (by omega) (by decide), shiftLeft128_eq (by omega) (by decide), or_fields (by omega) (by omega)]

/-- The word is read back: the time is found again, and the mask of the port takes some of its bits along. -/
theorem unword_fields {n port tm : ℕ} (x : ℕ) (hport : port < 2 ^ 16) (htm : tm < 2 ^ 32)
    (hn : n = (x + tm) * 2 ^ 49 + tm * 2 ^ 17 + (port + tm % 2 ^ 16)) :
    timestamp n = tm ∧ n / 2 ^ 49 = x + tm ∧ n % 2 ^ 24 = tm % 2 ^ 7 * 2 ^ 17 + port + tm % 2 ^ 16 := by
  have hlow : port + tm % 2 ^ 16 < 2 ^ 17 := by omega
  have hupper : n = 2 ^ 17 * ((x + tm) * 2 ^ 32 + tm) + (port + tm % 2 ^ 16) := by omega
  refine ⟨?_, ?_, ?_⟩
  · rw [timestamp, hupper, mul_add_div (by decide), div_eq_of_lt hlow]
    omega
  · omega
  · omega

/-- Reading a word succeeds when both subtractions do. -/
theorem unword_eq (n : ℕ) : unword n = if timestamp n ≤ n / 2 ^ 49 ∧ timestamp n % 2 ^ 16 ≤ n % 2 ^ 24 then
      some (.v4 (ofLeBytes (n / 2 ^ 49 - timestamp n)) (UInt16.ofNat (n % 2 ^ 24 - timestamp n % 2 ^ 16)))
    else none := by
  have htime : (n >>> 17) &&& 0xFFFFFFFF = timestamp n := by
    rw [shiftRight_eq_div_pow]
    exact and_two_pow_sub_one_eq_mod _ 32
  have hlow : n &&& 0xFFFFFF = n % 2 ^ 24 := and_two_pow_sub_one_eq_mod _ 24
  have hseconds : timestamp n &&& 0xFFFF = timestamp n % 2 ^ 16 := and_two_pow_sub_one_eq_mod _ 16
  have hsum : n >>> 49 = n / 2 ^ 49 := shiftRight_eq_div_pow n 49
  simp only [unword, htime, hlow, hseconds, hsum, checkedSub]
  by_cases hip : timestamp n ≤ n / 2 ^ 49
  · by_cases hport : timestamp n % 2 ^ 16 ≤ n % 2 ^ 24
    · rw [if_pos hip, if_pos hport, if_pos ⟨hip, hport⟩]
      rfl
    · rw [if_pos hip, if_neg hport, if_neg (mt And.right hport)]
      rfl
  · rw [if_neg hip, if_neg (mt And.left hip)]
    rfl

theorem ofLeBytes_value_octets : ofLeBytes (value ip.octets) = ip := by
  have hbyte : ∀ (b : UInt8) rest, UInt8.ofNat (b.toNat + rest * 256) = b := by
    intro b rest
    apply UInt8.toNat_inj.mp
    rw [UInt8.toNat_ofNat']
    have hb := b.toNat_lt
    omega
  have hnext : ∀ (b : UInt8) rest, (b.toNat + rest * 256) / 256 = rest := by
    intro b rest
    have hb := b.toNat_lt
    omega
  simp only [ofLeBytes, octets, value, hnext, hbyte]

end Word

/-- An IPv4 address is read back from its bytes. -/
theorem decode_encode_v4 (ip : Ipv4Addr) (port : UInt16) (tm : UInt32) :
    ∃ v, word ip port tm = some v ∧ decode (trimPadding (put 16 v)) = some (.v4 ip port) := by
  have hport := port.toNat_lt
  have htm := tm.toNat_lt
  have hip := value_octets_lt ip
  obtain ⟨v, hword, hv⟩ : ∃ v, word ip port tm = some v ∧
      v = (value ip.octets + tm.toNat) * 2 ^ 49 + tm.toNat * 2 ^ 17 +
        (port.toNat + tm.toNat % 2 ^ 16) := ⟨_, word_eq ip port tm, rfl⟩
  refine ⟨v, hword, ?_⟩
  obtain ⟨htime, hsum, hlow⟩ := unword_fields (value ip.octets) hport htm hv
  have hnumber : value (put 16 v) = v := by
    rw [value_put, Nat.mod_eq_of_lt]
    omega
  have hread : unword v = some (.v4 ip port) := by
    have hport' : UInt16.ofNat (tm.toNat % 2 ^ 7 * 2 ^ 17 + port.toNat) = port := by
      apply UInt16.toNat_inj.mp
      rw [UInt16.toNat_ofNat']
      omega
    rw [unword_eq, htime, hsum, hlow, if_pos (by omega), Nat.add_sub_cancel, Nat.add_sub_cancel,
      ofLeBytes_value_octets, hport']
  have hshort := length_trimPadding_le (put 16 v)
  rw [decode, if_neg (Nat.not_lt.mpr hshort), copyToFront_zeros hshort,
    trimPadding_append (length_put 16 v), bind_eq_bind, bind_some, hnumber, hread]

/-- An IPv6 address is read back from its bytes. -/
theorem decode_encode_v6 (ip : Ipv6Addr) (port : UInt16) :
    decode (ip.octets ++ put 2 port.toNat) = some (.v6 ip port 0 0) := by
  have hlength : (ip.octets ++ put 2 port.toNat).length = 18 := by
    rw [length_append, ip.length_octets, length_put]
  have htake : (ip.octets ++ put 2 port.toNat).take 16 = ip.octets :=
    take_left' ip.length_octets
  have hdrop : (ip.octets ++ put 2 port.toNat).drop 16 = put 2 port.toNat :=
    drop_left' ip.length_octets
  have hip : Ipv6Addr.ofBytes ip.octets = ip := dif_pos ip.length_octets
  have hport : UInt16.ofNat (port.toNat % 256 ^ 2) = port := by
    have hport := port.toNat_lt
    rw [mod_eq_of_lt (by omega)]
    exact UInt16.ofNat_toNat
  rw [decode, hlength, if_pos (by decide), if_neg (by decide), htake, hdrop, hip, value_put, hport]

/-- The round trip. For every address and every time the bytes are written and read without overflow or underflow,
and what is read has the IP and the port that were meant. -/
theorem addr_roundTrip (addr : SocketAddr) (tm : UInt32) :
    ∃ bytes decoded, encode addr tm = some bytes ∧ decode bytes = some decoded ∧
      decoded.ip = (tryIntoV4 addr).ip ∧ decoded.port = (tryIntoV4 addr).port := by
  cases hmeant : tryIntoV4 addr with
  | v4 ip port =>
    obtain ⟨v, hword, hdecode⟩ := decode_encode_v4 ip port tm
    refine ⟨_, _, ?_, hdecode, rfl, rfl⟩
    rw [encode, hmeant]
    dsimp only
    rw [hword, Option.map_some]
  | v6 ip port flowinfo scopeId =>
    refine ⟨_, _, ?_, decode_encode_v6 ip port, rfl, rfl⟩
    rw [encode, hmeant]

/-- When reading is safe. More than sixteen bytes always give an address; fewer do exactly when the field of the masked
address is at least the time and the field of the port at least its lower bits. -/
theorem decode_safe_iff (bytes : Bytes) : (decode bytes).isSome ↔ 16 < bytes.length ∨
        timestamp (wordOf bytes) ≤ wordOf bytes / 2 ^ 49 ∧
          timestamp (wordOf bytes) % 2 ^ 16 ≤ wordOf bytes % 2 ^ 24 := by
  by_cases hlong : 16 < bytes.length
  · refine iff_of_true ?_ (.inl hlong)
    rw [decode, if_pos hlong]
    by_cases hother : bytes.length ≠ 18
    · rw [if_pos hother]
      rfl
    · rw [if_neg hother]
      rfl
  · have hpadded : LittleEndian.value (bytes ++ List.replicate (16 - bytes.length) 0) = wordOf bytes := by
      rw [LittleEndian.value_append, LittleEndian.value_zeros, Nat.zero_mul, Nat.add_zero, wordOf]
    rw [decode, if_neg hlong, copyToFront_zeros (Nat.not_lt.mp hlong), Option.bind_eq_bind, Option.bind_some, hpadded,
      unword_eq, or_iff_right hlong]
    by_cases hfields : timestamp (wordOf bytes) ≤ wordOf bytes / 2 ^ 49 ∧
        timestamp (wordOf bytes) % 2 ^ 16 ≤ wordOf bytes % 2 ^ 24
    · rw [if_pos hfields]
      exact iff_of_true rfl hfields
    · rw [if_neg hfields]
      exact iff_of_false Bool.false_ne_true hfields

/-- Three bytes whose time is larger than the masked address. -/
theorem decode_unsafe : ¬ ∀ bytes : Bytes, (decode bytes).isSome := by
  intro hsafe
  exact absurd (hsafe [0, 0, 2]) (by decide)

end AddrMangle

end UnyDesk
