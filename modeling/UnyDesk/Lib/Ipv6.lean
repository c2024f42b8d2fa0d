import Mathlib.Data.BitVec

/-!
# Texts of IPv6 addresses

An address is a vector of 128 bits. Its text has the segments in hexadecimal, with the first longest
run of at least two zero segments left out; an embedded IPv4 address is written in decimal. The reader
takes every spelling: leading zeros, one `::` anywhere, and an IPv4 address at the end.
-/

namespace UnyDesk.Lib.Ipv6

/-- The eight segments of an address, from the left. -/
def segments (addr : BitVec 128) : List ℕ :=
  [7, 6, 5, 4, 3, 2, 1, 0].map fun i => addr.toNat / 2 ^ (16 * i) % 2 ^ 16

/-- The address with these segments. -/
def ofSegments (segs : List ℕ) : BitVec 128 :=
  BitVec.ofNat 128 (segs.foldl (fun acc s => acc * 2 ^ 16 + s) 0)

section Write

def hexDigit (d : ℕ) : Char := if d < 10 then Char.ofNat (48 + d) else Char.ofNat (87 + d)

/-- The digits of a number, without leading zeros; the last one stays. -/
def digits (radix : ℕ) (high : List ℕ) (n : ℕ) : List Char :=
  ((high.map fun p => n / p % radix).dropWhile (· = 0) ++ [n % radix]).map hexDigit

def hexSegment (n : ℕ) : List Char := digits 16 [16 ^ 3, 16 ^ 2, 16] n

def decimalOctet (n : ℕ) : List Char := digits 10 [100, 10] n

def separate (sep : List Char) (parts : List (List Char)) : List Char := sep.intercalate parts

/-- Start and length of the first longest run of zero segments; `current` is the run that ends here. -/
def zeroSpan : List ℕ → ℕ → ℕ × ℕ → ℕ × ℕ → ℕ × ℕ
  | [], _, _, longest => longest
  | s :: segs, i, current, longest =>
    if s = 0 then
      let current := if current.2 = 0 then (i, 1) else (current.1, current.2 + 1)
      zeroSpan segs (i + 1) current (if longest.2 < current.2 then current else longest)
    else zeroSpan segs (i + 1) (0, 0) longest

/-- The text of an address. -/
def write (addr : BitVec 128) : List Char :=
  match segments addr with
  | [0, 0, 0, 0, 0, 0xffff, high, low] =>
    "::ffff:".toList ++ separate ['.'] ([high / 256, high % 256, low / 256, low % 256].map decimalOctet)
  | segs =>
    let span := zeroSpan segs 0 (0, 0) (0, 0)
    if 1 < span.2 then
      separate [':'] ((segs.take span.1).map hexSegment) ++ [':', ':'] ++
        separate [':'] ((segs.drop (span.1 + span.2)).map hexSegment)
    else separate [':'] (segs.map hexSegment)

end Write

section Read

/-- The value of a digit. -/
def toDigit (radix : ℕ) (c : Char) : Option ℕ :=
  let d :=
    if '0' ≤ c ∧ c ≤ '9' then some (c.toNat - 48)
    else if 'a' ≤ c ∧ c ≤ 'f' then some (c.toNat - 87)
    else if 'A' ≤ c ∧ c ≤ 'F' then some (c.toNat - 55)
    else none
  d.filter (· < radix)

/-- A number of at most so many digits, with what follows it. -/
def readNumber (radix maxDigits limit : ℕ) (allowZeroPrefix : Bool) (cs : List Char) : Option (ℕ × List Char) :=
  let found := cs.takeWhile fun c => (toDigit radix c).isSome
  let value := (found.filterMap (toDigit radix)).foldl (fun acc d => acc * radix + d) 0
  if found = [] ∨ maxDigits < found.length then none
  else if !allowZeroPrefix ∧ cs.head? = some '0' ∧ 1 < found.length then none
  else if limit ≤ value then none
  else some (value, cs.drop found.length)

/-- What a reader finds after a separator, which only stands before later parts. -/
def readSeparated {A : Type} (sep : Char) (i : ℕ) (read : List Char → Option (A × List Char)) (cs : List Char) :
    Option (A × List Char) :=
  if i = 0 then read cs
  else
    match cs with
    | [] => none
    | c :: cs => if c = sep then read cs else none

/-- The octets of an IPv4 address. -/
def readIpv4 (cs : List Char) : Option (List ℕ × List Char) :=
  let rec octets : ℕ → ℕ → List Char → Option (List ℕ × List Char)
    | 0, _, cs => some ([], cs)
    | n + 1, i, cs =>
      match readSeparated '.' i (readNumber 10 3 256 false) cs with
      | none => none
      | some (octet, cs) => (octets n (i + 1) cs).map fun rest => (octet :: rest.1, rest.2)
  octets 4 0 cs

/-- Segments up to a limit and whether they end with an IPv4 address; `room` is what is left of the
limit. -/
def readGroups : ℕ → ℕ → List Char → List ℕ × Bool × List Char
  | 0, _, cs => ([], false, cs)
  | room + 1, i, cs =>
    let ipv4 := if 1 ≤ room then readSeparated ':' i readIpv4 cs else none
    match ipv4 with
    | some ([a, b, c, d], cs) => ([a * 256 + b, c * 256 + d], true, cs)
    | _ =>
      match readSeparated ':' i (readNumber 16 4 (2 ^ 16) true) cs with
      | none => ([], false, cs)
      | some (group, cs) =>
        let rest := readGroups room (i + 1) cs
        (group :: rest.1, rest.2)

/-- The address that a text stands for. -/
def read (text : List Char) : Option (BitVec 128) :=
  match readGroups 8 0 text with
  | (head, headIpv4, cs) =>
    if head.length = 8 then if cs = [] then some (ofSegments head) else none
    else if headIpv4 then none
    else
      match cs with
      | ':' :: ':' :: cs =>
        match readGroups (7 - head.length) 0 cs with
        | (tail, _, cs) =>
          if cs = [] then
            some (ofSegments (head ++ List.replicate (8 - head.length - tail.length) 0 ++ tail))
          else none
      | _ => none

end Read

example : read "2001:db8::8:800:200c:417a".toList = some 0x20010db80000000000080800200c417a ∧
    write 0x20010db80000000000080800200c417a = "2001:db8::8:800:200c:417a".toList ∧
    read "::ffff:10.0.0.1".toList = some 0xffff0a000001 ∧ read "10.0.0.1".toList = none := by decide

end UnyDesk.Lib.Ipv6
