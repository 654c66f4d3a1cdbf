import HashtagIndex.Text.Utf8

/-!
# `HashtagIndex.Text.Wide` — text in units of two or four octets

Text comes in octets one by one, in pairs or in fours, and a pair or a four may have its high octet
first or last. Where nothing else tells which it is, the zero octets among the first four do,
because the first two characters of a transport text are ASCII.

Units of two octets write characters beyond the first plane as a pair of surrogates. A surrogate
that stands alone is replaced. Octets that do not fill the last unit, and units beyond the last code
point, are no text.

## Contents
- `TextEncoding`, `TextEncoding.guess`.
- `pairs?`, `fours?`, `pairChars`, `decodeText?`: decoding.
-/

namespace HashtagIndex

/-- How text is written in octets. -/
inductive TextEncoding where
  | octets
  | pairs (highFirst : Bool)
  | fours (highFirst : Bool)
deriving Repr, DecidableEq

/-- How a text seems to be written. -/
def TextEncoding.guess : List UInt8 → TextEncoding
  | 0 :: 0 :: _ :: _ :: _ => .fours true
  | 0 :: _ :: _ :: _ :: _ => .pairs true
  | _ :: 0 :: 0 :: 0 :: _ => .fours false
  | _ :: 0 :: _ :: _ :: _ => .pairs false
  | [0, _] => .pairs true
  | [_, 0] => .pairs false
  | _ => .octets

/-- The number that octets write, the highest first. -/
def octetsValue (bytes : List UInt8) : Nat := bytes.foldl (fun n b => n * 256 + b.toNat) 0

/-- The number of a unit. -/
def unitValue (highFirst : Bool) (unit : List UInt8) : Nat :=
  octetsValue (if highFirst then unit else unit.reverse)

/-- The units of two octets, if they come out even. -/
def pairs? (highFirst : Bool) : List UInt8 → Option (List Nat)
  | [] => some []
  | a :: b :: r => (pairs? highFirst r).map (unitValue highFirst [a, b] :: ·)
  | _ => none

/-- The units of four octets, if they come out even. -/
def fours? (highFirst : Bool) : List UInt8 → Option (List Nat)
  | [] => some []
  | a :: b :: c :: d :: r => (fours? highFirst r).map (unitValue highFirst [a, b, c, d] :: ·)
  | _ => none

/-- Whether a unit is a surrogate. -/
def isSurrogate (n : Nat) : Bool := 0xD800 ≤ n && n < 0xE000

/-- The character of a code point; a surrogate is replaced. -/
def pointChar (n : Nat) : Char := if isSurrogate n then '\ufffd' else Char.ofNat n

/-- The characters that units of two octets write. -/
def pairChars : List Nat → Text
  | [] => []
  | [n] => [pointChar n]
  | n :: m :: r =>
    if 0xD800 ≤ n ∧ n < 0xDC00 ∧ 0xDC00 ≤ m ∧ m < 0xE000 then
      Char.ofNat (0x10000 + (n - 0xD800) * 1024 + (m - 0xDC00)) :: pairChars r
    else pointChar n :: pairChars (m :: r)
termination_by ns => ns.length

/-- The text that octets write in some encoding, if they write any. -/
def decodeText? (bytes : List UInt8) : TextEncoding → Option Text
  | .octets => (decodeUtf8 bytes).toOption
  | .pairs highFirst => (pairs? highFirst bytes).map pairChars
  | .fours highFirst =>
    (fours? highFirst bytes).bind fun ns =>
      if ns.all (· ≤ 0x10FFFF) then some (ns.map pointChar) else none

example : decodeText? [0x7B, 0, 0x7D, 0] (.guess [0x7B, 0, 0x7D, 0]) = some ['\x7b', '\x7d'] := by
  decide +kernel
example : decodeText? [0xD8, 0x3D, 0xDE, 0x00] (.pairs true) = some ['😀'] := by decide +kernel
example : decodeText? [0x37, 0, 0x0A] (.pairs false) = none := by decide +kernel

end HashtagIndex
