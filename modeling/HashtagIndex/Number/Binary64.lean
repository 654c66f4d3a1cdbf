import HashtagIndex.Text.Basic

/-!
# `HashtagIndex.Number.Binary64` — floating-point numbers without floating point

A transport value may hold a number with a fraction or an exponent. It is kept as the binary64 value
nearest to it, written exactly as `± mantissa · 2 ^ exponent`, so that every step is arithmetic on
`Nat`.

## Contents
- `Binary64.ofDecimal`: the nearest value to a decimal, ties to the even mantissa.
- `Binary64.toInt?`: the integer a value equals.
- `Binary64.shortest`: the fewest decimal digits that read back as the value.
- `Binary64.render`: those digits, positional from `0.0001` up to sixteen digits before the point,
  with an exponent of at least two digits elsewhere.
-/

namespace HashtagIndex

/-- A binary64 value. A finite one has `mantissa < 2 ^ 53`, and its exponent is the least possible
one that is at least `-1074`. -/
inductive Binary64 where
  | finite (negative : Bool) (mantissa : Nat) (exponent : Int)
  | infinite (negative : Bool)
  | nan
deriving Repr, DecidableEq, Inhabited

namespace Binary64

/-- `base ^ e` as a numerator and a denominator. -/
def scale (base : Nat) : Int → Nat × Nat
  | .ofNat e => (base.pow e, 1)
  | .negSucc e => (1, base.pow (e + 1))

/-- The integer nearest to `num / den`, a half going to the even neighbour. -/
def nearest (num den : Nat) : Nat :=
  let q := num / den
  let twice := 2 * (num % den)
  if twice < den ∨ (twice = den ∧ q % 2 = 0) then q else q + 1

/-- The exponent at which `num / den` has 53 binary digits, or the least one. -/
def exponentOf (num den : Nat) : Int :=
  let guess : Int := (num.log2 : Int) - (den.log2 : Int) - 53
  let (up, down) := scale 2 guess
  let e := if num * down / (den * up) < Nat.pow 2 53 then guess else guess + 1
  max e (-1074)

/-- The value nearest to the positive fraction `num / den`. -/
def ofFraction (negative : Bool) (num den : Nat) : Binary64 :=
  let e := exponentOf num den
  let (up, down) := scale 2 e
  let m := nearest (num * down) (den * up)
  let (m, e) := if m = Nat.pow 2 53 then (Nat.pow 2 52, e + 1) else (m, e)
  if e > 971 then .infinite negative else .finite negative m e

/-- How many decimal digits a number has. -/
def digitCount (n : Nat) : Nat := (Nat.toDigits 10 n).length

/-- The value nearest to `± digits · 10 ^ exponent`. Decimals far beyond the range are settled by
their size, without computing the power. -/
def ofDecimal (negative : Bool) (digits : Nat) (exponent : Int) : Binary64 :=
  let size : Int := digitCount digits + exponent
  if digits = 0 ∨ size < -330 then .finite negative 0 (-1074)
  else if size > 310 then .infinite negative
  else
    let (up, down) := scale 10 exponent
    ofFraction negative (digits * up) down

/-- Whether a value is neither infinite nor undefined. -/
def isFinite : Binary64 → Bool
  | .finite .. => true
  | _ => false

/-- Whether a value equals zero. -/
def isZero : Binary64 → Bool
  | .finite _ m _ => m == 0
  | _ => false

/-- The integer that a value equals, if it equals one. -/
def toInt? : Binary64 → Option Int
  | .finite negative m e =>
    let (up, down) := scale 2 e
    if m * up % down = 0 then
      let n : Int := (m * up / down : Nat)
      some (if negative then -n else n)
    else none
  | _ => none

/-- The position of the decimal point behind the first digit of `num / den`: the least `p` with
`num / den < 10 ^ p`. -/
def pointOf (num den : Nat) : Int := (digitCount (num * Nat.pow 10 400 / den) : Int) - 400

/-- Among the two neighbours of a positive value on the grid of `count` digits, the one that reads
back as the value; of two, the nearer one. -/
def onGrid? (value : Binary64) (num den : Nat) (point : Int) (count : Nat) : Option Nat :=
  let (up, down) := scale 10 (point - count)
  let below := num * down / (den * up)
  let reads := fun d => ofDecimal false d (point - count) = value
  if reads below ∧ reads (below + 1) then some (nearest (num * down) (den * up))
  else if reads below then some below
  else if reads (below + 1) then some (below + 1)
  else none

/-- The fewest digits that read back as the positive value `mantissa · 2 ^ exponent`, with the
position of the point behind the first digit. -/
def shortest (mantissa : Nat) (exponent : Int) : Nat × Int :=
  let (num, den) := scale 2 exponent
  let num := mantissa * num
  let point := pointOf num den
  let value := Binary64.finite false mantissa exponent
  match (List.range 17).findSome? fun n =>
      (onGrid? value num den point (n + 1)).map fun d => (d, n + 1) with
  | some (d, count) => if d = Nat.pow 10 count then (1, point + 1) else (d, point)
  | none => (mantissa, point)

/-- Lay out decimal digits whose point stands behind the first `point` of them. -/
def layOut (digits : List Char) (point : Int) : List Char :=
  let n : Int := digits.length
  if -4 < point ∧ point ≤ 16 then
    if point ≤ 0 then '0' :: '.' :: List.replicate (-point).toNat '0' ++ digits
    else if n ≤ point then digits ++ List.replicate (point - n).toNat '0' ++ ['.', '0']
    else digits.take point.toNat ++ '.' :: digits.drop point.toNat
  else
    let e := point - 1
    let tail := Nat.toDigits 10 e.natAbs
    digits.take 1 ++ (if digits.length = 1 then [] else '.' :: digits.drop 1)
      ++ 'e' :: (if e < 0 then '-' else '+')
      :: (if tail.length < 2 then '0' :: tail else tail)

/-- The shortest notation of a finite value, with the given names for the others. -/
def render (infinity undefined : List Char) : Binary64 → List Char
  | .nan => undefined
  | .infinite negative => if negative then '-' :: infinity else infinity
  | .finite negative m e =>
    let body :=
      if m = 0 then ['0', '.', '0']
      else
        let (d, point) := shortest m e
        layOut (Nat.toDigits 10 d) point
    if negative then '-' :: body else body

example : render [] [] (ofDecimal false 25 (-1)) = ['2', '.', '5'] := by decide +kernel
example : render [] [] (ofDecimal true 1 16) = ['-', '1', 'e', '+', '1', '6'] := by decide +kernel
example : render [] [] (ofDecimal false 1 (-1)) = ['0', '.', '1'] := by decide +kernel
example : (ofDecimal false 10 (-1)).toInt? = some 1 := by decide +kernel

end Binary64

end HashtagIndex
