import HashtagIndex.Text.Blank

/-!
# `HashtagIndex.Text.Integer` — integers in decimal notation

An integer may carry blanks at either end, one sign, leading zeros, and single underscores between
digits. Blanks here are those of ordinary text without the four ASCII separators. An integer with
too many digits is not read at all.

There are two readers. `readInteger` takes the decimal digits of every script. `readWhole` takes
ASCII digits: it first tries the text as it stands, in plain notation, and then once more without
its blanks, its leading zeros, a fraction of zeros and its underscores. Zeros in front of a minus
sign go the same way as those in front of a digit.

## Contents
- `readInteger`, and `IntegerFault`, which says why a text is not read.
- `readPlain`, `tidy?`, `readWhole`: plain notation, and what is brought to it.
-/

namespace HashtagIndex

/-- Why a text is not read as an integer. -/
inductive IntegerFault where
  | unreadable
  /-- The text has so many digits that it is not looked at any further. -/
  | tooLong (digits : Nat)
deriving Repr, DecidableEq

/-- The most digits of an integer. -/
def mostDigits : Nat := 4300

/-- Whether a character may surround a number. -/
def isNumberBlank (c : Char) : Bool :=
  isBlank c && !(0x1C ≤ c.toNat && c.toNat ≤ 0x1F)

/-- Text without the number blanks at either end. -/
def Text.trimNumber (t : Text) : Text :=
  ((t.dropWhile isNumberBlank).reverse.dropWhile isNumberBlank).reverse

/-- The zeros of the scripts that have decimal digits; the other nine digits follow each zero. -/
def zeroDigits : List Nat :=
  [0x30, 0x660, 0x6F0, 0x7C0, 0x966, 0x9E6, 0xA66, 0xAE6, 0xB66, 0xBE6, 0xC66, 0xCE6, 0xD66, 0xDE6,
  0xE50, 0xED0, 0xF20, 0x1040, 0x1090, 0x17E0, 0x1810, 0x1946, 0x19D0, 0x1A80, 0x1A90, 0x1B50,
  0x1BB0, 0x1C40, 0x1C50, 0xA620, 0xA8D0, 0xA900, 0xA9D0, 0xA9F0, 0xAA50, 0xABF0, 0xFF10, 0x104A0,
  0x10D30, 0x11066, 0x110F0, 0x11136, 0x111D0, 0x112F0, 0x11450, 0x114D0, 0x11650, 0x116C0,
  0x11730, 0x118E0, 0x11950, 0x11C50, 0x11D50, 0x11DA0, 0x16A60, 0x16AC0, 0x16B50, 0x1D7CE,
  0x1D7D8, 0x1D7E2, 0x1D7EC, 0x1D7F6, 0x1E140, 0x1E2F0, 0x1E950, 0x1FBF0]

/-- The value of a decimal digit of any script. -/
def decimalDigit? (c : Char) : Option Nat :=
  (zeroDigits.find? fun z => z ≤ c.toNat && c.toNat ≤ z + 9).map (c.toNat - ·)

/-- The value of an ASCII digit. -/
def asciiDigit? (c : Char) : Option Nat :=
  if c.isDigit then some (c.toNat - 48) else none

/-- Continue a number of value `value` after one of its digits. -/
def readDigitsAfter (digit? : Char → Option Nat) (value : Nat) : Text → Option Nat
  | [] => some value
  | '_' :: c :: r => (digit? c).bind fun d => readDigitsAfter digit? (value * 10 + d) r
  | c :: r => (digit? c).bind fun d => readDigitsAfter digit? (value * 10 + d) r

/-- A number without sign: digits, with single underscores between them. -/
def readDigits (digit? : Char → Option Nat) : Text → Option Nat
  | [] => none
  | c :: r => (digit? c).bind fun d => readDigitsAfter digit? d r

/-- Whether a text begins with a minus sign, and what follows its sign. -/
def splitSign : Text → Bool × Text
  | '-' :: r => (true, r)
  | '+' :: r => (false, r)
  | t => (false, t)

/-- The integer with a sign and an absolute value. -/
def signed (negative : Bool) (n : Nat) : Int := if negative then -(n : Int) else n

/-! ## Digits of every script -/

/-- The digits and underscores at the head of a text. -/
def digitRun (t : Text) : Text := t.takeWhile fun c => (decimalDigit? c).isSome || c == '_'

/-- Read an integer in the digits of any script. Digits are counted before what follows them is
looked at. -/
def readInteger (t : Text) : Except IntegerFault Int :=
  let (negative, body) := splitSign t.trimNumber
  let run := digitRun body
  let count := (run.filter (· != '_')).length
  match readDigits decimalDigit? run with
  | none => .error .unreadable
  | some n =>
    if mostDigits < count then .error (.tooLong count)
    else if run.length < body.length then .error .unreadable
    else .ok (signed negative n)

/-! ## ASCII digits, brought to plain notation -/

/-- Read an integer in plain notation: a minus sign or none, and digits without a leading zero. The
sign counts as a digit here. -/
def readPlain (t : Text) : Except IntegerFault Int :=
  let (negative, digits) : Bool × Text :=
    match t with
    | '-' :: r => (true, r)
    | _ => (false, t)
  let run := digits.takeWhile Char.isDigit
  let length := run.length + (if negative then 1 else 0)
  if digits.head? = some '0' then if digits = ['0'] then .ok 0 else .error .unreadable
  else if mostDigits < length then .error (.tooLong length)
  else if run.length < digits.length then .error .unreadable
  else
    match readDigits asciiDigit? digits with
    | none => .error .unreadable
    | some n => .ok (signed negative n)

/-- Whether a character may stand among leading zeros. -/
def isLeading (c : Char) : Bool := c == '0' || c == '_'

/-- A text without leading zeros and the underscores among them. One zero stays if nothing or a
fraction follows; otherwise a digit or a minus sign has to follow. -/
def dropLeadingZeros : Text → Option Text
  | '0' :: r =>
    match r.dropWhile isLeading with
    | [] => if r.getLast? = some '_' then none else some ['0']
    | '.' :: rest =>
      if (r.takeWhile isLeading).getLast? = some '_' then none else some ('0' :: '.' :: rest)
    | c :: rest => if c.isDigit || c == '-' then some (c :: rest) else none
  | c :: r => if c.isDigit || c == '-' then some (c :: r) else none
  | [] => none

/-- A text without a point that only zeros, and at least one, follow. -/
def dropZeroFraction (t : Text) : Text :=
  match t.dropWhile (· != '.') with
  | '.' :: '0' :: zeros => if zeros.all (· == '0') then t.takeWhile (· != '.') else t
  | _ => t

/-- Whether two underscores stand next to each other. -/
def hasDoubleUnderscore : Text → Bool
  | '_' :: '_' :: _ => true
  | _ :: r => hasDoubleUnderscore r
  | [] => false

/-- A text without its underscores, as long as each stands alone between other characters. -/
def dropUnderscores (t : Text) : Text :=
  if t.head? = some '_' || t.getLast? = some '_' || hasDoubleUnderscore t then t
  else t.filter (· != '_')

/-- Bring an integer to plain notation. -/
def tidy? (t : Text) : Option Text :=
  let (negative, body) := splitSign t.trimNumber
  (dropLeadingZeros body).map fun u =>
    (if negative then ['-'] else []) ++ dropUnderscores (dropZeroFraction u)

/-- Read an integer in ASCII digits, plain or not. Only a plain one is refused for its length. -/
def readWhole (t : Text) : Except IntegerFault Int :=
  match readPlain t with
  | .ok n => .ok n
  | .error (.tooLong length) => .error (.tooLong length)
  | .error .unreadable =>
    match tidy? t with
    | none => .error .unreadable
    | some u => (readPlain u).mapError fun _ => .unreadable

/-- What is in plain notation is read as it stands. -/
theorem readWhole_of_readPlain {t : Text} {n : Int} (h : readPlain t = .ok n) :
    readWhole t = .ok n := by
  rw [readWhole, h]

/-- What cannot be brought to plain notation is not read. -/
theorem readWhole_of_tidy?_eq_none {t : Text} (h : readPlain t = .error .unreadable)
    (ht : tidy? t = none) : readWhole t = .error .unreadable := by
  rw [readWhole, h, ht]

example : tidy? [' ', '-', '0', '_', '0', '1', '.', '0'] = some ['-', '1'] := by decide +kernel
example : tidy? ['0', '-', '_', '5'] = some ['-', '5'] ∧ tidy? ['0', '_'] = none := by
  decide +kernel
example : tidy? ['1', '.'] = some ['1', '.'] ∧ tidy? ['_', '1'] = none := by decide +kernel

end HashtagIndex
