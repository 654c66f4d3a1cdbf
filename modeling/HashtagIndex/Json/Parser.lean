import HashtagIndex.Json.Basic
import HashtagIndex.Text.Integer

/-!
# `HashtagIndex.Json.Parser` — reading transport text

The reader accepts standard transport text and, beyond the standard, the words `NaN`, `Infinity` and
`-Infinity`. When it stops it says why and at which character: a missing value at the place where
it should begin, a missing delimiter at the character found instead, an unfinished string at its
opening quote, a bad escape at its backslash.

A value that is nested too deeply, or an integer with too many digits, is not read at all; that is
no fault of the notation. The fuel of `readValue` counts every character twice, because reading an
item takes one step for the list and one for the item.
-/

namespace HashtagIndex

/-- Why a text is not transport text. -/
inductive JsonCause where
  | value
  | name
  | colon
  | comma
  | extra
  | unterminated
  | escape
  | unicodeEscape
  | control
  /-- Values are nested too deeply. -/
  | nesting
  /-- An integer has too many digits. -/
  | digits
deriving Repr, DecidableEq

/-- The wording of a cause. -/
def JsonCause.message : JsonCause → String
  | .value => "Expecting value"
  | .name => "Expecting property name enclosed in double quotes"
  | .colon => "Expecting ':' delimiter"
  | .comma => "Expecting ',' delimiter"
  | .extra => "Extra data"
  | .unterminated => "Unterminated string starting at"
  | .escape => "Invalid \\escape"
  | .unicodeEscape => "Invalid \\uXXXX escape"
  | .control => "Invalid control character at"
  | .nesting => "Nested too deeply"
  | .digits => "Too many digits"

/-- Whether a cause is a fault of the notation, and not a bound of the reader. -/
def JsonCause.isNotation : JsonCause → Bool
  | .nesting | .digits => false
  | _ => true

/-- A cause and the character it was found at. -/
structure JsonFault where
  cause : JsonCause
  position : Nat
deriving Repr, DecidableEq

namespace Json

/-- A place in a text and what follows it. -/
structure Cursor where
  position : Nat
  rest : List Char
deriving Repr

/-- Move over the given characters. -/
def Cursor.drop (c : Cursor) (n : Nat) : Cursor := ⟨c.position + n, c.rest.drop n⟩

/-- Move over blanks. -/
def Cursor.skip (c : Cursor) : Cursor :=
  let blanks := c.rest.takeWhile fun x => x = ' ' || x = '\t' || x = '\n' || x = '\r'
  c.drop blanks.length

/-- The value of a hexadecimal digit. -/
def hexValue? (c : Char) : Option Nat :=
  if c.isDigit then some (c.toNat - 48)
  else if 'a' ≤ c ∧ c ≤ 'f' then some (c.toNat - 87)
  else if 'A' ≤ c ∧ c ≤ 'F' then some (c.toNat - 55)
  else none

/-- The number that four hexadecimal digits write. -/
def hexQuad? (a b c d : Char) : Option Nat := do
  some (((← hexValue? a) * 16 + (← hexValue? b)) * 256 + (← hexValue? c) * 16 + (← hexValue? d))

/-- The character of a code unit; a half of a pair that stands alone is replaced. -/
def unitChar (n : Nat) : Char := if 0xD800 ≤ n ∧ n < 0xE000 then '\ufffd' else Char.ofNat n

/-- The character of a one-letter escape. -/
def simpleEscape? : Char → Option Char
  | '"' => some '"'
  | '\\' => some '\\'
  | '/' => some '/'
  | 'b' => some '\x08'
  | 'f' => some '\x0c'
  | 'n' => some '\n'
  | 'r' => some '\r'
  | 't' => some '\t'
  | _ => none

/-- The rest of a string, behind its opening quote at `start`. -/
def readString (start position : Nat) : List Char → Except JsonFault (List Char × Cursor)
  | [] => .error ⟨.unterminated, start⟩
  | '"' :: r => .ok ([], ⟨position + 1, r⟩)
  | ['\\'] => .error ⟨.unterminated, start⟩
  | '\\' :: 'u' :: a :: b :: c :: d :: '\\' :: 'u' :: e :: f :: g :: h :: x :: r =>
    match hexQuad? a b c d with
    | none => .error ⟨.unicodeEscape, position + 1⟩
    | some n =>
      if 0xD800 ≤ n ∧ n < 0xDC00 then
        match hexQuad? e f g h with
        | none => .error ⟨.unicodeEscape, position + 7⟩
        | some m =>
          if 0xDC00 ≤ m ∧ m < 0xE000 then
            (fun s => (Char.ofNat (0x10000 + (n - 0xD800) * 1024 + (m - 0xDC00)) :: s.1, s.2)) <$>
              readString start (position + 12) (x :: r)
          else
            (fun s => (unitChar n :: s.1, s.2)) <$>
              readString start (position + 6) ('\\' :: 'u' :: e :: f :: g :: h :: x :: r)
      else
        (fun s => (unitChar n :: s.1, s.2)) <$>
          readString start (position + 6) ('\\' :: 'u' :: e :: f :: g :: h :: x :: r)
  | '\\' :: 'u' :: a :: b :: c :: d :: x :: r =>
    match hexQuad? a b c d with
    | none => .error ⟨.unicodeEscape, position + 1⟩
    | some n =>
      (fun s => (unitChar n :: s.1, s.2)) <$> readString start (position + 6) (x :: r)
  | '\\' :: 'u' :: _ => .error ⟨.unicodeEscape, position + 1⟩
  | '\\' :: c :: r =>
    match simpleEscape? c with
    | none => .error ⟨.escape, position⟩
    | some e => (fun s => (e :: s.1, s.2)) <$> readString start (position + 2) r
  | c :: r =>
    if c.toNat < 32 then .error ⟨.control, position⟩
    else (fun s => (c :: s.1, s.2)) <$> readString start (position + 1) r
termination_by t => t.length

/-- The number that decimal digits write. -/
def decimalValue (ds : List Char) : Nat := ds.foldl (fun n d => n * 10 + (d.toNat - 48)) 0

/-- The digits of the whole part at the head of a text: a zero alone, or any digits. -/
def wholeDigits : List Char → List Char
  | '0' :: _ => ['0']
  | t => t.takeWhile Char.isDigit

/-- A fraction at the head of a text: the point and at least one digit. -/
def fractionDigits : List Char → List Char
  | '.' :: t => t.takeWhile Char.isDigit
  | _ => []

/-- An exponent at the head of a text: its digits, whether it is negative, and its length. -/
def exponentPart : List Char → List Char × Bool × Nat
  | e :: '+' :: t =>
    let ds := if e = 'e' ∨ e = 'E' then t.takeWhile Char.isDigit else []
    (ds, false, ds.length + 2)
  | e :: '-' :: t =>
    let ds := if e = 'e' ∨ e = 'E' then t.takeWhile Char.isDigit else []
    (ds, true, ds.length + 2)
  | e :: t =>
    let ds := if e = 'e' ∨ e = 'E' then t.takeWhile Char.isDigit else []
    (ds, false, ds.length + 1)
  | [] => ([], false, 0)

/-- A number at the cursor. -/
def readNumber (c : Cursor) : Except JsonFault (Json × Cursor) :=
  let negative := c.rest.head? = some '-'
  let afterSign := if negative then c.rest.drop 1 else c.rest
  let whole := wholeDigits afterSign
  if whole = [] then .error ⟨.value, c.position⟩
  else
    let afterWhole := afterSign.drop whole.length
    let fraction := fractionDigits afterWhole
    let fractionLength := if fraction = [] then 0 else fraction.length + 1
    let (expDigits, expNegative, expLength) := exponentPart (afterWhole.drop fractionLength)
    let expLength := if expDigits = [] then 0 else expLength
    let length := (if negative then 1 else 0) + whole.length + fractionLength + expLength
    let value :=
      if fraction = [] ∧ expDigits = [] then
        Json.int (signed negative (decimalValue whole))
      else
        let e : Int := decimalValue expDigits
        Json.float (.ofDecimal negative (decimalValue (whole ++ fraction))
          ((if expNegative then -e else e) - fraction.length))
    if fraction = [] ∧ expDigits = [] ∧ mostDigits < whole.length then
      .error ⟨.digits, c.position⟩
    else .ok (value, c.drop length)

/-- The words that stand for values. -/
def words : List (List Char × Json) :=
  [("null".toList, .null), ("true".toList, .bool true), ("false".toList, .bool false),
  ("NaN".toList, .float .nan), ("Infinity".toList, .float (.infinite false)),
  ("-Infinity".toList, .float (.infinite true))]

/-- A word or a number at the cursor. -/
def readScalar (c : Cursor) : Except JsonFault (Json × Cursor) :=
  match words.find? fun w => w.1.isPrefixOf c.rest with
  | some (w, j) => .ok (j, c.drop w.length)
  | none => readNumber c

mutual

/-- A value at the cursor, in which values are nested at most `levels` deep. -/
def readValue : (fuel levels : Nat) → Cursor → Except JsonFault (Json × Cursor)
  | 0, _, c => .error ⟨.value, c.position⟩
  | fuel + 1, levels, c =>
    match c.rest with
    | '"' :: r => do
      let (s, c') ← readString c.position (c.position + 1) r
      .ok (.str (String.ofList s), c')
    | '\x7b' :: _ =>
      if levels = 0 then .error ⟨.nesting, c.position⟩
      else
        let c' := (c.drop 1).skip
        match c'.rest with
        | '\x7d' :: _ => .ok (.obj [], c'.drop 1)
        | _ => do
          let (ms, c') ← readMembers fuel (levels - 1) c'
          .ok (.ofMembers ms, c')
    | '[' :: _ =>
      if levels = 0 then .error ⟨.nesting, c.position⟩
      else
        let c' := (c.drop 1).skip
        match c'.rest with
        | ']' :: _ => .ok (.arr [], c'.drop 1)
        | _ => do
          let (items, c') ← readItems fuel (levels - 1) c'
          .ok (.arr items, c')
    | _ => readScalar c

/-- The members of an object, the first of which begins at the cursor, and the closing brace. -/
def readMembers : (fuel levels : Nat) → Cursor → Except JsonFault (List (String × Json) × Cursor)
  | 0, _, c => .error ⟨.name, c.position⟩
  | fuel + 1, levels, c =>
    match c.rest with
    | '"' :: r => do
      let (s, c) ← readString c.position (c.position + 1) r
      let c := c.skip
      match c.rest with
      | ':' :: _ => do
        let (j, c) ← readValue fuel levels (c.drop 1).skip
        let c := c.skip
        match c.rest with
        | '\x7d' :: _ => .ok ([(String.ofList s, j)], c.drop 1)
        | ',' :: _ => do
          let (ms, c) ← readMembers fuel levels (c.drop 1).skip
          .ok ((String.ofList s, j) :: ms, c)
        | _ => .error ⟨.comma, c.position⟩
      | _ => .error ⟨.colon, c.position⟩
    | _ => .error ⟨.name, c.position⟩

/-- The items of an array, the first of which begins at the cursor, and the closing bracket. -/
def readItems : (fuel levels : Nat) → Cursor → Except JsonFault (List Json × Cursor)
  | 0, _, c => .error ⟨.value, c.position⟩
  | fuel + 1, levels, c => do
    let (j, c) ← readValue fuel levels c
    let c := c.skip
    match c.rest with
    | ']' :: _ => .ok ([j], c.drop 1)
    | ',' :: _ => do
      let (items, c) ← readItems fuel levels (c.drop 1).skip
      .ok (j :: items, c)
    | _ => .error ⟨.comma, c.position⟩

end

/-- The value that a text writes, in which values are nested at most `levels` deep. -/
def parseWithin (levels : Nat) (t : List Char) : Except JsonFault Json := do
  let (j, c) ← readValue (2 * t.length + 2) levels (Cursor.skip ⟨0, t⟩)
  let c := c.skip
  if c.rest = [] then .ok j else .error ⟨.extra, c.position⟩

/-- The value that a text writes. -/
def parse (t : List Char) : Except JsonFault Json := parseWithin t.length t

end Json

end HashtagIndex
