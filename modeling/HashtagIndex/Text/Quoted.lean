import HashtagIndex.Text.Printable

/-!
# `HashtagIndex.Text.Quoted` — text in quotes

Messages show a foreign text in single quotes, or in double quotes when it holds single quotes only.
The backslash and the chosen quote are escaped, tab and line breaks have names, and any other
character that is not printable is written by its code point in two, four or eight hexadecimal
digits.
-/

namespace HashtagIndex

/-- The `width` lowest hexadecimal digits of a number. -/
def hexDigits (width n : Nat) : Text :=
  match width with
  | 0 => []
  | w + 1 => hexDigits w (n / 16) ++ [Nat.digitChar (n % 16)]

/-- One character inside quotes of the kind `quote`. -/
def escapeChar (quote c : Char) : Text :=
  if c = quote ∨ c = '\\' then ['\\', c]
  else if c = '\n' then ['\\', 'n']
  else if c = '\r' then ['\\', 'r']
  else if c = '\t' then ['\\', 't']
  else if isPrintable c then [c]
  else if c.toNat < 0x100 then '\\' :: 'x' :: hexDigits 2 c.toNat
  else if c.toNat < 0x10000 then '\\' :: 'u' :: hexDigits 4 c.toNat
  else '\\' :: 'U' :: hexDigits 8 c.toNat

/-- Text in quotes. -/
def Text.quoted (t : Text) : Text :=
  let quote := if '\'' ∈ t ∧ '"' ∉ t then '"' else '\''
  quote :: t.flatMap (escapeChar quote) ++ [quote]

example : Text.quoted ['a', '\'', '\n'] = ['"', 'a', '\'', '\\', 'n', '"'] := by decide +kernel
example : Text.quoted ['\x00'] = ['\'', '\\', 'x', '0', '0', '\''] := by decide +kernel

end HashtagIndex
