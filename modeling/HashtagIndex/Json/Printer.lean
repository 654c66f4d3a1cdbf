import HashtagIndex.Json.Basic
import HashtagIndex.Text.Quoted

/-!
# `HashtagIndex.Json.Printer` — transport text, and values inside messages

`Json.render` writes a value as one line of transport text. `Json.shown` writes it the way messages
show a foreign value: capitalised constants, quoted text, and a space after commas and colons.
-/

namespace HashtagIndex.Json

/-- One character of a string in transport text. -/
def escaped (c : Char) : List Char :=
  if c = '"' ∨ c = '\\' then ['\\', c]
  else if c.toNat < 32 then '\\' :: 'u' :: hexDigits 4 c.toNat
  else [c]

/-- A string in transport text. -/
def renderString (s : String) : String :=
  String.ofList ('"' :: s.toList.flatMap escaped ++ ['"'])

/-- A number with a fraction or exponent in transport text. -/
def renderFloat (x : Binary64) : String :=
  String.ofList (x.render "Infinity".toList "NaN".toList)

mutual

/-- A value as one line of transport text. -/
def render : Json → String
  | .null => "null"
  | .bool true => "true"
  | .bool false => "false"
  | .int n => toString n
  | .float x => renderFloat x
  | .str s => renderString s
  | .arr items => "[" ++ String.intercalate "," (renderItems items) ++ "]"
  | .obj members => "\x7b" ++ String.intercalate "," (renderMembers members) ++ "\x7d"

/-- The items of an array in transport text. -/
def renderItems : List Json → List String
  | [] => []
  | j :: r => render j :: renderItems r

/-- The members of an object in transport text. -/
def renderMembers : List (String × Json) → List String
  | [] => []
  | (n, j) :: r => (renderString n ++ ":" ++ render j) :: renderMembers r

end

/-- A string as messages show it. -/
def shownString (s : String) : String := (Text.quoted s.toList).toString

mutual

/-- A value as messages show it. -/
def shown : Json → String
  | .null => "None"
  | .bool true => "True"
  | .bool false => "False"
  | .int n => toString n
  | .float x => String.ofList (x.render "inf".toList "nan".toList)
  | .str s => shownString s
  | .arr items => "[" ++ String.intercalate ", " (shownItems items) ++ "]"
  | .obj members => "\x7b" ++ String.intercalate ", " (shownMembers members) ++ "\x7d"

/-- The items of an array as messages show them. -/
def shownItems : List Json → List String
  | [] => []
  | j :: r => shown j :: shownItems r

/-- The members of an object as messages show them. -/
def shownMembers : List (String × Json) → List String
  | [] => []
  | (n, j) :: r => (shownString n ++ ": " ++ shown j) :: shownMembers r

end

end HashtagIndex.Json
