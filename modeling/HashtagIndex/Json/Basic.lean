import HashtagIndex.Collection.OrderedMap
import HashtagIndex.Number.Binary64

/-!
# `HashtagIndex.Json.Basic` — transport values

A transport value keeps integers apart from numbers with a fraction or an exponent, and the members
of an object in the order in which their names first appeared.

## Contents
- `Json`, `Json.get?`, `Json.ofMembers`.
- `Json.isTruthy`: whether a value counts as given.
- `Json.typeName`: the name of a value's type in messages.
- `Json.hasUndefined`: whether a number that no transport text can show occurs in a value;
  `Json.definedOnly`: the value with null in its place.
- `Json.depth`: how deeply values are nested.
-/

namespace HashtagIndex

/-- A transport value. -/
inductive Json where
  | null
  | bool (b : Bool)
  | int (n : Int)
  | float (x : Binary64)
  | str (s : String)
  | arr (items : List Json)
  | obj (members : List (String × Json))
deriving Inhabited, Repr

namespace Json

/-- An object from members in reading order; the last value of a name counts, at the place of the
first. -/
def ofMembers (members : List (String × Json)) : Json := .obj (OrderedMap.ofList members).entries

/-- The member of an object. -/
def get? (j : Json) (name : String) : Option Json :=
  match j with
  | .obj members => members.lookup name
  | _ => none

/-- A text as a transport value. -/
def ofText (t : Text) : Json := .str (String.ofList t)

/-- Texts as a transport value. -/
def ofTexts (ts : List Text) : Json := .arr (ts.map ofText)

/-- A natural number as a transport value. -/
def ofNat (n : Nat) : Json := .int n

/-- A value, or null. -/
def ofOption (f : α → Json) : Option α → Json
  | none => .null
  | some a => f a

/-- Whether a value counts as given: it is not null, false, zero or empty. -/
def isTruthy : Json → Bool
  | .null => false
  | .bool b => b
  | .int n => n != 0
  | .float x => !x.isZero
  | .str s => s != ""
  | .arr items => !items.isEmpty
  | .obj members => !members.isEmpty

/-- The name of a value's type in messages. -/
def typeName : Json → String
  | .null => "NoneType"
  | .bool _ => "bool"
  | .int _ => "int"
  | .float _ => "float"
  | .str _ => "str"
  | .arr _ => "list"
  | .obj _ => "dict"

mutual

/-- Whether an infinite or undefined number occurs in a value. -/
def hasUndefined : Json → Bool
  | .float x => !x.isFinite
  | .arr items => hasUndefinedItem items
  | .obj members => hasUndefinedMember members
  | _ => false

/-- `hasUndefined` for one of several values. -/
def hasUndefinedItem : List Json → Bool
  | [] => false
  | j :: r => hasUndefined j || hasUndefinedItem r

/-- `hasUndefined` for the value of one of several members. -/
def hasUndefinedMember : List (String × Json) → Bool
  | [] => false
  | (_, j) :: r => hasUndefined j || hasUndefinedMember r

end

mutual

/-- A value with null for the numbers that no transport text can show. -/
def definedOnly : Json → Json
  | .float x => if x.isFinite then .float x else .null
  | .arr items => .arr (definedItems items)
  | .obj members => .obj (definedMembers members)
  | j => j

/-- `definedOnly` for each of several values. -/
def definedItems : List Json → List Json
  | [] => []
  | j :: r => definedOnly j :: definedItems r

/-- `definedOnly` for the value of each of several members. -/
def definedMembers : List (String × Json) → List (String × Json)
  | [] => []
  | (name, j) :: r => (name, definedOnly j) :: definedMembers r

end

mutual

/-- How many values stand inside each other. -/
def depth : Json → Nat
  | .arr items => depthOfItems items + 1
  | .obj members => depthOfMembers members + 1
  | _ => 1

/-- The greatest depth of several values. -/
def depthOfItems : List Json → Nat
  | [] => 0
  | j :: r => max (depth j) (depthOfItems r)

/-- The greatest depth among the values of several members. -/
def depthOfMembers : List (String × Json) → Nat
  | [] => 0
  | (_, j) :: r => max (depth j) (depthOfMembers r)

end

end Json

end HashtagIndex
