import HashtagIndex.Json.Basic

/-!
# `HashtagIndex.Schema.Issue` — what is wrong with a given value

Checking a value collects every issue in it, in the order of its parts. An issue has a complaint,
the place of the value inside the whole, and the value itself.

## Contents
- `Complaint` with its code, wording and context.
- `Issue` and `Checked`, the result of checking: a value or the issues found.
- `Checked.pair`: checking two things and collecting the issues of both.
-/

namespace HashtagIndex

/-- What is wrong with a value. -/
inductive Complaint where
  | missing
  | notText
  | notList
  | notTuple
  | notDictionary
  | notInteger
  | unreadableInteger
  | hugeInteger
  | fractional
  | notFinite
  | negative
  | emptyTuple
  | textTooShort (least : Nat)
  | textTooLong (most : Nat)
  | notBoolean
  | unreadableBoolean
  | notOneOf (words : List String)
  | notRecord (name : String)
  | notBody
  | rejected (reason : String)
  | frozen
  | missingArgument
  | unexpectedArgument
  | malformed (reason : String)
  | tooDeep
deriving Repr, DecidableEq

/-- Words in quotes, with commas between them and `or` before the last. -/
def listWords : List String → String
  | [] => ""
  | [w] => s!"'{w}'"
  | [v, w] => s!"'{v}' or '{w}'"
  | w :: ws => s!"'{w}', " ++ listWords ws

namespace Complaint

/-- The code of a complaint. -/
def code : Complaint → String
  | missing => "missing"
  | notText => "string_type"
  | notList => "list_type"
  | notTuple => "tuple_type"
  | notDictionary => "dict_type"
  | notInteger => "int_type"
  | unreadableInteger => "int_parsing"
  | hugeInteger => "int_parsing_size"
  | fractional => "int_from_float"
  | notFinite => "finite_number"
  | negative => "greater_than_equal"
  | emptyTuple => "too_short"
  | textTooShort _ => "string_too_short"
  | textTooLong _ => "string_too_long"
  | notBoolean => "bool_type"
  | unreadableBoolean => "bool_parsing"
  | notOneOf _ => "enum"
  | notRecord _ => "model_type"
  | notBody => "model_attributes_type"
  | rejected _ => "value_error"
  | frozen => "frozen_instance"
  | missingArgument => "missing_argument"
  | unexpectedArgument => "unexpected_keyword_argument"
  | malformed _ => "json_invalid"
  | tooDeep => "recursion_depth_exceeded"

/-- A number of characters in words. -/
def characters (n : Nat) : String := if n = 1 then "1 character" else s!"{n} characters"

/-- The wording of a complaint. -/
def message : Complaint → String
  | missing => "Field required"
  | notText => "Input should be a valid string"
  | notList => "Input should be a valid list"
  | notTuple => "Input should be a valid tuple"
  | notDictionary => "Input should be a valid dictionary"
  | notInteger => "Input should be a valid integer"
  | unreadableInteger =>
    "Input should be a valid integer, unable to parse string as an integer"
  | hugeInteger => "Unable to parse input string as an integer, exceeded maximum size"
  | fractional => "Input should be a valid integer, got a number with a fractional part"
  | notFinite => "Input should be a finite number"
  | negative => "Input should be greater than or equal to 0"
  | emptyTuple => "Tuple should have at least 1 item after validation, not 0"
  | textTooShort least => s!"String should have at least {characters least}"
  | textTooLong most => s!"String should have at most {characters most}"
  | notBoolean => "Input should be a valid boolean"
  | unreadableBoolean => "Input should be a valid boolean, unable to interpret input"
  | notOneOf words => s!"Input should be {listWords words}"
  | notRecord name => s!"Input should be a valid dictionary or instance of {name}"
  | notBody => "Input should be a valid dictionary or object to extract fields from"
  | rejected reason => s!"Value error, {reason}"
  | frozen => "Instance is frozen"
  | missingArgument => "Missing required argument"
  | unexpectedArgument => "Unexpected keyword argument"
  | malformed _ => "JSON decode error"
  | tooDeep => "Recursion error - maximum validation depth exceeded"

/-- What a complaint says beyond its wording. -/
def context : Complaint → List (String × Json)
  | textTooShort least => [("min_length", .ofNat least)]
  | textTooLong most => [("max_length", .ofNat most)]
  | notOneOf words => [("expected", .str (listWords words))]
  | malformed reason => [("error", .str reason)]
  | negative => [("ge", .int 0)]
  | _ => []

end Complaint

/-- A step from a value to a part of it. -/
inductive Step where
  | field (name : String)
  | item (index : Nat)
deriving Repr, DecidableEq

/-- A step as a transport value. -/
def Step.toJson : Step → Json
  | .field name => .str name
  | .item index => .ofNat index

/-- Something wrong at a place inside a value. -/
structure Issue where
  complaint : Complaint
  place : List Step
  input : Json
deriving Repr

/-- What callers are told about an issue. -/
def Issue.brief (i : Issue) : List (String × Json) :=
  [("type", .str i.complaint.code), ("loc", .arr (i.place.map Step.toJson)),
  ("msg", .str i.complaint.message)]

/-- All that is known about an issue. -/
def Issue.full (i : Issue) : Json :=
  .obj (i.brief ++ ("input", i.input) ::
    (if i.complaint.context.isEmpty then [] else [("ctx", .obj i.complaint.context)]))

/-- A checked value, or the issues found in it. -/
abbrev Checked (α : Type) := Except (List Issue) α

namespace Checked

/-- One issue about a value, at the place that is being checked. -/
def fail (complaint : Complaint) (input : Json) : Checked α := .error [⟨complaint, [], input⟩]

/-- Place the issues of a part. -/
def under (step : Step) (c : Checked α) : Checked α :=
  c.mapError fun issues => issues.map fun i => { i with place := step :: i.place }

/-- Two checked values, or the issues of both. -/
def pair : Checked α → Checked β → Checked (α × β)
  | .ok a, .ok b => .ok (a, b)
  | .ok _, .error issues => .error issues
  | .error issues, .ok _ => .error issues
  | .error issues, .error more => .error (issues ++ more)

/-- Apply a function to a checked value. -/
def map (f : α → β) (c : Checked α) : Checked β := Except.map f c

end Checked

end HashtagIndex
