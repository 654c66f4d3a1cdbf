import HashtagIndex.Disk.Document
import HashtagIndex.Json.Printer
import HashtagIndex.Schema.Issue
import HashtagIndex.Tag.Name
import HashtagIndex.Text.Integer
import HashtagIndex.Workspace.Rename

/-!
# `HashtagIndex.Fault` — every way a request can fail

A request fails because a name is refused, a document cannot be read or edited, a path cannot be
used, a value does not fit its schema, or a value is used for something its type does not offer.
Some things are refused only because they are too large: integers with too many digits, and
hierarchies with too many levels. Each cause has one wording; refusals and document faults have
details besides.
-/

namespace HashtagIndex

/-- Why a request fails. -/
inductive Fault where
  | name (fault : NameFault)
  | document (fault : DocumentFault)
  | path (fault : PathFault)
  /-- Values do not fit their schema. -/
  | invalid (issues : List Issue)
  /-- A tool refuses a name. -/
  | refusedTool (fault : NameFault)
  /-- A value is no word for a constant of the named kind. -/
  | unknownWord (kind : String) (value : Json)
  /-- A text does not write an integer. -/
  | notInteger (t : Text)
  /-- A text writes an integer with too many digits. -/
  | tooManyDigits (digits : Nat)
  /-- An integer with too many digits is to be written. -/
  | longNumber
  /-- A tag has too many segments for a hierarchy. -/
  | deepHierarchy
  /-- A hierarchy has too many levels for an outline. -/
  | deepOutline
  /-- A value has too many levels to be shown. -/
  | deepValue
  /-- A number cannot be shown in transport text. -/
  | undefinedNumber
  /-- A body is not transport text. -/
  | octets
  /-- A body cannot be read at all. -/
  | unreadableBody
  /-- A value of the named type has no items. -/
  | notIterable (type : String)
  /-- A value of the named type cannot be spread into a list. -/
  | notSpreadable (type : String)
  /-- A value of the named type cannot be trimmed. -/
  | notTrimmable (type : String)
  /-- A value of the named type is no path. -/
  | notPath (type : String)
  /-- A value of the named type cannot be a key. -/
  | notKey (type : String)
  /-- A snapshot cannot be written to. -/
  | readOnly
  /-- A record has no such field. -/
  | noField (record field : String)
  /-- A field of a record is computed. -/
  | computedField (record field : String)
deriving Repr

/-- The fault of a rename as a fault of a request. -/
def RenameFault.toFault : RenameFault → Fault
  | .name f => .name f
  | .path f => .path f
  | .longNumber => .longNumber

/-- What stops the work on edits as a fault of a request. -/
def EditFault.toFault (f : EditFault) : Fault := (RenameFault.ofEdit f).toFault

/-- The fault of a disk operation as a fault of a request. -/
def DiskFault.toFault : DiskFault → Fault
  | .path f => .path f
  | .document f => .document f

/-- The fault of replacing a line as a fault of a request. -/
def LineFault.toFault : LineFault → Fault
  | .disk f => f.toFault
  | .longNumber => .longNumber

/-- What a refusal is about. -/
def NameFault.details : NameFault → List (String × Json)
  | .emptyName => []
  | .blank n => [("name", .ofText n)]
  | .special n => [("name", .ofText n)]
  | .notSegment n => [("name", .ofText n)]
  | .emptyTag t => [("tag", .ofText t)]

/-- What a fault of a document is about. -/
def DocumentFault.details : DocumentFault → List (String × Json)
  | .unreadable file cause =>
    [("file_path", .ofText file), ("error", .str (cause.message file))]
  | .unwritable file cause =>
    [("file_path", .ofText file), ("error", .str (cause.message file))]
  | .lineGone file line => [("file_path", .ofText file), ("line", .int line)]
  | .lineChanged file line expected actual =>
    [("file_path", .ofText file), ("line", .int line), ("expected", .ofText expected),
    ("actual", .ofText actual)]

namespace Fault

/-- The wording of a fault; issues have their own. -/
def message : Fault → String
  | name f => f.message
  | document f => f.message
  | path f => f.message
  | invalid _ => ""
  | refusedTool f => f.message
  | unknownWord kind value => s!"{value.shown} is not a valid {kind}"
  | notInteger t =>
    s!"invalid literal for int() with base 10: {Text.toString (t.quoted.take 200)}"
  | tooManyDigits digits =>
    s!"Exceeds the limit ({mostDigits} digits) for integer string conversion: " ++
      s!"value has {digits} digits; use sys.set_int_max_str_digits() to increase the limit"
  | longNumber =>
    s!"Exceeds the limit ({mostDigits} digits) for integer string conversion; " ++
      "use sys.set_int_max_str_digits() to increase the limit"
  | deepHierarchy => "maximum recursion depth exceeded while calling a Python object"
  | deepOutline => "maximum recursion depth exceeded"
  | deepValue => "Error serializing to JSON: ValueError: Maximum serialization depth exceeded"
  | undefinedNumber => "Out of range float values are not JSON compliant"
  | octets => "Object of type bytes is not JSON serializable"
  | unreadableBody => "There was an error parsing the body"
  | notIterable type => s!"'{type}' object is not iterable"
  | notSpreadable type => s!"Value after * must be an iterable, not {type}"
  | notTrimmable type => s!"'{type}' object has no attribute 'strip'"
  | notPath type => s!"expected str, bytes or os.PathLike object, not {type}"
  | notKey type => s!"unhashable type: '{type}'"
  | readOnly => "'mappingproxy' object does not support item assignment"
  | noField record field => s!"\"{record}\" object has no field \"{field}\""
  | computedField record field => s!"property '{field}' of '{record}' object has no setter"

/-- What a refusal or a fault of a document is about. -/
def details? : Fault → Option (List (String × Json))
  | name f => some f.details
  | document f => some f.details
  | _ => none

/-- What a fault carries when nothing is known about its kind: the number of an error of the system,
or the wording. -/
def payload : Fault → Json
  | path (.nameTooLong _) => .ofNat OpenError.nameTooLong.describe.1
  | path (.notPermitted _) => .ofNat OpenError.permissionDenied.describe.1
  | f => .str f.message

/-- What a hierarchy of bounded depth gives, or the fault that there is no such hierarchy. -/
def ofHierarchy : Option α → Except Fault α
  | some a => .ok a
  | none => .error deepHierarchy

end Fault

end HashtagIndex
