import HashtagIndex.Fault
import HashtagIndex.Schema.Records

/-!
# `HashtagIndex.Schema.Kind` — the kinds of records, by name

A kind of record has a name, its fields, and a check that turns a given value into the record with
all its fields. Records of some kinds are frozen: their fields cannot be assigned. The fields of the
others can, and what is assigned is not checked again. When the record is shown, a truth value in a
field that holds a number is shown as a number, and a number that no transport text can show as
null. Some kinds have a field that is computed from the others.

## Contents
- `Kind`, `Kind.all`, `Kind.named?`.
- `Kind.assign`, `Kind.assignAll`: assigning fields.
- `Kind.shown`: a record as a transport value; `Kind.view`: its computed field.
-/

namespace HashtagIndex

/-- A field that is computed from the fields of a record. -/
structure ComputedField where
  name : String
  value : Json → Except Fault Json

/-- A kind of record. -/
structure Kind where
  name : String
  frozen : Bool
  check : Reader Json
  computed : Option ComputedField := none
  /-- The fields that hold numbers. -/
  counts : List String := []

namespace Kind

/-- The items of a value: characters of a text, names of members. -/
def itemsOf? : Json → Option (List Json)
  | .arr items => some items
  | .str s => some (s.toList.map fun c => .str (String.singleton c))
  | .obj members => some (members.map fun m => .str m.1)
  | _ => none

/-- The items of a field of a record. -/
def items (fault : String → Fault) (j : Json) : Except Fault (List Json) :=
  match itemsOf? j with
  | some js => .ok js
  | none => .error (fault j.typeName)

/-- The tag of an occurrence: its segments with a slash between them. -/
def tagOf (record : Json) : Except Fault Json :=
  let segments := Reader.required "path" (Reader.tuple Reader.text)
  (segments.as fun p => Json.ofText (joinSegments p)) record |>.mapError .invalid

/-- The path of a node: the path of its parent, and its own name if it has one. -/
def fullPathOf (record : Json) : Except Fault Json :=
  let name := (record.get? "name").getD .null
  let parent := (record.get? "parent_path").getD .null
  if name.isTruthy then (fun js => .arr (js ++ [name])) <$> items .notSpreadable parent
  else .arr <$> items .notIterable parent

/-- A kind whose check reads a value of the domain. -/
def ofReader (name : String) (frozen : Bool) (r : Reader α) (write : α → Json)
    (computed : Option ComputedField) : Kind :=
  ⟨name, frozen, fun j => (r j).map write, computed, []⟩

/-- A kind with fields that hold numbers. -/
def withCounts (k : Kind) (counts : List String) : Kind := { k with counts }

/-- All kinds of records. -/
def all : List Kind :=
  [ofReader "Position" true Position.read Position.toJson none,
  ofReader "TagRange" true Range.read Range.toJson none,
  ofReader "TagOccurrence" true Occurrence.read Occurrence.toJson (some ⟨"tag", tagOf⟩),
  ofReader "FileTagRecord" true Record.read Record.toJson none,
  ofReader "TagLocation" true Location.read Location.toJson none,
  (ofReader "TagNode" false Node.read Node.toJson (some ⟨"full_path", fullPathOf⟩)).withCounts
    ["file_count", "tag_count"],
  ⟨"TagCompletion", false, Completion.check, none, ["file_count", "tag_count"]⟩,
  ofReader "RenameEdit" true Edit.read Edit.toJson none,
  ofReader "SkippedEdit" false Omission.read Omission.toJson none,
  ofReader "RenameResult" false RenameReport.read RenameReport.toJson none,
  ofReader "WorkspaceEvent" false WorkspaceEvent.read WorkspaceEvent.toJson none,
  (ofReader "ScanSummary" false Summary.read Summary.toJson none).withCounts
    ["files_indexed", "occurrences"],
  ofReader "SortingSettings" false Sorting.read Sorting.toJson none,
  ofReader "SortingUpdate" false
    (Reader.record (.notRecord "SortingUpdate") SortingChange.fields) SortingChange.toJson none,
  ofReader "RenameRequest" false
    (Reader.record (.notRecord "RenameRequest") RenameRequest.fields) RenameRequest.toJson none]

/-- The kind with a name. -/
def named? (name : String) : Option Kind := all.find? (·.name == name)

/-- Replace the value of a member. -/
def replaceMember (name : String) (value : Json) : Json → Json
  | .obj members => .obj (members.map fun m => if m.1 == name then (name, value) else m)
  | j => j

/-- What every record tells about itself: the fields that were given, and those beyond its kind. -/
def ownNames : List String := ["model_fields_set", "model_extra"]

/-- A value as it is shown in a field. -/
def shownIn (k : Kind) (field : String) (value : Json) : Json :=
  match value with
  | .bool b => if k.counts.contains field then .int (if b then 1 else 0) else .bool b
  | j => j.definedOnly

/-- A record as it is shown. -/
def shown (k : Kind) : Json → Json
  | .obj members => .obj (members.map fun m => (m.1, k.shownIn m.1 m.2))
  | j => j

/-- Whether a name is private: it can be assigned in records of every kind and is never shown. -/
def isPrivate (field : String) : Bool := field.startsWith "_"

/-- Assign a field of a record. -/
def assign (k : Kind) (record : Json) (field : String) (value : Json) : Except Fault Json :=
  if isPrivate field then .ok record
  else if k.frozen then .error (.invalid [⟨.frozen, [.field field], value⟩])
  else if k.computed.any (·.name == field) || ownNames.contains field then
    .error (.computedField k.name field)
  else if (record.get? field).isNone then .error (.noField k.name field)
  else .ok (replaceMember field value record)

/-- Assign several fields of a record, one after the other. -/
def assignAll (k : Kind) (record : Json) (fields : List (String × Json)) : Except Fault Json :=
  fields.foldlM (fun r f => k.assign r f.1 f.2) record

/-- The record that a value gives, as long as it fits. -/
def make (k : Kind) (value : Json) : Except Fault Json := (k.check value).mapError .invalid

/-- The computed field of a record. -/
def view (k : Kind) (record : Json) : Except Fault (List (String × Json)) :=
  match k.computed with
  | none => .ok []
  | some c => (fun v => [(c.name, v)]) <$> c.value record

end Kind

end HashtagIndex
