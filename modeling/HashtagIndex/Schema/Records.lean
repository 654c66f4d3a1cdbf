import HashtagIndex.Schema.Reader
import HashtagIndex.Tag.Query
import HashtagIndex.Workspace.Service

/-!
# `HashtagIndex.Schema.Records` — how records travel

Each kind of record that hosts send or receive has a reader and a writer. The reader names the
fields, says which of them may be left out and checks the rest in the order in which the record
declares them; members that the record does not know are ignored. The writer shows every field.

## Contents
- `Position`, `Range`, `Occurrence`, `Record`, `Location`: places in documents. Reading what was
  written gives the same place.
- `Node`, `Completion`: the hierarchy. Its children travel as a dictionary.
- `Edit`, `RenameReport`, `RenameRequest`: renames.
- `WorkspaceEvent`, `Summary`, `Sorting`, `SortingChange`: maintenance.
-/

namespace HashtagIndex

open Reader

/-! ## Places in documents -/

/-- Read a position. -/
def Position.read : Reader Position :=
  record (.notRecord "Position") <|
    ((required "line" natural).both (required "character" natural)).as fun p => ⟨p.1, p.2⟩

/-- Write a position. -/
def Position.toJson (p : Position) : Json :=
  .obj [("line", .ofNat p.line), ("character", .ofNat p.character)]

/-- Read a range with a reader for its positions. -/
def Range.readBy (position : Reader Position) : Reader Range :=
  record (.notRecord "TagRange") <|
    ((required "start" position).both (required "end" position)).as fun p => ⟨p.1, p.2⟩

/-- Read a range. -/
def Range.read : Reader Range := Range.readBy Position.read

/-- Write a range. -/
def Range.toJson (r : Range) : Json := .obj [("start", r.start.toJson), ("end", r.stop.toJson)]

theorem Position.read_toJson (p : Position) : Position.read p.toJson = .ok p := by
  rw [Position.read, Position.toJson, record]
  exact as_of_ok <| both_of_ok (required_of_get? rfl (natural_ofNat p.line))
    (required_of_get? rfl (natural_ofNat p.character))

theorem Range.read_toJson (r : Range) : Range.read r.toJson = .ok r := by
  rw [Range.read, Range.readBy, Range.toJson, record]
  exact as_of_ok <| both_of_ok (required_of_get? rfl r.start.read_toJson)
    (required_of_get? rfl r.stop.read_toJson)

/-- Read an occurrence; the path has at least one segment. -/
def Occurrence.read : Reader Occurrence :=
  record (.notRecord "TagOccurrence") <|
    ((required "path" (someTuple text)).both ((defaulted "file_path" [] text).both
      (required "range" Range.read))).as fun p => ⟨p.1, p.2.1, p.2.2⟩

/-- Write an occurrence. -/
def Occurrence.toJson (o : Occurrence) : Json :=
  .obj [("path", .ofTexts o.path), ("file_path", .ofText o.file), ("range", o.range.toJson)]

/-- Read the record of a document. -/
def Record.read : Reader Record :=
  record (.notRecord "FileTagRecord") <|
    ((required "file_path" text).both
      (defaulted "occurrences" [] (tuple Occurrence.read))).as fun p => ⟨p.1, p.2⟩

/-- Write the record of a document. -/
def Record.toJson (r : Record) : Json :=
  .obj [("file_path", .ofText r.file), ("occurrences", .arr (r.occurrences.map (·.toJson)))]

/-- Read a location with a reader for its positions. -/
def Location.readBy (position : Reader Position) : Reader Location :=
  record (.notRecord "TagLocation") <|
    ((required "file_path" text).both (required "range" (Range.readBy position))).as
      fun p => ⟨p.1, p.2⟩

/-- Read a location. -/
def Location.read : Reader Location := Location.readBy Position.read

/-- Write a location. -/
def Location.toJson (l : Location) : Json :=
  .obj [("file_path", .ofText l.file), ("range", l.range.toJson)]

theorem Location.read_toJson (l : Location) : Location.read l.toJson = .ok l := by
  rw [Location.read, Location.readBy, Location.toJson, record]
  exact as_of_ok <| both_of_ok (required_of_get? rfl (text_ofText l.file))
    (required_of_get? rfl l.range.read_toJson)

/-! ## The hierarchy -/

/-- What cannot be read because there are no levels left for it. -/
def beyondLevels : Reader α := fun j => .fail .tooDeep j

/-- Read a node of at most `depth` levels, of which the positions in it are one. -/
def Node.readWithin : (depth : Nat) → Reader Node
  | 0 => beyondLevels
  | depth + 1 =>
    let position := if depth = 0 then beyondLevels else Position.read
    record (.notRecord "TagNode") <|
      ((defaulted "name" [] text).both ((defaulted "parent_path" [] (list text)).both
        ((defaulted "children" [] (dictionary (Node.readWithin depth))).both
        ((defaulted "file_count" 0 natural).both ((defaulted "tag_count" 0 natural).both
        (defaulted "locations" [] (list (Location.readBy position)))))))).as
        fun p => ⟨p.1, p.2.1, p.2.2.1, p.2.2.2.1, p.2.2.2.2.1, p.2.2.2.2.2⟩

/-- The most levels of nodes that are read or written as records. -/
def Node.mostLevels : Nat := 255

mutual

/-- The levels of a node, of which the positions in it are one. -/
def Node.levels : Node → Nat
  | ⟨_, _, children, _, _, locations⟩ =>
    max (if locations.isEmpty then 1 else 2) (Node.levelsBelow children + 1)

/-- The levels of the deepest of several children. -/
def Node.levelsBelow : List (Text × Node) → Nat
  | [] => 0
  | (_, n) :: rest => max n.levels (Node.levelsBelow rest)

end

/-- Read a node. -/
def Node.read : Reader Node := Node.readWithin Node.mostLevels

mutual

/-- Write a node. -/
def Node.toJson : Node → Json
  | ⟨name, parentPath, children, fileCount, tagCount, locations⟩ =>
    .obj [("name", .ofText name), ("parent_path", .ofTexts parentPath),
      ("children", .obj (Node.membersToJson children)), ("file_count", .ofNat fileCount),
      ("tag_count", .ofNat tagCount), ("locations", .arr (locations.map (·.toJson)))]

/-- Write children, each under its name. -/
def Node.membersToJson : List (Text × Node) → List (String × Json)
  | [] => []
  | (name, n) :: rest => (String.ofList name, n.toJson) :: Node.membersToJson rest

end

/-- The members of a completion. -/
def Completion.members (name : Text) (fullPath : TagPath) (fileCount tagCount : Int) : Json :=
  .obj [("name", .ofText name), ("full_path", .ofTexts fullPath), ("file_count", .int fileCount),
    ("tag_count", .int tagCount)]

/-- Write a completion. -/
def Completion.toJson (c : Completion) : Json :=
  Completion.members c.name c.fullPath c.fileCount c.tagCount

/-- Check a completion. Its counts are not required to be counts of anything. -/
def Completion.check : Reader Json :=
  record (.notRecord "TagCompletion") <|
    ((required "name" text).both ((required "full_path" (list text)).both
      ((required "file_count" integer).both (required "tag_count" integer)))).as
      fun p => Completion.members p.1 p.2.1 p.2.2.1 p.2.2.2

/-! ## Renames -/

/-- Read an edit. -/
def Edit.read : Reader Edit :=
  record (.notRecord "RenameEdit") <|
    ((required "file_path" text).both ((required "line" natural).both
      ((required "old_line_text" text).both (required "new_line_text" text)))).as
      fun p => ⟨p.1, p.2.1, p.2.2.1, p.2.2.2⟩

/-- Write an edit. -/
def Edit.toJson (e : Edit) : Json :=
  .obj [("file_path", .ofText e.file), ("line", .ofNat e.line), ("old_line_text", .ofText e.old),
    ("new_line_text", .ofText e.new)]

theorem Edit.read_toJson (e : Edit) : Edit.read e.toJson = .ok e := by
  rw [Edit.read, Edit.toJson, record]
  exact as_of_ok <| both_of_ok (required_of_get? rfl (text_ofText e.file)) <|
    both_of_ok (required_of_get? rfl (natural_ofNat e.line)) <|
    both_of_ok (required_of_get? rfl (text_ofText e.old))
      (required_of_get? rfl (text_ofText e.new))

/-- An edit that was not applied, with the reason in words. -/
structure Omission where
  edit : Edit
  reason : Text
deriving Repr, DecidableEq

/-- Read an omission. -/
def Omission.read : Reader Omission :=
  record (.notRecord "SkippedEdit") <|
    ((required "edit" Edit.read).both (required "reason" text)).as fun p => ⟨p.1, p.2⟩

/-- Write an omission. -/
def Omission.toJson (o : Omission) : Json :=
  .obj [("edit", o.edit.toJson), ("reason", .ofText o.reason)]

/-- What hosts are told about a rename. -/
structure RenameReport where
  oldTag : Text
  newTag : Text
  applied : List Edit
  skipped : List Omission
deriving Repr, DecidableEq

/-- The report of a rename. -/
def RenameOutcome.report (o : RenameOutcome) : RenameReport :=
  ⟨o.oldTag, o.newTag, o.applied, o.skipped.map fun s => ⟨s.edit, s.reason.message.toList⟩⟩

/-- Read a report. -/
def RenameReport.read : Reader RenameReport :=
  record (.notRecord "RenameResult") <|
    ((required "old_tag" text).both ((required "new_tag" text).both
      ((defaulted "applied" [] (list Edit.read)).both
      (defaulted "skipped" [] (list Omission.read))))).as
      fun p => ⟨p.1, p.2.1, p.2.2.1, p.2.2.2⟩

/-- Write a report. -/
def RenameReport.toJson (r : RenameReport) : Json :=
  .obj [("old_tag", .ofText r.oldTag), ("new_tag", .ofText r.newTag),
    ("applied", .arr (r.applied.map (·.toJson))), ("skipped", .arr (r.skipped.map (·.toJson)))]

/-- A request to rename a tag. -/
structure RenameRequest where
  tag : Text
  name : Text
deriving Repr, DecidableEq

/-- The fields of a request to rename a tag; the tag is not empty. -/
def RenameRequest.fields : Reader RenameRequest :=
  ((required "tag" (textWithin 1 none)).both (required "new_name" text)).as fun p => ⟨p.1, p.2⟩

/-- Write a request to rename a tag. -/
def RenameRequest.toJson (r : RenameRequest) : Json :=
  .obj [("tag", .ofText r.tag), ("new_name", .ofText r.name)]

/-! ## Maintenance -/

/-- Read a kind of report. -/
def EventKind.read : Reader EventKind := choice EventKind.all EventKind.word

/-- Read a sort key. -/
def SortKey.read : Reader SortKey := choice SortKey.all SortKey.word

/-- Read a direction. -/
def SortOrder.read : Reader SortOrder := choice SortOrder.all SortOrder.word

/-- Read a reason for a scan. -/
def ScanReason.read : Reader ScanReason := choice ScanReason.all ScanReason.word

/-- The fields of a report about files. -/
def WorkspaceEvent.fields : Reader WorkspaceEvent :=
  ((required "kind" EventKind.read).both ((defaulted "paths" [] (list text)).both
    (defaulted "old_paths" [] (list text)))).as fun p => ⟨p.1, p.2.1, p.2.2⟩

/-- Read a report about files. -/
def WorkspaceEvent.read : Reader WorkspaceEvent :=
  record (.notRecord "WorkspaceEvent") WorkspaceEvent.fields

/-- Write a report about files. -/
def WorkspaceEvent.toJson (e : WorkspaceEvent) : Json :=
  .obj [("kind", .str e.kind.word), ("paths", .ofTexts e.paths), ("old_paths", .ofTexts e.oldPaths)]

/-- Read a summary. -/
def Summary.read : Reader Summary :=
  record (.notRecord "ScanSummary") <|
    ((required "reason" ScanReason.read).both ((required "files_indexed" natural).both
      (required "occurrences" natural))).as fun p => ⟨p.1, p.2.1, p.2.2⟩

/-- Write a summary. -/
def Summary.toJson (s : Summary) : Json :=
  .obj [("reason", .str s.reason.word), ("files_indexed", .ofNat s.files),
    ("occurrences", .ofNat s.occurrences)]

/-- Read an ordering. -/
def Sorting.read : Reader Sorting :=
  record (.notRecord "SortingSettings") <|
    ((defaulted "key" .name SortKey.read).both (defaulted "order" .asc SortOrder.read)).as
      fun p => ⟨p.1, p.2⟩

/-- Write an ordering. -/
def Sorting.toJson (s : Sorting) : Json :=
  .obj [("key", .str s.key.word), ("order", .str s.order.word)]

/-- A request to change the ordering in part. -/
structure SortingChange where
  key : Option SortKey
  order : Option SortOrder
deriving Repr, DecidableEq

/-- The fields of a request to change the ordering. -/
def SortingChange.fields : Reader SortingChange :=
  ((defaulted "key" none (optional SortKey.read)).both
    (defaulted "order" none (optional SortOrder.read))).as fun p => ⟨p.1, p.2⟩

/-- Write a request to change the ordering. -/
def SortingChange.toJson (c : SortingChange) : Json :=
  .obj [("key", .ofOption (fun k => .str k.word) c.key),
    ("order", .ofOption (fun o => .str o.word) c.order)]

end HashtagIndex
