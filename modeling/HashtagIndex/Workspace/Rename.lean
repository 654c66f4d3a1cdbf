import HashtagIndex.Disk.Document
import HashtagIndex.Json.Basic
import HashtagIndex.Tag.Index
import HashtagIndex.Tag.Name
import HashtagIndex.Tag.Parser
import HashtagIndex.Text.Order

/-!
# `HashtagIndex.Workspace.Rename` — renaming the last segment of a tag

A rename is planned from a snapshot and carried out on the disk. The plan has one edit for each line
that changes. Occurrences on a line are replaced from right to left, so that the offsets of those
still to come stay valid; an occurrence whose text no longer reads as the old tag is left alone.
Tags nested beneath the old one keep their names.

Edits are applied one by one. An edit whose document or line is no longer as planned is skipped, and
its reason kept; so is one whose document cannot be written in full. A name that cannot be used, or a
line number that is too long to be reported, stops the work.
-/

namespace HashtagIndex

/-- The replacement of one line of a document. -/
structure Edit where
  file : Text
  line : Nat
  old : Text
  new : Text
deriving Repr, DecidableEq

/-- An edit that was not applied, and why. -/
structure SkippedEdit where
  edit : Edit
  reason : DocumentFault
deriving Repr, DecidableEq

/-- What became of the edits of a plan. -/
structure RenameOutcome where
  oldTag : Text
  newTag : Text
  applied : List Edit := []
  skipped : List SkippedEdit := []
deriving Repr, DecidableEq

/-! ## Planning -/

/-- Replace the text at one recorded place, if it still reads as the old tag. -/
def replaceTagAt (old new line : Text) (o : Occurrence) : Text :=
  let start := o.range.start.character
  let stop := o.range.stop.character
  if line.slice start stop = old then line.splice start stop new else line

/-- Occurrences from right to left. -/
def rightToLeft (os : List Occurrence) : List Occurrence :=
  os.mergeSort fun a b => b.range.start.character ≤ a.range.start.character

/-- Replace the text at all recorded places of a line. -/
def replaceTags (old new line : Text) (os : List Occurrence) : Text :=
  (rightToLeft os).foldl (replaceTagAt old new) line

/-- The edits of one document, given its lines and the occurrences to be renamed. -/
def planLines (file old new : Text) (lines : List Text) (os : List Occurrence) : List Edit :=
  let numbers := ((os.map (·.range.start.line)).eraseDups).mergeSort
  numbers.filterMap fun n =>
    match lines[n]? with
    | none => none
    | some line =>
      let text := replaceTags old new line (os.filter (·.range.start.line = n))
      if text = line then none else some ⟨file, n, line, text⟩

/-- The edits of one document; none if it cannot be read. -/
def planFile (d : Disk) (old new file : Text) (os : List Occurrence) :
    Except PathFault (List Edit) :=
  if os = [] then .ok []
  else
    match d.readDocument file with
    | .error (.document _) => .ok []
    | .error (.path f) => .error f
    | .ok text => .ok (planLines file old new text.lines os)

/-- The occurrences of a tag that a snapshot has for a document. -/
def occurrencesOf (s : Index) (path : TagPath) (file : Text) : List Occurrence :=
  ((s.get? file).map fun r => r.occurrences.filter (·.path = path)).getD []

/-- The edits that rename the last segment of a tag to a name already checked. -/
def planEdits (d : Disk) (s : Index) (path : TagPath) (name : Text) :
    Except PathFault (List Edit) := do
  let old := writtenTag path
  let new := writtenTag (renamedPath path name)
  let edits ← (Text.sort s.keys).mapM fun file =>
    planFile d old new file (occurrencesOf s path file)
  .ok edits.flatten

/-- Why edits are not applied any further: a path cannot be used, or a line number is too long. -/
inductive EditFault where
  | path (fault : PathFault)
  | longNumber
deriving Repr, DecidableEq

/-- Why a rename fails as a whole: a name is refused, a path cannot be used, or edits are not applied
any further. -/
inductive RenameFault where
  | name (fault : NameFault)
  | path (fault : PathFault)
  | longNumber
deriving Repr, DecidableEq

/-- What stops the work on edits stops the rename. -/
def RenameFault.ofEdit : EditFault → RenameFault
  | .path f => .path f
  | .longNumber => .longNumber

/-- The edits that rename the last segment of a tag; none if there is nothing to rename. -/
def planRename (d : Disk) (s : Index) (path : TagPath) (name : Text) :
    Except RenameFault (List Edit) :=
  match checkName name with
  | .error f => .error (.name f)
  | .ok _ =>
    if path = [] ∨ path.getLast? = some name then .ok []
    else (planEdits d s path name).mapError .path

/-! ## Applying -/

/-- Apply edits in order. The disk is answered even when the work stops. -/
def applyEdits (d : Disk) : List Edit → Disk × Except EditFault (List Edit × List SkippedEdit)
  | [] => (d, .ok ([], []))
  | e :: rest =>
    match d.replaceLine e.file e.line e.old e.new with
    | (d', .ok ()) =>
      let (d'', r) := applyEdits d' rest
      (d'', r.map fun done => (e :: done.1, done.2))
    | (d', .error (.disk (.document f))) =>
      let (d'', r) := applyEdits d' rest
      (d'', r.map fun done => (done.1, ⟨e, f⟩ :: done.2))
    | (d', .error (.disk (.path f))) => (d', .error (.path f))
    | (d', .error .longNumber) => (d', .error .longNumber)

/-- Apply a plan and report what became of its edits. -/
def applyPlan (d : Disk) (edits : List Edit) (oldTag newTag : Text) :
    Disk × Except EditFault RenameOutcome :=
  let (d', r) := applyEdits d edits
  (d', r.map fun done => ⟨oldTag, newTag, done.1, done.2⟩)

end HashtagIndex
