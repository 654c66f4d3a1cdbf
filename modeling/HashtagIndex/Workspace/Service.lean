import HashtagIndex.Tag.Query
import HashtagIndex.Workspace.Rename
import HashtagIndex.Workspace.Scan

/-!
# `HashtagIndex.Workspace.Service` — one index and everything that reads or writes it

A service holds the settings of a workspace, its index, the ordering of its hierarchy, and whether
the whole workspace has been scanned yet. Operations that read or change documents take the disk and
answer with what it has become.

A rename that got as far as planning is followed by a scan of the whole workspace, whatever became
of its edits, so that the index shows what is really there.

## Contents
- `Service`, `Summary`, `WorkspaceEvent`.
- `Service.scan`, `Service.handle`, `Service.handleAll`: scans and reports of changes.
- `Service.tree?`, `Service.complete?`, `Service.references?`: questions, which have no answer while
  the hierarchy is too deep.
- `Service.rename`: planning, applying and scanning again.
-/

namespace HashtagIndex

/-- What a host reports about files. -/
inductive EventKind where
  | saved
  | created
  | deleted
  | renamed
  | configurationChanged
  | refresh
deriving Repr, DecidableEq, Inhabited

/-- The word for a kind of report. -/
def EventKind.word : EventKind → String
  | .saved => "saved"
  | .created => "created"
  | .deleted => "deleted"
  | .renamed => "renamed"
  | .configurationChanged => "configurationChanged"
  | .refresh => "refresh"

/-- The kinds of reports in the order in which messages list them. -/
def EventKind.all : List EventKind :=
  [.saved, .created, .deleted, .renamed, .configurationChanged, .refresh]

/-- The reason for the scan that a report leads to. -/
def EventKind.reason : EventKind → ScanReason
  | .saved => .fileCreatedOrUpdated
  | .created => .fileCreatedOrUpdated
  | .deleted => .fileDeleted
  | .renamed => .fileRenamed
  | .configurationChanged => .workspace
  | .refresh => .workspace

/-- A report about files. -/
structure WorkspaceEvent where
  kind : EventKind
  paths : List Text := []
  oldPaths : List Text := []
deriving Repr, DecidableEq

/-- The state of an index after a scan. -/
structure Summary where
  reason : ScanReason
  files : Nat
  occurrences : Nat
deriving Repr, DecidableEq

/-- A service for one workspace. -/
structure Service where
  settings : Settings
  index : Index := .empty
  sorting : Sorting := settings.sorting
  /-- Whether the whole workspace has been scanned. -/
  scanned : Bool := false

/-- A service and the disk it works on. -/
structure Session where
  service : Service
  disk : Disk

namespace Service

/-- What the index holds, with the reason for looking. -/
def summary (sv : Service) (reason : ScanReason) : Summary :=
  ⟨reason, sv.index.size, sv.index.occurrenceCount⟩

/-- Scan for a reason. -/
def scan (sv : Service) (d : Disk) (reason : ScanReason) (changed old : List Text) :
    Service × Except PathFault Summary :=
  match sv.settings.scan d reason changed old sv.index with
  | (ix, .error f) => ({ sv with index := ix }, .error f)
  | (ix, .ok ()) =>
    let sv' := { sv with index := ix, scanned := sv.scanned || reason == .workspace }
    (sv', .ok (sv'.summary reason))

/-- Scan the whole workspace. -/
def scanAll (sv : Service) (d : Disk) : Service × Except PathFault Summary :=
  sv.scan d .workspace [] []

/-- Scan for what a host reports; old paths count only for a renaming. -/
def handle (sv : Service) (d : Disk) (e : WorkspaceEvent) : Service × Except PathFault Summary :=
  sv.scan d e.kind.reason e.paths (if e.kind = .renamed then e.oldPaths else [])

/-- Scan for each of several reports in turn. All of them are handled; if some fail, the first
failure is the answer. -/
def handleAll (sv : Service) (d : Disk) :
    List WorkspaceEvent → Service × Except PathFault (List Summary)
  | [] => (sv, .ok [])
  | e :: rest =>
    let (first, r) := sv.handle d e
    let (last, rs) := first.handleAll d rest
    (last, match r with
      | .error f => .error f
      | .ok s => (s :: ·) <$> rs)

/-- The hierarchy, in the given ordering where one is given. -/
def tree? (sv : Service) (key : Option SortKey) (order : Option SortOrder) : Option Node :=
  buildTree? sv.index ⟨key.getD sv.sorting.key, order.getD sv.sorting.order⟩

/-- Change the ordering where one is given. -/
def setSorting (sv : Service) (key : Option SortKey) (order : Option SortOrder) : Service :=
  { sv with sorting := ⟨key.getD sv.sorting.key, order.getD sv.sorting.order⟩ }

/-- The segments that may come next in a typed text. -/
def complete? (sv : Service) (typed : Text) : Option (List Completion) :=
  (sv.tree? none none).map (·.complete typed)

/-- Where a tag occurs, and on demand the tags nested beneath it. -/
def references? (sv : Service) (tag : Text) (nested : Bool) : Option (List Location) :=
  (sv.tree? none none).map (·.references (splitTag tag) nested)

/-- Plan a rename of the tag at a path from the index and apply it. -/
def carryOut (sv : Service) (d : Disk) (path : TagPath) (name : Text) :
    Disk × Except RenameFault RenameOutcome :=
  match planRename d sv.index path name with
  | .error f => (d, .error f)
  | .ok edits =>
    let (d', r) := applyPlan d edits (writtenTag path) (writtenTag (renamedPath path name))
    (d', r.mapError .ofEdit)

/-- Rename the last segment of a tag wherever it occurs, and scan the workspace again. -/
def rename (sv : Service) (d : Disk) (tag name : Text) :
    Session × Except RenameFault RenameOutcome :=
  let path := splitTag tag
  match checkName name with
  | .error f => (⟨sv, d⟩, .error (.name f))
  | .ok _ =>
    if path = [] then (⟨sv, d⟩, .error (.name (.emptyTag tag)))
    else if path.getLast? = some name then
      (⟨sv, d⟩, .ok { oldTag := writtenTag path, newTag := writtenTag (renamedPath path name) })
    else
      let (d', result) := sv.carryOut d path name
      match sv.scanAll d' with
      | (sv', .error f) => (⟨sv', d'⟩, .error (.path f))
      | (sv', .ok _) => (⟨sv', d'⟩, result)

end Service

end HashtagIndex
