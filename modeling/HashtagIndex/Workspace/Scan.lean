import HashtagIndex.Tag.Index
import HashtagIndex.Tag.Parser
import HashtagIndex.Workspace.Documents

/-!
# `HashtagIndex.Workspace.Scan` — keeping the index in step with the disk

A scan has a reason. A scan of the workspace rebuilds the index. A scan for created or updated paths
expands them to documents first and then reads those again. A scan for deleted paths drops what is
indexed at or below them, path after path. A scan for renamed paths drops the old ones and then
scans the new ones; the two lists need not correspond.

A document that cannot be read is not indexed. A path that cannot be used makes the scan fail:
before anything changed for a rebuild or an expansion, after the paths before it were dropped for a
deletion.
-/

namespace HashtagIndex

/-- Why a scan is made. -/
inductive ScanReason where
  | workspace
  | fileCreatedOrUpdated
  | fileDeleted
  | fileRenamed
  | justGet
deriving Repr, DecidableEq, Inhabited

/-- The word for a reason. -/
def ScanReason.word : ScanReason → String
  | .workspace => "forWorkspace"
  | .fileCreatedOrUpdated => "forFileCreatedOrUpdated"
  | .fileDeleted => "forFileDeleted"
  | .fileRenamed => "forFileRenamed"
  | .justGet => "justGet"

/-- The reasons in the order in which messages list them. -/
def ScanReason.all : List ScanReason :=
  [.workspace, .fileCreatedOrUpdated, .fileDeleted, .fileRenamed, .justGet]

/-- The record of a document, or nothing if it cannot be read. -/
def scanFile (d : Disk) (file : Text) : Except PathFault (Option Record) :=
  match d.readDocument file with
  | .ok text => .ok (some ⟨file, parseTags text file⟩)
  | .error (.document _) => .ok none
  | .error (.path f) => .error f

/-- Whether an index key is a path or stands below it. -/
def atOrBelow (path key : Text) : Bool :=
  key == path || ((path.reverse.dropWhile (· = '/')).reverse ++ ['/']).isPrefixOf key

namespace Settings

/-- The records of documents that can be read. -/
def scanDocuments (d : Disk) : List Text → Except PathFault (List Record)
  | [] => .ok []
  | file :: rest => do
    let r ← scanFile d file
    let rs ← scanDocuments d rest
    .ok (r.toList ++ rs)

/-- The index of the whole workspace. -/
def fullIndex (s : Settings) (d : Disk) : Except PathFault Index := do
  let files ← s.listDocuments d []
  let records ← scanDocuments d files
  .ok (Index.ofRecords records)

/-- The documents that one changed path stands for. -/
def expandPath (s : Settings) (d : Disk) (written : Text) : Except PathFault (List Text) := do
  let p ← s.normalize d written
  let folder ← d.isDirectory p.parts
  if folder then s.listDocuments d p.toText
  else .ok (if s.isDocument p then [p.toText] else [])

/-- The documents that changed paths stand for, each once, in order. -/
def expandPaths (s : Settings) (d : Disk) (written : List Text) : Except PathFault (List Text) := do
  let found ← written.mapM (s.expandPath d)
  .ok found.flatten.eraseDups

/-- Read documents again: those that can be read are stored, the others dropped. -/
def refresh (d : Disk) (ix : Index) : List Text → Index × Except PathFault Unit
  | [] => (ix, .ok ())
  | file :: rest =>
    match scanFile d file with
    | .error f => (ix, .error f)
    | .ok none => refresh d (ix.erase file) rest
    | .ok (some r) => refresh d (ix.upsert r) rest

/-- Read the documents that changed paths stand for. -/
def scanPaths (s : Settings) (d : Disk) (written : List Text) (ix : Index) :
    Index × Except PathFault Unit :=
  match s.expandPaths d written with
  | .error f => (ix, .error f)
  | .ok files => refresh d ix files

/-- Drop what is indexed at or below the given paths. -/
def removePaths (s : Settings) (d : Disk) (ix : Index) : List Text → Index × Except PathFault Unit
  | [] => (ix, .ok ())
  | w :: rest =>
    match s.normalize d w with
    | .error f => (ix, .error f)
    | .ok p => removePaths s d (ix.filterKeys fun k => !atOrBelow p.toText k) rest

/-- Bring the index up to date for a reason. -/
def scan (s : Settings) (d : Disk) (reason : ScanReason) (changed old : List Text) (ix : Index) :
    Index × Except PathFault Unit :=
  match reason with
  | .justGet => (ix, .ok ())
  | .workspace =>
    match s.fullIndex d with
    | .error f => (ix, .error f)
    | .ok fresh => (fresh, .ok ())
  | .fileCreatedOrUpdated => s.scanPaths d changed ix
  | .fileDeleted => s.removePaths d ix changed
  | .fileRenamed =>
    match s.removePaths d ix old with
    | (ix', .error f) => (ix', .error f)
    | (ix', .ok ()) => s.scanPaths d changed ix'

end Settings

end HashtagIndex
