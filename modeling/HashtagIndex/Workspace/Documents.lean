import HashtagIndex.Disk.Document
import HashtagIndex.Disk.Search
import HashtagIndex.Text.Casing
import HashtagIndex.Text.Order
import HashtagIndex.Workspace.Settings

/-!
# `HashtagIndex.Workspace.Documents` — which files are documents

There are two ways to tell. *Membership* looks at one path name: the extension in small letters is
one of the settings' extensions, and no directory on the way from the root is excluded. *Discovery*
searches a directory for each extension as a pattern for the end of a name, leaves out what stands
in an excluded directory, and answers with real paths.

## Contents
- `Settings.normalize`: the key under which a written path is indexed.
- `Settings.isExcluded`, `Settings.isDocument`: membership.
- `Settings.discover`, `Settings.listDocuments`: discovery.
-/

namespace HashtagIndex.Settings

/-- The name of the real path of a written path, relative ones starting from the root of the
workspace. -/
def normalize (s : Settings) (d : Disk) (written : Text) : Except PathFault PathName :=
  d.canonical s.root written

/-- Whether a directory on the way to a path name is excluded: below the root, or anywhere if the
name does not lead below the root. -/
def isExcluded (s : Settings) (name : PathName) : Bool :=
  ((name.below? s.root).getD name.allParts).dropLast.any (s.excluded.contains ·)

/-- Whether a path name is that of a document. -/
def isDocument (s : Settings) (name : PathName) : Bool :=
  s.extensions.contains (extensionOf name.name).lower && !s.isExcluded name

/-- Of the places found, the real paths of those that are files outside excluded directories. -/
def keepDocuments (s : Settings) (d : Disk) : List (List Text) → Except PathFault (List Text)
  | [] => .ok []
  | parts :: rest => do
    let file ← d.isFile parts
    let others ← s.keepDocuments d rest
    if file && !s.isExcluded (PathName.ofPath parts) then
      let p ← d.resolve parts
      .ok (p.toText :: others)
    else .ok others

/-- The real paths of the documents below a real directory that the pattern for an extension
finds. -/
def discoverOne (s : Settings) (d : Disk) (base : Path) (extension : Text) :
    Except PathFault (List Text) := do
  let found ← d.search base ('*' :: extension)
  s.keepDocuments d found

/-- The real paths of the documents below a real directory, as the patterns of the extensions find
them. -/
def discover (s : Settings) (d : Disk) (base : Path) : Except PathFault (List Text) := do
  let found ← s.extensions.mapM (s.discoverOne d base)
  .ok (Text.sortDistinct found.flatten)

/-- The documents at or below a real path with a name. -/
def documentsAt (s : Settings) (d : Disk) (base : PathName) : Except PathFault (List Text) := do
  let found ← d.exists? base.parts
  let file ← d.isFile base.parts
  if !found then .ok []
  else if file then .ok (if s.isDocument base then [base.toText] else [])
  else s.discover d base.parts

/-- The documents at or below a written path; an empty one stands for the root. -/
def listDocuments (s : Settings) (d : Disk) (folder : Text) : Except PathFault (List Text) :=
  if folder = [] then s.documentsAt d (.ofPath s.root)
  else do
    let base ← s.normalize d folder
    s.documentsAt d base

end HashtagIndex.Settings
