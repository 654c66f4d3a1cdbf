import HashtagIndex.Disk.Path
import HashtagIndex.Tag.Sorting

/-!
# `HashtagIndex.Workspace.Settings` — what a workspace is

A workspace is a directory, the extensions of its documents, the names of directories left out, and
the ordering its tag hierarchy starts with.
-/

namespace HashtagIndex

/-- The settings of a workspace. -/
structure Settings where
  root : Path
  extensions : List Text
  excluded : List Text
  sorting : Sorting
  logLevel : Text
deriving Repr, DecidableEq, Inhabited

/-- The extensions of documents unless others are set. -/
def defaultExtensions : List Text := [['.', 'm', 'd']]

/-- The directory names left out unless others are set. -/
def defaultExcluded : List Text := [".git".toList, "node_modules".toList]

end HashtagIndex
