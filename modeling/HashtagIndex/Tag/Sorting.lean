/-!
# `HashtagIndex.Tag.Sorting` — how siblings are ordered

Siblings go by name, by the number of documents, or by the number of tags, in either direction.
-/

namespace HashtagIndex

/-- What siblings are ordered by. -/
inductive SortKey where
  | name
  | countFiles
  | countTags
deriving Repr, DecidableEq, Inhabited

/-- The word for a sort key. -/
def SortKey.word : SortKey → String
  | .name => "name"
  | .countFiles => "countFiles"
  | .countTags => "countTags"

/-- The sort keys in the order in which messages list them. -/
def SortKey.all : List SortKey := [.name, .countFiles, .countTags]

/-- The direction of an ordering. -/
inductive SortOrder where
  | asc
  | desc
deriving Repr, DecidableEq, Inhabited

/-- The word for a direction. -/
def SortOrder.word : SortOrder → String
  | .asc => "asc"
  | .desc => "desc"

/-- The directions in the order in which messages list them. -/
def SortOrder.all : List SortOrder := [.asc, .desc]

/-- How siblings are ordered at every level. -/
structure Sorting where
  key : SortKey := .name
  order : SortOrder := .asc
deriving Repr, DecidableEq, Inhabited

end HashtagIndex
