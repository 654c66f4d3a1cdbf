import HashtagIndex.Collection.OrderedMap
import HashtagIndex.Tag.Basic

/-!
# `HashtagIndex.Tag.Index` — the records of many documents

The index maps a document's path to its record. It knows nothing of trees or sorting. Because it is
a value, the index at some moment and a snapshot of it are the same thing.
-/

namespace HashtagIndex

/-- The records of documents by path, in insertion order. -/
abbrev Index := OrderedMap Text Record

namespace Index

/-- Store a record under its own path. -/
def upsert (ix : Index) (r : Record) : Index := ix.insert r.file r

/-- Drop a document, and say whether it was there. -/
def remove (ix : Index) (file : Text) : Bool × Index := (ix.contains file, ix.erase file)

/-- Swap in a completely rebuilt mapping. Its keys are taken as they are, also where a record names another
file. -/
def replaceAll (_ : Index) (records : Index) : Index := records

/-- Forget all documents. -/
def clear (_ : Index) : Index := OrderedMap.empty

/-- The index of the given records; of several for one document the last counts. -/
def ofRecords (rs : List Record) : Index := rs.foldl upsert OrderedMap.empty

/-- The number of tags that occur in all documents. -/
def occurrenceCount (ix : Index) : Nat := (ix.values.flatMap (·.occurrences)).length

end Index

end HashtagIndex
