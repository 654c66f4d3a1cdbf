import HashtagIndex.Tag.Index
import HashtagIndex.Tag.Sorting
import HashtagIndex.Text.Order

/-!
# `HashtagIndex.Tag.Tree` — the hierarchy of tags

Every tag of a snapshot contributes the nodes on its path. A node knows how many documents have a
tag at or below it, how many distinct tags there are at or below it, and where exactly its own tag
occurs. The tree is built by grouping: a node receives the sightings at or below it, counts them,
and hands those that go deeper to one child per next segment. A walk over the occurrences that fills
a table of nodes builds the same tree (`Proofs.TableWalk`).

Documents are visited in the order of their keys, so the tree depends on the snapshot as a mapping
and not on the order in which it was filled.

Levels are sorted one inside the other, and only so many calls may be inside each other: no tree is
built for a tag with more than `mostSegments` segments.

## Contents
- `Node`: a node with its children, each under its own name.
- `Sorting.le`: which child may stand before which; equal counts go by name.
- `sightings`, `buildNode`, `buildTree`: the tree of a snapshot.
- `buildTree?`: the same, as long as the tree is not too deep.
-/

namespace HashtagIndex

/-- A node of the hierarchy; the root has an empty name. -/
structure Node where
  name : Text := []
  parentPath : TagPath := []
  /-- The children, each under its name, in sibling order. -/
  children : List (Text × Node) := []
  /-- How many documents have a tag at or below this node. -/
  fileCount : Nat := 0
  /-- How many distinct tags there are at or below this node. -/
  tagCount : Nat := 0
  /-- Where the tag of this node itself occurs. -/
  locations : List Location := []
deriving Repr, Inhabited

/-- The path of a node. A node without a name stands for its parent path. -/
def Node.fullPath (n : Node) : TagPath :=
  if n.name = [] then n.parentPath else n.parentPath ++ [n.name]

/-- A tag seen in a document, as far as a node is concerned: the segments still below the node. -/
structure Sighting where
  file : Text
  below : TagPath
  range : Range
deriving Repr, DecidableEq

/-- The sightings of one document. -/
def Record.sightings (key : Text) (r : Record) : List Sighting :=
  r.occurrences.map fun o => ⟨key, o.path, o.range⟩

/-- All sightings of a snapshot, by key and then by position in the record. -/
def sightings (s : Index) : List Sighting :=
  (Text.sort s.keys).flatMap fun k => ((s.get? k).map (·.sightings k)).getD []

/-- The sightings that continue with a segment, seen from the node of that segment. -/
def descend (segment : Text) (seen : List Sighting) : List Sighting :=
  seen.filterMap fun s =>
    match s.below with
    | [] => none
    | head :: rest => if head = segment then some { s with below := rest } else none

/-- The segments with which sightings continue, each once. -/
def nextSegments (seen : List Sighting) : List Text :=
  (seen.filterMap (·.below.head?)).eraseDups

/-- Whether one child may stand before another. -/
def Sorting.le (s : Sorting) (a b : Text × Node) : Bool :=
  let byCount (m n : Nat) : Bool :=
    match s.order with
    | .asc => m < n || (m == n && Text.le a.1 b.1)
    | .desc => n < m || (m == n && Text.le a.1 b.1)
  match s.key with
  | .name =>
    match s.order with
    | .asc => Text.le a.1 b.1
    | .desc => Text.le b.1 a.1
  | .countFiles => byCount a.2.fileCount b.2.fileCount
  | .countTags => byCount a.2.tagCount b.2.tagCount

/-- The node at `path` that has seen the given tags at or below it, down to `depth` levels. -/
def buildNode (sorting : Sorting) (depth : Nat) (path : TagPath) (seen : List Sighting) : Node :=
  { name := path.getLast?.getD []
    parentPath := path.dropLast
    children :=
      match depth with
      | 0 => []
      | d + 1 =>
        ((nextSegments seen).map fun s =>
          (s, buildNode sorting d (path ++ [s]) (descend s seen))).mergeSort sorting.le
    fileCount := (seen.map (·.file)).eraseDups.length
    tagCount := (seen.map (·.below)).eraseDups.length
    locations := (seen.filter (·.below = [])).map fun s => ⟨s.file, s.range⟩ }

/-- The greatest number of segments below the node. -/
def depthOf (seen : List Sighting) : Nat := (seen.map (·.below.length)).foldl max 0

/-- The sorted hierarchy of the tags of a snapshot. -/
def buildTree (s : Index) (sorting : Sorting) : Node :=
  let seen := sightings s
  buildNode sorting (depthOf seen) [] seen

/-- The most segments of a tag in a hierarchy that is built. Of a thousand calls inside each other, a
few are those that asked for the hierarchy. -/
def mostSegments : Nat := 995

/-- The sorted hierarchy of the tags of a snapshot, unless one of them has too many segments. -/
def buildTree? (s : Index) (sorting : Sorting) : Option Node :=
  if depthOf (sightings s) ≤ mostSegments then some (buildTree s sorting) else none

end HashtagIndex
