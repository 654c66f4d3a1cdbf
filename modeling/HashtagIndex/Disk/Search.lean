import HashtagIndex.Disk.Basic
import HashtagIndex.Disk.Wildcard

/-!
# `HashtagIndex.Disk.Search` — what a search pattern finds

A search starts in a directory and takes the parts of a pattern one by one. Only directories are
entered for a part that is not the last one, and links to directories are, except under the part
that stands for any chain of directories; two such parts in a row say no more than one. Results are
spelled as they were reached, with links and two dots left as they are.

A search looks at places in two ways. To go on from a place it lists the directory there, and what
cannot be listed is passed over: a name that cannot be opened, for whatever reason, is as good as
that of an empty directory. To see whether a place is there, or is a directory, it may have to look
it up, and a name that is too long to be looked up is a fault then; what may not be looked up is
again passed over. Whoever takes the results looks them up anew.
-/

namespace HashtagIndex.Disk

/-- The names found in the directory that a path name leads to; none if it cannot be opened. -/
def namesIn (d : Disk) (parts : List Text) : List Text :=
  match d.locate? parts with
  | .error _ => []
  | .ok p => d.childNames p

/-- The directories at and below a path name, spelled from it, links not entered; none if it cannot
be opened. -/
def chainsFrom (d : Disk) (parts : List Text) : List (List Text) :=
  match d.locate? parts with
  | .error _ => []
  | .ok p => (d.directoriesBelow p).map (parts ++ ·)

/-- The outcome of a test in a search: what may not be looked up is passed over. -/
def passOver : Except PathFault Bool → Except PathFault Bool
  | .error (.notPermitted _) => .ok false
  | r => r

/-- Whether a name found in a directory is that of a directory. The listing says so, except of links,
which are looked up. -/
def leadsOn (d : Disk) (place : List Text) (name : Text) : Except PathFault Bool :=
  match d.locate? place with
  | .error _ => .ok false
  | .ok p =>
    match d.entry? (p ++ [name]) with
    | some .directory => .ok true
    | some (.link _) => passOver (d.isDirectory (place ++ [name]))
    | _ => .ok false

/-- Of the given names, those that a test accepts. A test that fails ends the choice. -/
def chooseNames (test : Text → Except PathFault Bool) : List Text → Except PathFault (List Text)
  | [] => .ok []
  | n :: rest => do
    let chosen ← test n
    let others ← chooseNames test rest
    .ok (if chosen then n :: others else others)

/-- Search from each of several places. -/
def fromAll (go : List Text → Except PathFault (List (List Text))) :
    List (List Text) → Except PathFault (List (List Text))
  | [] => .ok []
  | place :: rest => do
    let here ← go place
    let others ← fromAll go rest
    .ok (here ++ others)

/-- What the parts of a pattern find from a place on. -/
def select (d : Disk) : List SearchPart → List Text → Except PathFault (List (List Text))
  | [], place => .ok [place]
  | .here :: _, place => .ok [place]
  | .deep :: .deep :: rest, place => d.select (.deep :: rest) place
  | .deep :: rest, place => fromAll (d.select rest) (d.chainsFrom place)
  | .named n :: rest, place => do
    let next := place ++ [n]
    let found ← passOver (if rest.isEmpty then d.exists? next else d.isDirectory next)
    if found then d.select rest next else .ok []
  | .fitting w :: rest, place => do
    let names ← chooseNames
      (fun n => if rest.isEmpty then .ok true else d.leadsOn place n) (d.namesIn place)
    fromAll (d.select rest) ((names.filter w.fits).map fun n => place ++ [n])

/-- What a pattern finds anywhere below a directory. -/
def search (d : Disk) (base : Path) (pattern : Text) : Except PathFault (List (List Text)) := do
  let parts ← searchParts pattern
  let found ← d.isDirectory base
  if found then d.select (.deep :: parts) base else .ok []

end HashtagIndex.Disk
