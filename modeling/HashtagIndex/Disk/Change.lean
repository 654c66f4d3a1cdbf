import HashtagIndex.Disk.Basic
import HashtagIndex.Text.Utf8

/-!
# `HashtagIndex.Disk.Change` — changes made to a disk from outside

Editors and users create, overwrite, move and delete files while the index looks on. Missing parent
directories are created on the way. A change through a link acts on what the link leads to, except
that deleting and moving act on the link itself.
-/

namespace HashtagIndex.Disk

/-- A disk with the given real directories and nothing else. -/
def ofDirectories (dirs : List Path) (cwd : Path) (home : Text) : Disk :=
  ⟨.ofList (dirs.map (·, .directory)), ∅, cwd, home, ∅⟩

/-- Put an entry at a real path. -/
def put (d : Disk) (p : Path) (e : Entry) : Disk := { d with entries := d.entries.insert p e }

/-- The real path of a path name, as far as links decide it. -/
def target (d : Disk) (name : PathName) : Path := (d.settle (name.within d.cwd).parts).name.parts

/-- The real path of the entry that a path name names, a link at its end not followed. -/
def place (d : Disk) (name : PathName) : Path :=
  let parts := (name.within d.cwd).parts
  match parts.getLast? with
  | none => []
  | some n =>
    if n = ['.', '.'] then d.target name
    else d.target { anchor := ['/'], parts := parts.dropLast } ++ [n]

/-- Create the missing directories from the root to a real path. -/
def makeDirectories (d : Disk) (p : Path) : Disk :=
  (List.range (p.length + 1)).foldl (fun d n =>
    if d.entry? (p.take n) = none then d.put (p.take n) .directory else d) d

/-- Put an entry at a real path whose parent directories may be missing. -/
def create (d : Disk) (p : Path) (e : Entry) : Disk := (d.makeDirectories p.dropLast).put p e

/-- Write a file. -/
def write (d : Disk) (name : PathName) (bytes : List UInt8) : Disk :=
  d.create (d.target name) (.file bytes)

/-- Create a directory. -/
def makeDirectory (d : Disk) (name : PathName) : Disk := d.makeDirectories (d.target name)

/-- Create a link. -/
def makeLink (d : Disk) (name : PathName) (target : Text) : Disk :=
  d.create (d.place name) (.link target)

/-- Delete the entry that a path name names and everything below it. -/
def delete (d : Disk) (name : PathName) : Disk :=
  let p := d.place name
  { d with entries := d.entries.filterKeys fun k => !p.isPrefixOf k }

/-- Move the entry that a path name names, and everything below it, to another name. -/
def move (d : Disk) (source goal : PathName) : Disk :=
  let p := d.place source
  match d.entry? p with
  | none => d
  | some _ =>
    let d' := d.makeDirectories (d.place goal).dropLast
    let q := d'.place goal
    let moved := d'.entries.toList.filter fun e => p.isPrefixOf e.1
    let kept := d'.entries.filterKeys fun k => !p.isPrefixOf k && !q.isPrefixOf k
    { d' with
      entries := moved.foldl (fun m e => m.insert (q ++ e.1.drop p.length) e.2) kept }

/-- Refuse some uses of a path name from now on, or none of them. -/
def refuse (d : Disk) (name : PathName) (what : Refusal) : Disk :=
  { d with refusals := d.refusals.insert (name.within d.cwd).toText what }

/-- The octets of the file that a path name leads to. -/
def contents? (d : Disk) (name : PathName) : Option (List UInt8) :=
  match d.stat? (name.within d.cwd).parts with
  | some (.file bytes) => some bytes
  | _ => none

end HashtagIndex.Disk
