import HashtagIndex.Collection.OrderedMap
import HashtagIndex.Disk.Path

/-!
# `HashtagIndex.Disk.Basic` — a file system as a value

A disk maps real paths to entries: directories, files with their octets, and links with their
targets. The root directory is always there. Besides, a disk knows the directory that relative names
start from, the home directories, and what names may not be used for.

Two readings of a path name are kept apart. `Disk.walk?` opens: every component has to exist and to
have a name that is not too long, every component but the last has to be a directory that may be
searched, and no more than forty links are followed on the whole way. `Disk.follow` resolves:
components that do not exist are kept, and a link that is met again while its own target is being
resolved stops the resolution. Resolving asks for no permission.

## Contents
- `Entry`, `Disk`, `Disk.entry?`, `Disk.refuses`, `Disk.barred`.
- `Disk.walk?`, `Disk.locate?`, `Disk.stat?`: opening.
- `Disk.look`, `Disk.exists?`, `Disk.isDirectory`, `Disk.isFile`: what opening would find.
- `Disk.follow`, `Disk.resolve`, `Disk.canonical`: resolving.
- `Disk.childNames`, `Disk.directoriesBelow`: listing.
-/

namespace HashtagIndex

/-- What stands at a path. -/
inductive Entry where
  | directory
  | file (bytes : List UInt8)
  | link (target : Text)
deriving Repr, DecidableEq

/-- What a path name may not be used for. -/
structure Refusal where
  /-- It is not opened to be read. -/
  reading : Bool := false
  /-- It is not opened to be written. -/
  writing : Bool := false
  /-- Nothing is looked up in the directory of this name. -/
  searching : Bool := false
  /-- How many octets can be written through it before writing breaks off, if it does. -/
  room : Option Nat := none
deriving Repr, DecidableEq

/-- A file system. -/
structure Disk where
  /-- What stands at each real path; the root directory is not listed. -/
  entries : OrderedMap Path Entry
  /-- What path names may not be used for. -/
  refusals : OrderedMap Text Refusal
  /-- The directory that relative path names start from. -/
  cwd : Path
  /-- The directory that a leading tilde stands for. -/
  home : Text
  /-- The directories that a leading tilde stands for when someone's name follows it. -/
  homes : OrderedMap Text Text
deriving DecidableEq, Inhabited

/-- Why an existing path name cannot be opened. -/
inductive OpenError where
  | notFound
  | permissionDenied
  | notDirectory
  | isDirectory
  | nameTooLong
  | tooManyLinks
deriving Repr, DecidableEq

/-- The number and the wording of an error, as systems report it. -/
def OpenError.describe : OpenError → Nat × String
  | .notFound => (2, "No such file or directory")
  | .permissionDenied => (13, "Permission denied")
  | .notDirectory => (20, "Not a directory")
  | .isDirectory => (21, "Is a directory")
  | .nameTooLong => (36, "File name too long")
  | .tooManyLinks => (40, "Too many levels of symbolic links")

namespace Disk

/-- What stands at a real path. -/
def entry? (d : Disk) (p : Path) : Option Entry :=
  if p = [] then some .directory else d.entries.get? p

/-- Whether a use of a path name is refused. -/
def refuses (d : Disk) (name : PathName) (which : Refusal → Bool) : Bool :=
  ((d.refusals.get? (name.within d.cwd).toText).map which).getD false

/-- Whether a real directory may not be searched. -/
def barred (d : Disk) (p : Path) : Bool := d.refuses (.ofPath p) (·.searching)

/-- Where a link in the directory `dir` starts to be read. -/
def linkBase (dir : Path) (target : Text) : Path := if target.head? = some '/' then [] else dir

/-! ## Opening -/

/-- Whether a target ends with a slash or a dot, which asks for a directory. -/
def asksDirectory (target : Text) : Bool :=
  match (target.splitOn '/').getLast? with
  | some last => last = [] || last = ['.']
  | none => false

/-- The components of a link's target; a dot behind them asks for a directory. -/
def targetParts (target : Text) : List Text :=
  pathParts target ++ if asksDirectory target then [['.']] else []

/-- How far components were taken: all of them, or up to a link, which is read in `dir`, with the
components behind it. -/
inductive Stage where
  | arrived (p : Path)
  | atLink (dir : Path) (target : Text) (rest : List Text)
deriving Repr, DecidableEq

/-- Take components from an existing place up to the first link. -/
def advance (d : Disk) (place : Path) : List Text → Except OpenError Stage
  | [] => .ok (.arrived place)
  | name :: rest =>
    if d.entry? place ≠ some .directory then .error .notDirectory
    else if d.barred place then .error .permissionDenied
    else if mostOctets < name.octetCount then .error .nameTooLong
    else if name = ['.'] then d.advance place rest
    else if name = ['.', '.'] then d.advance place.dropLast rest
    else
      match d.entry? (place ++ [name]) with
      | none => .error .notFound
      | some (.link target) => .ok (.atLink place target rest)
      | some _ => d.advance (place ++ [name]) rest

/-- Take components from an existing place, following at most `links` links. -/
def walk? (d : Disk) (links : Nat) (place : Path) (names : List Text) : Except OpenError Path :=
  match d.advance place names with
  | .error e => .error e
  | .ok (.arrived p) => .ok p
  | .ok (.atLink dir target rest) =>
    match links with
    | 0 => .error .tooManyLinks
    | n + 1 => d.walk? n (linkBase dir target) (targetParts target ++ rest)

/-- The real path that opening a path name leads to. -/
def locate? (d : Disk) (parts : List Text) : Except OpenError Path :=
  if mostPathOctets < (Path.toText parts).octetCount then .error .nameTooLong
  else d.walk? 40 [] parts

/-- What opening a path name finds. -/
def stat? (d : Disk) (parts : List Text) : Option Entry :=
  match d.locate? parts with
  | .error _ => none
  | .ok p => d.entry? p

/-- What opening a path name would find, if anything. It is a fault that a name is too long to be
looked up, or that a directory on the way may not be searched. -/
def look (d : Disk) (parts : List Text) : Except PathFault (Option Entry) :=
  match d.locate? parts with
  | .ok p => .ok (d.entry? p)
  | .error .nameTooLong => .error (.nameTooLong (Path.toText parts))
  | .error .permissionDenied => .error (.notPermitted (Path.toText parts))
  | .error _ => .ok none

/-- Whether a path name leads to something. -/
def exists? (d : Disk) (parts : List Text) : Except PathFault Bool := Option.isSome <$> d.look parts

/-- Whether a path name leads to a directory. -/
def isDirectory (d : Disk) (parts : List Text) : Except PathFault Bool :=
  (fun e => decide (e = some .directory)) <$> d.look parts

/-- Whether a path name leads to a file. -/
def isFile (d : Disk) (parts : List Text) : Except PathFault Bool :=
  (fun e => match e with
    | some (Entry.file _) => true
    | _ => false) <$> d.look parts

/-! ## Resolving -/

/-- How far resolving got: to a path, or to a link that was met again, and then what is written
there, with what was still to come behind it. -/
inductive Resolution where
  | settled (p : Path)
  | looping (written : Text)
deriving Repr, DecidableEq

/-- The path name that resolving leads to; where a loop stopped it, the rest is taken as written. -/
def Resolution.name : Resolution → PathName
  | .settled p => .ofPath p
  | .looping written =>
    let n := PathName.ofText written
    { n with parts := foldDots n.parts }

/-- The links met so far: where each of them leads, or that its target is still being resolved. -/
abbrev MetLinks := OrderedMap Path (Option Path)

/-- Take components; `enter` resolves the target of a link that was not met before. Empty components
carry no meaning, except that what remains behind a loop may begin with one. -/
def followAll (d : Disk) (enter : MetLinks → Path → List Text → MetLinks × Resolution)
    (met : MetLinks) (place : Path) : List Text → MetLinks × Resolution
  | [] => (met, .settled place)
  | name :: rest =>
    if name = [] ∨ name = ['.'] then d.followAll enter met place rest
    else if name = ['.', '.'] then d.followAll enter met place.dropLast rest
    else
      let next := place ++ [name]
      match d.entry? next with
      | some (.link target) =>
        match met.get? next with
        | some (some p) => d.followAll enter met p rest
        | some none => (met, .looping (joinNames (Path.toText next) (joinSegments rest)))
        | none =>
          match enter (met.insert next none) (linkBase place target) (target.splitOn '/') with
          | (met', .looping written) => (met', .looping (joinNames written (joinSegments rest)))
          | (met', .settled p) => d.followAll enter (met'.insert next (some p)) p rest
      | _ => d.followAll enter met next rest

/-- Resolve components from a place. Each level of `depth` is one link inside another; a disk has no
more levels than links. -/
def follow (d : Disk) : (depth : Nat) → MetLinks → Path → List Text → MetLinks × Resolution
  | 0, met, place, names => (met, .looping (joinNames (Path.toText place) (joinSegments names)))
  | depth + 1, met, place, names => d.followAll (d.follow depth) met place names

/-- What resolving anchored parts leads to. -/
def settle (d : Disk) (parts : List Text) : Resolution :=
  (d.follow (d.entries.size + 2) .empty [] parts).2

/-- The name of the real path of anchored parts. Where a loop of links stops the resolution, it is a
fault if the result cannot be opened because of the loop. -/
def resolve (d : Disk) (parts : List Text) : Except PathFault PathName :=
  if parts.any (·.contains '\x00') then .error .nulByte
  else
    match d.settle parts with
    | .settled p => .ok (.ofPath p)
    | .looping written =>
      let q := (Resolution.looping written).name
      match d.locate? q.parts with
      | .error .tooManyLinks => .error (.linkLoop q.toText)
      | _ => .ok q

/-- The home directory of someone; no name stands for whoever is asking. -/
def homeOf? (d : Disk) (owner : Text) : Option Text :=
  if owner = [] then some d.home else d.homes.get? owner

/-- The path name with its leading tilde, and the name of someone behind it, replaced by a home
directory. -/
def expandHome (d : Disk) (name : PathName) : Except PathFault PathName :=
  match name.isAbsolute, name.parts with
  | false, ('~' :: owner) :: rest =>
    if '\x00' ∈ owner then .error .nulByte
    else
      match d.homeOf? owner with
      | none => .error .noHome
      | some written =>
        let trimmed := (written.reverse.dropWhile (· = '/')).reverse
        let home := PathName.ofText (if trimmed = [] then ['/'] else trimmed)
        if trimmed.head? = some '~' then .error .noHome
        else .ok { home with parts := home.parts ++ rest }
  | _, _ => .ok name

/-- The name of the real path of a written path, relative ones starting from `base`. -/
def canonical (d : Disk) (base : Path) (written : Text) : Except PathFault PathName := do
  let name ← d.expandHome (PathName.ofText written)
  d.resolve (name.within base).parts

/-! ## Listing -/

/-- The names in a real directory. -/
def childNames (d : Disk) (p : Path) : List Text :=
  d.entries.keys.filterMap fun k => if k.dropLast = p then k.getLast? else none

/-- The directories at and below a real directory, as paths from it, links not entered. -/
def directoriesBelow (d : Disk) (p : Path) : List (List Text) :=
  [] :: (d.entries.toList.filterMap fun e =>
    if e.2 = .directory ∧ p.isPrefixOf e.1 ∧ e.1 ≠ p then some (e.1.drop p.length) else none)

end Disk

end HashtagIndex
