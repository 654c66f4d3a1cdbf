import HashtagIndex.Tag.Basic

/-!
# `HashtagIndex.Disk.Path` — path names and real paths

A *path name* is what someone wrote: an optional anchor and the parts behind it. Empty parts and
single dots carry no meaning and are dropped on reading; two dots are kept, because what they mean
depends on links. Exactly two leading slashes are an anchor of their own.

A *path* is the list of components that leads from the root directory to a place.
-/

namespace HashtagIndex

/-- Components from the root directory down. -/
abbrev Path := List Text

/-- The text of a path. -/
def Path.toText (p : Path) : Text := '/' :: joinSegments p

/-- The parts of a written path, without those that carry no meaning. -/
def pathParts (t : Text) : List Text := (t.splitOn '/').filter fun p => p ≠ [] ∧ p ≠ ['.']

/-- A written path: its anchor, which is empty for a relative one, and its parts. -/
structure PathName where
  anchor : Text
  parts : List Text
deriving Repr, DecidableEq

namespace PathName

/-- Read a path name. -/
def ofText (t : Text) : PathName :=
  let slashes := (t.takeWhile (· = '/')).length
  { anchor := if slashes = 0 then [] else if slashes = 2 then ['/', '/'] else ['/']
    parts := pathParts t }

/-- The name of a real path. -/
def ofPath (p : Path) : PathName := ⟨['/'], p⟩

/-- Write a path name. -/
def toText (p : PathName) : Text :=
  if p.anchor = [] ∧ p.parts = [] then ['.'] else p.anchor ++ joinSegments p.parts

/-- Whether a path name is anchored. -/
def isAbsolute (p : PathName) : Bool := p.anchor ≠ []

/-- The anchored path name that `p` stands for in the directory `base`. -/
def within (base : Path) (p : PathName) : PathName :=
  if p.isAbsolute then p else ⟨['/'], base ++ p.parts⟩

/-- The parts, the anchor counting as the first. -/
def allParts (p : PathName) : List Text :=
  if p.anchor = [] then p.parts else p.anchor :: p.parts

/-- The parts below a directory, if the path name begins with that directory. -/
def below? (base : Path) (p : PathName) : Option (List Text) :=
  if p.anchor = ['/'] ∧ base.isPrefixOf p.parts then some (p.parts.drop base.length) else none

/-- The last part. -/
def name (p : PathName) : Text := p.parts.getLast?.getD []

end PathName

/-- The extension of a file name: from its last dot on, unless that dot is the first or the last
character. -/
def extensionOf (name : Text) : Text :=
  let stem := name.beforeLast '.'
  if '.' ∈ name ∧ stem ≠ [] ∧ stem.length + 1 < name.length then name.drop stem.length else []

/-- Apply two dots to what stands in front of them, without looking at links. -/
def foldDots (parts : List Text) : Path :=
  parts.foldl (fun p n => if n = ['.', '.'] then p.dropLast else p ++ [n]) []

/-- What a name means behind another one: if it begins with a slash, it stands alone. -/
def joinNames (front back : Text) : Text :=
  if back.head? = some '/' then back
  else if front.getLast? = some '/' then front ++ back
  else front ++ '/' :: back

/-- The length of a text in UTF-8. -/
def Text.octetCount (t : Text) : Nat := t.foldl (fun n c => n + c.utf8Size) 0

/-- The most octets of one component. -/
def mostOctets : Nat := 255

/-- The most octets of a whole path. -/
def mostPathOctets : Nat := 4095

/-- Why a path cannot be used at all. -/
inductive PathFault where
  /-- The path holds a null character. -/
  | nulByte
  /-- The path begins in a home directory that is not known. -/
  | noHome
  /-- The path leads through a link that leads back to itself. -/
  | linkLoop (path : Text)
  /-- A name on the way is too long to be looked up. -/
  | nameTooLong (path : Text)
  /-- A directory on the way may not be searched. -/
  | notPermitted (path : Text)
  /-- A file extension cannot be searched for. -/
  | badPattern
deriving Repr, DecidableEq

example : PathName.ofText ['/', '/', 'a', '/', '.', '/', 'b', '/'] =
    ⟨['/', '/'], [['a'], ['b']]⟩ := by decide
example : extensionOf ['.', '.', 'm', 'd'] = ['.', 'm', 'd'] ∧ extensionOf ['.', 'm', 'd'] = [] ∧
    extensionOf ['a', '.'] = [] := by decide

end HashtagIndex
