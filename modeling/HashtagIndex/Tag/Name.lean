import HashtagIndex.Tag.Basic
import HashtagIndex.Text.Blank

/-!
# `HashtagIndex.Tag.Name` — names a tag may be given

A tag is renamed by replacing its last segment, so a new name has to be one segment. A name that is
not is refused with the first rule it breaks: it is empty, it holds a blank, it holds a reserved
character, or it holds some other character that no segment has.
-/

namespace HashtagIndex

/-- Characters that never stand in a segment and are reported as special. -/
def reservedChars : List Char :=
  ['!', '@', '#', '$', '%', '^', '&', '*', '(', ')', '=', '+', ',', '[', '\x7b', ']', '\x7d', ';',
  ':', '\'', '"', '?', '>', '<']

/-- Why a name, or the tag to be renamed, is refused. -/
inductive NameFault where
  | emptyName
  | blank (name : Text)
  | special (name : Text)
  | notSegment (name : Text)
  | emptyTag (tag : Text)
deriving Repr, DecidableEq

/-- The wording of a refusal. -/
def NameFault.message : NameFault → String
  | .emptyName => "Tag name cannot be empty"
  | .blank _ => "Tag name cannot contain spaces"
  | .special _ => "Tag name cannot contain special characters"
  | .notSegment _ => "Tag name may only contain letters, digits, '_' and '-'"
  | .emptyTag _ => "Tag to rename cannot be empty"

/-- Accept a name that is one segment, or say which rule it breaks first. -/
def checkName (name : Text) : Except NameFault Text :=
  if name = [] then .error .emptyName
  else if name.any isBlank then .error (.blank name)
  else if name.any (reservedChars.contains ·) then .error (.special name)
  else if !isSegment name then .error (.notSegment name)
  else .ok name

end HashtagIndex
