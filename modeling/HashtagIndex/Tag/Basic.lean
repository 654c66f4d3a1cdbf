import HashtagIndex.Text.Word

/-!
# `HashtagIndex.Tag.Basic` — tags, where they occur, and how they are written

A tag is a path of segments. In a document it is written as a hash sign followed by the segments
with a slash between them.

## Contents
- `Position`, `Range`: places in a document, counted from zero, the end exclusive.
- `Occurrence`, `Record`, `Location`: a tag in a document, the tags of one document, a place.
- `isSegmentChar`, `isSegment`: what a segment is made of.
- `writtenTag`: the text of a tag in a document.
-/

namespace HashtagIndex

/-- The segments of a tag, outermost first. -/
abbrev TagPath := List Text

/-- A line and a character within it. -/
structure Position where
  line : Nat
  character : Nat
deriving Repr, DecidableEq

/-- A span of a document: the hash sign is included, the end is not. -/
structure Range where
  start : Position
  stop : Position
deriving Repr, DecidableEq

/-- One appearance of a tag in a document. -/
structure Occurrence where
  path : TagPath
  file : Text
  range : Range
deriving Repr, DecidableEq

/-- All appearances of tags in one document. -/
structure Record where
  file : Text
  occurrences : List Occurrence
deriving Repr, DecidableEq

/-- Where a tag appears. -/
structure Location where
  file : Text
  range : Range
deriving Repr, DecidableEq

/-- Whether a character may stand in a segment. -/
def isSegmentChar (c : Char) : Bool := isWordChar c || c == '-'

/-- Whether a text is one complete segment. -/
def isSegment (t : Text) : Bool := !t.isEmpty && t.all isSegmentChar

/-- Segments with a slash between them. -/
def joinSegments (p : TagPath) : Text := List.intercalate ['/'] p

/-- A tag as documents write it. -/
def writtenTag (p : TagPath) : Text := '#' :: joinSegments p

/-- The path with its last segment replaced. -/
def renamedPath (p : TagPath) (name : Text) : TagPath := p.dropLast ++ [name]

end HashtagIndex
