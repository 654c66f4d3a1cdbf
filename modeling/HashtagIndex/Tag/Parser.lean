import HashtagIndex.Tag.Basic
import HashtagIndex.Text.Blank
import HashtagIndex.Text.Lines

/-!
# `HashtagIndex.Tag.Parser` — finding tags in text

A tag begins at every hash sign that a segment character follows, and reaches as far as it can:
over segment characters, and over a slash when a segment character follows that slash. No tag
contains a hash sign, so looking at each character in turn finds all tags and finds them in order.

## Contents
- `tagBody`: the longest tag text at the head of a text.
- `tagsInLine`, `parseTags`: the tags of a line and of a document.
- `splitTag`: the segments of a tag that someone typed.
-/

namespace HashtagIndex

/-- Whether a text begins with a segment character. -/
def startsSegment : Text → Bool
  | [] => false
  | c :: _ => isSegmentChar c

/-- The longest prefix of segment characters and of slashes that a segment character follows. -/
def tagBody : Text → Text
  | [] => []
  | c :: r => if isSegmentChar c || (c == '/' && startsSegment r) then c :: tagBody r else []

/-- The tags of one line from the given column on. -/
def tagsInLine (file : Text) (line column : Nat) : Text → List Occurrence
  | [] => []
  | c :: r =>
    if c = '#' ∧ startsSegment r then
      let body := tagBody r
      { path := body.splitOn '/'
        file
        range := ⟨⟨line, column⟩, ⟨line, column + 1 + body.length⟩⟩ }
        :: tagsInLine file line (column + 1) r
    else tagsInLine file line (column + 1) r

/-- The tags of consecutive lines, the first of which has the given number. -/
def tagsInLines (file : Text) (line : Nat) : List Text → List Occurrence
  | [] => []
  | l :: ls => tagsInLine file line 0 l ++ tagsInLines file (line + 1) ls

/-- The tags of a document in source order. -/
def parseTags (text file : Text) : List Occurrence := tagsInLines file 0 text.lines

/-- Text without one leading hash sign. -/
def dropHash : Text → Text
  | '#' :: r => r
  | t => t

/-- The segments of a typed tag: blanks around it, one hash sign in front, and empty segments do
not count. -/
def splitTag (tag : Text) : TagPath :=
  ((dropHash tag.trim).splitOn '/').filter (· ≠ [])

end HashtagIndex
