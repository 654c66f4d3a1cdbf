import HashtagIndex.Text.Basic

/-!
# `HashtagIndex.Text.Lines` — the two ways to cut a document into lines

A document on disk may end its lines with a line feed, a carriage return, or both. Two views of it
are used. A *reader* sees every break as one line feed and cuts at line feeds. An *editor* keeps the
break of each line, so that editing one line leaves every other character as it was.

## Contents
- `Text.unifyBreaks` and `Text.lines`: the reader's view.
- `RawLine`, `rawLines` and `renderLines`: the editor's view; the last line has no break.
- `renderLines_rawLines`: the editor's view loses nothing.
-/

namespace HashtagIndex

/-- Write every line break as one line feed. -/
def Text.unifyBreaks : Text → Text
  | [] => []
  | '\r' :: '\n' :: r => '\n' :: unifyBreaks r
  | c :: r => (if c = '\r' then '\n' else c) :: unifyBreaks r

/-- The lines of a text whose breaks are line feeds. -/
def Text.lines (t : Text) : List Text := t.splitOn '\n'

/-- How a line ends. -/
inductive LineBreak where
  | none
  | lf
  | cr
  | crlf
deriving Repr, DecidableEq

/-- The characters of a line break. -/
def LineBreak.chars : LineBreak → Text
  | .none => []
  | .lf => ['\n']
  | .cr => ['\r']
  | .crlf => ['\r', '\n']

/-- A line as it stands in a document, with its own break. -/
structure RawLine where
  text : Text
  ending : LineBreak
deriving Repr, DecidableEq

/-- The characters of a line, its break included. -/
def RawLine.chars (l : RawLine) : Text := l.text ++ l.ending.chars

/-- Put one character in front of the first line. -/
def prependChar (c : Char) : List RawLine → List RawLine
  | [] => [⟨[c], .none⟩]
  | l :: ls => { l with text := c :: l.text } :: ls

/-- The lines of a document, each with its break; the last one has none. -/
def rawLines : Text → List RawLine
  | [] => [⟨[], .none⟩]
  | '\r' :: '\n' :: r => ⟨[], .crlf⟩ :: rawLines r
  | c :: r =>
    if c = '\r' then ⟨[], .cr⟩ :: rawLines r
    else if c = '\n' then ⟨[], .lf⟩ :: rawLines r
    else prependChar c (rawLines r)

/-- The document with the given lines. -/
def renderLines (ls : List RawLine) : Text := ls.flatMap RawLine.chars

theorem renderLines_prependChar (c : Char) (ls : List RawLine) :
    renderLines (prependChar c ls) = c :: renderLines ls := by
  cases ls <;> simp [renderLines, prependChar, RawLine.chars, LineBreak.chars]

/-- Cutting a document into lines loses nothing. -/
theorem renderLines_rawLines (t : Text) : renderLines (rawLines t) = t := by
  fun_induction rawLines t with
  | case1 => rfl
  | case2 r ih => simpa [renderLines, RawLine.chars, LineBreak.chars] using ih
  | case3 r _ ih => simpa [renderLines, RawLine.chars, LineBreak.chars] using ih
  | case4 r _ _ ih => simpa [renderLines, RawLine.chars, LineBreak.chars] using ih
  | case5 c r _ _ _ ih => rw [renderLines_prependChar, ih]

end HashtagIndex
