/-!
# `HashtagIndex.Text.Basic` — text as a list of characters

Tags, lines, documents and paths are all lists of characters: an offset counts characters, order is
the order of code points, and recursion on text is recursion on a list. `String` appears only where
a message or a transport value is written.

## Contents
- `inRanges`: membership in a table of code point ranges.
- `Text.slice` and `Text.splice`: reading and replacing the characters between two offsets.
- `Text.beforeLast`: what stands in front of the last separator.
-/

namespace HashtagIndex

/-- Text is a list of characters. -/
abbrev Text := List Char

/-- Whether a code point lies in one of the inclusive ranges of a table. -/
def inRanges (ranges : List (Nat × Nat)) (n : Nat) : Bool :=
  ranges.any fun r => r.1 ≤ n && n ≤ r.2

namespace Text

/-- Text shown as a string of a message. -/
def toString (t : Text) : String := String.ofList t

/-- The characters at the offsets `start ≤ i < stop`. -/
def slice (t : Text) (start stop : Nat) : Text := (t.take stop).drop start

/-- Replace the characters at the offsets `start ≤ i < stop` by `piece`. -/
def splice (t : Text) (start stop : Nat) (piece : Text) : Text :=
  t.take start ++ piece ++ t.drop stop

/-- What stands in front of the last `sep`; nothing when there is no `sep`. -/
def beforeLast (sep : Char) (t : Text) : Text :=
  ((t.reverse.dropWhile (· != sep)).drop 1).reverse

/-- A slice is followed by what stands behind it. -/
theorem slice_append_drop (t : Text) {i j : Nat} (hij : i ≤ j) : t.slice i j ++ t.drop j = t.drop i := by
  unfold slice
  rw [List.drop_take]
  conv => rhs; rw [← List.take_append_drop (j - i) (t.drop i)]
  rw [List.drop_drop, show i + (j - i) = j by omega]

/-- A slice that is put back changes nothing. -/
theorem splice_slice (t : Text) {i j : Nat} (hij : i ≤ j) : t.splice i j (t.slice i j) = t := by
  rw [splice, List.append_assoc, slice_append_drop t hij, List.take_append_drop]

end Text

end HashtagIndex
