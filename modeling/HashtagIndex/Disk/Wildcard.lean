import HashtagIndex.Disk.Path

/-!
# `HashtagIndex.Disk.Wildcard` — patterns for names

A star stands for any characters, a question mark for one, and brackets for one of the characters
listed in them. A closing bracket at the beginning of the list is an ordinary member, and an opening
bracket that nothing closes is an ordinary character.

Inside brackets a hyphen between two members makes a range. A hyphen is an ordinary member when it
is the first or the last one, or when it follows the end of another range. A range whose ends are
in the wrong order is dropped together with its ends. If an exclamation mark comes first in what is
left, it turns the list around, and a hyphen right behind it is an ordinary member.

Whether a name fits is decided for all remainders of the pattern at once, from the end of the name
to its beginning, so that stars cost no backtracking.

A search pattern is a list of such patterns with slashes between them, in which two stars alone
stand for any chain of directories.
-/

namespace HashtagIndex

/-- A member of a bracket list. -/
inductive ClassItem where
  | one (c : Char)
  | span (low high : Char)
deriving Repr, DecidableEq

/-- Whether a member covers a character. -/
def ClassItem.covers (c : Char) : ClassItem → Bool
  | .one x => x == c
  | .span low high => low ≤ c && c ≤ high

/-- A piece of a pattern for names. -/
inductive Piece where
  | star
  | any
  | char (c : Char)
  | oneOf (negated : Bool) (items : List ClassItem)
deriving Repr, DecidableEq

/-- A pattern for names. -/
abbrev Wildcard := List Piece

/-! ## Bracket lists -/

/-- The length of the bracket list at the head of a text, if a bracket closes it. -/
def bracketLength (t : Text) : Nat :=
  let bang := if t.head? = some '!' then 1 else 0
  let close := if (t.drop bang).head? = some ']' then 1 else 0
  bang + close + ((t.drop (bang + close)).takeWhile (· ≠ ']')).length

/-- What stands between brackets, given what follows the opening one, and what follows the closing
one; `none` when nothing closes the list. -/
def bracketList? (t : Text) : Option (Text × Text) :=
  if bracketLength t < t.length then
    some (t.take (bracketLength t), t.drop (bracketLength t + 1))
  else none

/-- Cut a bracket list at the hyphens that make ranges. The first `least` characters of a chunk are
never such a hyphen. -/
def rangeChunks : (fuel least : Nat) → Text → List Text
  | 0, _, t => [t]
  | fuel + 1, least, t =>
    let n := (t.take least).length + ((t.drop least).takeWhile (· ≠ '-')).length
    match t.drop n with
    | [] => [t]
    | '-' :: [] => [t]
    | _ :: r => t.take n :: rangeChunks fuel 2 r

/-- Join chunks whose range would have its ends in the wrong order, without those ends. -/
def dropEmptyRanges : List Text → List Text
  | [] => []
  | c :: cs =>
    match dropEmptyRanges cs with
    | [] => [c]
    | d :: ds =>
      if d.head?.getD '\x00' < c.getLast?.getD '\x00' then (c.dropLast ++ d.tail) :: ds
      else c :: d :: ds

/-- The members that chunks stand for; `opened` is the end of the range that leads into them. -/
def chunkItems : (opened : Option Char) → List Text → List ClassItem
  | none, [] => []
  | some low, [] => [.one low]
  | opened, c :: cs =>
    let lead : List ClassItem :=
      match opened with
      | none => []
      | some low => [.span low (c.head?.getD low)]
    let body := if opened.isSome then c.tail else c
    match cs with
    | [] => lead ++ body.map .one
    | _ :: _ => lead ++ body.dropLast.map .one ++ chunkItems c.getLast? cs

/-- The members of a list that begins with what the chunks say. A hyphen that nothing stands in front
of is an ordinary member. -/
def listItems : List Text → List ClassItem
  | [] :: c :: cs => .one '-' :: chunkItems none (c :: cs)
  | cs => chunkItems none cs

/-- The piece for a bracket list. -/
def bracketPiece (list : Text) : Piece :=
  let least := if list.head? = some '!' then 2 else 1
  match dropEmptyRanges (rangeChunks list.length least list) with
  | ('!' :: c) :: cs => .oneOf true (listItems (c :: cs))
  | cs => .oneOf false (listItems cs)

/-! ## Patterns for names -/

theorem length_lt_of_bracketList? {t list rest : Text} (h : bracketList? t = some (list, rest)) :
    rest.length < t.length := by
  unfold bracketList? at h
  split at h
  · next hn =>
    cases h
    rw [List.length_drop]; omega
  · cases h

/-- Read a pattern for names. -/
def Wildcard.ofText (t : Text) : Wildcard :=
  match t with
  | [] => []
  | '*' :: r => .star :: ofText r
  | '?' :: r => .any :: ofText r
  | c :: r =>
    if c = '[' then
      match h : bracketList? r with
      | none => .char '[' :: ofText r
      | some (list, rest) =>
        have : rest.length < r.length := length_lt_of_bracketList? h
        bracketPiece list :: ofText rest
    else .char c :: ofText r
termination_by t.length

/-- Whether a piece other than a star covers a character. -/
def Piece.covers (c : Char) : Piece → Bool
  | .star => true
  | .any => true
  | .char x => x == c
  | .oneOf negated items => items.any (·.covers c) != negated

namespace Wildcard

/-- For each remainder of a pattern, the whole one first, whether it fits the empty name. -/
def fitsEmpty : Wildcard → List Bool
  | [] => [true]
  | p :: ps =>
    let shorter := fitsEmpty ps
    (p == .star && shorter.headD false) :: shorter

/-- For each remainder of a pattern, whether it fits a name, given its first character and for each
remainder whether it fits the rest of the name. -/
def fitsBefore (c : Char) : Wildcard → List Bool → List Bool
  | [], _ => [false]
  | p :: ps, fitting =>
    let shorter := fitsBefore c ps fitting.tail
    (if p = .star then shorter.headD false || fitting.headD false
      else p.covers c && fitting.tail.headD false) :: shorter

/-- For each remainder of a pattern, whether it fits a name. -/
def fittingRemainders (w : Wildcard) (t : Text) : List Bool :=
  t.foldr (fun c fitting => fitsBefore c w fitting) (fitsEmpty w)

/-- Whether a whole name fits a pattern. -/
def fits (w : Wildcard) (t : Text) : Bool := (w.fittingRemainders t).headD false

theorem tail_fitsBefore (c : Char) (p : Piece) (ps : Wildcard) (bs : List Bool) :
    (fitsBefore c (p :: ps) bs).tail = fitsBefore c ps bs.tail := rfl

theorem tail_fittingRemainders (p : Piece) (ps : Wildcard) (t : Text) :
    (fittingRemainders (p :: ps) t).tail = fittingRemainders ps t := by
  induction t with
  | nil => rfl
  | cons c r ih =>
    show (fitsBefore c (p :: ps) (fittingRemainders (p :: ps) r)).tail = _
    rw [tail_fitsBefore, ih]
    rfl

/-- The empty pattern fits the empty name only. -/
theorem fits_nil (t : Text) : fits [] t = t.isEmpty := by
  cases t <;> rfl

/-- Only stars fit the empty name. -/
theorem fits_cons_nil (p : Piece) (ps : Wildcard) :
    fits (p :: ps) [] = (p == .star && fits ps []) := rfl

/-- A star fits nothing, or one more character. -/
theorem fits_star_cons (ps : Wildcard) (c : Char) (r : Text) :
    fits (.star :: ps) (c :: r) = (fits ps (c :: r) || fits (.star :: ps) r) := by
  show ((fitsBefore c ps (fittingRemainders (.star :: ps) r).tail).headD false ||
    fits (.star :: ps) r) = _
  rw [tail_fittingRemainders]
  rfl

/-- Any other piece fits the first character, and the rest of the pattern the rest of the name. -/
theorem fits_cons_cons {p : Piece} (hp : p ≠ .star) (ps : Wildcard) (c : Char) (r : Text) :
    fits (p :: ps) (c :: r) = (p.covers c && fits ps r) := by
  show (if p = .star then _ else p.covers c &&
    (fittingRemainders (p :: ps) r).tail.headD false) = _
  rw [if_neg hp, tail_fittingRemainders]
  rfl

end Wildcard

/-! ## Search patterns -/

/-- A part of a search pattern. -/
inductive SearchPart where
  /-- The directory itself, where a pattern ends with a slash. -/
  | here
  /-- Any chain of directories, links not entered. -/
  | deep
  /-- A name as it stands. -/
  | named (name : Text)
  /-- The names that fit a pattern. -/
  | fitting (w : Wildcard)
deriving Repr, DecidableEq

/-- Whether two stars stand next to each other. -/
def hasDoubleStar : Text → Bool
  | '*' :: '*' :: _ => true
  | _ :: r => hasDoubleStar r
  | [] => false

/-- Whether a part has to be matched rather than looked up. -/
def isPattern (t : Text) : Bool := t.any fun c => c = '*' || c = '?' || c = '['

/-- Read one part of a search pattern; two stars must stand alone. -/
def SearchPart.ofText (t : Text) : Except PathFault SearchPart :=
  if t = ['*', '*'] then .ok .deep
  else if hasDoubleStar t then .error .badPattern
  else if isPattern t then .ok (.fitting (Wildcard.ofText t))
  else .ok (.named t)

/-- Read a search pattern. -/
def searchParts (pattern : Text) : Except PathFault (List SearchPart) := do
  let parts ← (pathParts pattern).mapM SearchPart.ofText
  .ok (if pattern.getLast? = some '/' then parts ++ [.here] else parts)

example : Wildcard.fits (Wildcard.ofText ['*', '.', 'm', 'd']) ['.', 'm', 'd'] := by
  decide +kernel

end HashtagIndex
