import HashtagIndex.Schema.Issue
import HashtagIndex.Text.Integer

/-!
# `HashtagIndex.Schema.Reader` — reading fields of transport values

A reader checks a transport value and turns it into a value of the domain. Integers are read
leniently: a truth value, a number without fraction and a text that writes an integer will do.
Texts, lists and dictionaries are not converted.

What the library writes for a text or a count is read back as the same text or count.
-/

namespace HashtagIndex

/-- Reads a transport value. -/
abbrev Reader (α : Type) := Json → Checked α

namespace Reader

/-- Read a text. -/
def text : Reader Text
  | .str s => .ok s.toList
  | j => .fail .notText j

/-- Read a text of bounded length. -/
def textWithin (least : Nat) (most : Option Nat) : Reader Text
  | .str s =>
    if s.length < least then .fail (.textTooShort least) (.str s)
    else
      match most with
      | none => .ok s.toList
      | some n => if n < s.length then .fail (.textTooLong n) (.str s) else .ok s.toList
  | j => .fail .notText j

/-- Whether a number with a fraction, now without it, is still small enough to be an integer. -/
def isModerate (n : Int) : Bool := n.natAbs < Nat.pow 2 63

/-- Read an integer. -/
def integer : Reader Int
  | .bool b => .ok (if b then 1 else 0)
  | .int n => .ok n
  | .float x =>
    if !x.isFinite then .fail .notFinite (.float x)
    else
      match x.toInt? with
      | none => .fail .fractional (.float x)
      | some n => if isModerate n then .ok n else .fail .hugeInteger (.float x)
  | .str s =>
    match readWhole s.toList with
    | .error .unreadable => .fail .unreadableInteger (.str s)
    | .error (.tooLong _) => .fail .hugeInteger (.str s)
    | .ok n => .ok n
  | j => .fail .notInteger j

/-- Read an integer that is not negative. -/
def natural : Reader Nat := fun j =>
  match integer j with
  | .error issues => .error issues
  | .ok n => if n < 0 then .fail .negative j else .ok n.toNat

theorem text_ofText (t : Text) : text (.ofText t) = .ok t := by
  simp [text, Json.ofText]

theorem natural_ofNat (n : Nat) : natural (.ofNat n) = .ok n := by
  have h : ¬(n : Int) < 0 := by omega
  simp [natural, integer, Json.ofNat, h]

/-- The truth value that a text writes, in letters of either case. -/
def boolWord? (s : String) : Option Bool :=
  let w := s.toLower
  if ["1", "true", "t", "yes", "y", "on"].contains w then some true
  else if ["0", "false", "f", "no", "n", "off"].contains w then some false
  else none

/-- The truth value that an integer stands for; one that is no candidate is not even an integer
that cannot be interpreted. -/
def booleanOf (n : Int) (candidate : Bool) (j : Json) : Checked Bool :=
  if n = 0 then .ok false
  else if n = 1 then .ok true
  else .fail (if candidate then .unreadableBoolean else .notBoolean) j

/-- Read a truth value. -/
def boolean : Reader Bool
  | .bool b => .ok b
  | .int n => booleanOf n (isModerate n || n == -(Nat.pow 2 63 : Int)) (.int n)
  | .float x =>
    match x.toInt? with
    | none => .fail .notBoolean (.float x)
    | some n => booleanOf n (isModerate n) (.float x)
  | .str s =>
    match boolWord? s with
    | none => .fail .unreadableBoolean (.str s)
    | some b => .ok b
  | j => .fail .notBoolean j

/-- Read one of the words for the given values. -/
def choice (values : List α) (word : α → String) : Reader α := fun j =>
  let refused := Checked.fail (.notOneOf (values.map word)) j
  match j with
  | .str s => (values.find? fun v => word v == s).elim refused .ok
  | _ => refused

/-- Read null or what `r` reads. -/
def optional (r : Reader α) : Reader (Option α)
  | .null => .ok none
  | j => (r j).map some

/-- Read each of several items, the first of which has the given number. -/
def items (r : Reader α) (index : Nat) : List Json → Checked (List α)
  | [] => .ok []
  | j :: rest =>
    (((r j).under (.item index)).pair (items r (index + 1) rest)).map fun p => p.1 :: p.2

/-- Read a list. -/
def list (r : Reader α) : Reader (List α)
  | .arr js => items r 0 js
  | j => .fail .notList j

/-- Read a tuple. -/
def tuple (r : Reader α) : Reader (List α)
  | .arr js => items r 0 js
  | j => .fail .notTuple j

/-- Read a tuple that has at least one item. -/
def someTuple (r : Reader α) : Reader (List α) := fun j =>
  match tuple r j with
  | .ok [] => .fail .emptyTuple j
  | c => c

/-- Read each member of a dictionary. -/
def members (r : Reader α) : List (String × Json) → Checked (List (Text × α))
  | [] => .ok []
  | (name, j) :: rest =>
    (((r j).under (.field name)).pair (members r rest)).map fun p => (name.toList, p.1) :: p.2

/-- Read a dictionary. -/
def dictionary (r : Reader α) : Reader (List (Text × α))
  | .obj ms => members r ms
  | j => .fail .notDictionary j

/-- Read a field that has to be there. -/
def required (name : String) (r : Reader α) : Reader α := fun j =>
  Checked.under (.field name) <|
    match j.get? name with
    | none => .fail .missing j
    | some v => r v

/-- Read a field that may be left out. -/
def defaulted (name : String) (value : α) (r : Reader α) : Reader α := fun j =>
  match j.get? name with
  | none => .ok value
  | some v => (r v).under (.field name)

/-- Read two things from one value, collecting the issues of both. -/
def both (r : Reader α) (q : Reader β) : Reader (α × β) := fun j => (r j).pair (q j)

/-- Read and convert. -/
def as (r : Reader α) (f : α → β) : Reader β := fun j => (r j).map f

/-- Where two readers succeed, reading both does. -/
theorem both_of_ok {r : Reader α} {q : Reader β} {j : Json} {a : α} {b : β} (hr : r j = .ok a)
    (hq : q j = .ok b) : r.both q j = .ok (a, b) := by
  rw [both, hr, hq]
  rfl

/-- A field that is there is read by its reader. -/
theorem required_of_get? {name : String} {r : Reader α} {j v : Json} {a : α}
    (hv : j.get? name = some v) (hr : r v = .ok a) : required name r j = .ok a := by
  rw [required, hv]
  simp only [hr]
  rfl

/-- Reading and converting succeeds where reading does. -/
theorem as_of_ok {r : Reader α} {f : α → β} {j : Json} {a : α} (hr : r j = .ok a) :
    r.as f j = .ok (f a) := by
  rw [as, hr]
  rfl

/-- Read a record, which has to be a dictionary. -/
def record (complaint : Complaint) (r : Reader α) : Reader α
  | .obj ms => r (.obj ms)
  | j => .fail complaint j

end Reader

end HashtagIndex
