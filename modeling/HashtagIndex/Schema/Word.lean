import HashtagIndex.Fault
import HashtagIndex.Schema.Reader
import HashtagIndex.Workspace.Scan

/-!
# `HashtagIndex.Schema.Word` — constants named outside a record

Where a value has to be the word for a constant and is not part of a record, there is nothing to
collect: a value that is no such word is a fault that names the kind of constant.
-/

namespace HashtagIndex

/-- The constant whose word a value is. -/
def constantOf (kind : String) (values : List α) (word : α → String) (j : Json) : Except Fault α :=
  match Reader.choice values word j with
  | .ok a => .ok a
  | .error _ => .error (.unknownWord kind j)

/-- The constant whose word a value is, if a value is given at all. -/
def givenConstantOf (kind : String) (values : List α) (word : α → String) (j : Json) :
    Except Fault (Option α) :=
  if j.isTruthy then some <$> constantOf kind values word j else .ok none

/-- The sort key that a value names. -/
def SortKey.ofJson (j : Json) : Except Fault SortKey :=
  constantOf "SortKey" SortKey.all SortKey.word j

/-- The direction that a value names. -/
def SortOrder.ofJson (j : Json) : Except Fault SortOrder :=
  constantOf "SortOrder" SortOrder.all SortOrder.word j

/-- The sort key that a value names, if it names one. -/
def SortKey.ofJson? (j : Json) : Except Fault (Option SortKey) :=
  givenConstantOf "SortKey" SortKey.all SortKey.word j

/-- The direction that a value names, if it names one. -/
def SortOrder.ofJson? (j : Json) : Except Fault (Option SortOrder) :=
  givenConstantOf "SortOrder" SortOrder.all SortOrder.word j

/-- The reason that a value names. -/
def ScanReason.ofJson (j : Json) : Except Fault ScanReason :=
  constantOf "ScanReason" ScanReason.all ScanReason.word j

/-- A typed text; what is not given is empty. -/
def typedText (j : Json) : Except Fault Text :=
  if !j.isTruthy then .ok []
  else
    match j with
    | .str s => .ok s.toList
    | _ => .error (.notTrimmable j.typeName)

/-- A key of a mapping: a text, or a value that no text equals. -/
def keyOf (j : Json) : Except Fault (Option Text) :=
  match j with
  | .str s => .ok (some s.toList)
  | .arr _ | .obj _ => .error (.notKey j.typeName)
  | _ => .ok none

end HashtagIndex
