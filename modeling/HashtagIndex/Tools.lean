import HashtagIndex.Fault
import HashtagIndex.Schema.Records

/-!
# `HashtagIndex.Tools` — the service as tools for assistants

A tool takes named arguments. All arguments are checked, in the order in which the tool declares
them, and arguments that it does not know are refused after those. Tools other than the rescan make
sure first that the workspace has been scanned.

## Contents
- `ToolCall`: a tool with its arguments; `ToolCall.read`.
- `Node.outline`: the hierarchy down to a depth.
- `ToolCall.outline`: an outline, as long as it can be made and shown.
- `ToolCall.run`: what a call does to a session, and what it answers.
-/

namespace HashtagIndex

/-- A tool with its arguments. -/
inductive ToolCall where
  | tree (key : Option SortKey) (order : Option SortOrder) (depth : Option Nat)
  | complete (typed : Text)
  | references (tag : Text) (nested : Bool)
  | rename (tag name : Text)
  | rescan
deriving Repr, DecidableEq

namespace ToolCall

/-- Read an argument that has to be given. -/
def given (name : String) (r : Reader α) : Reader α := fun j =>
  Checked.under (.field name) <|
    match j.get? name with
    | none => .fail .missingArgument j
    | some v => r v

/-- Refuse arguments other than those of the given names. -/
def onlyNamed (names : List String) : List (String × Json) → Checked Unit
  | [] => .ok ()
  | (name, j) :: rest =>
    if names.contains name then onlyNamed names rest
    else
      ((Checked.under (.field name) (.fail .unexpectedArgument j)).pair
        (onlyNamed names rest)).map fun (p : Unit × Unit) => p.2

/-- Read the arguments of a tool, of which there are no others. -/
def arguments (names : List String) (r : Reader α) : Reader α := fun j =>
  let others : Checked Unit :=
    match j with
    | .obj ms => onlyNamed names ms
    | _ => .ok ()
  ((r j).pair others).map (·.1)

/-- Read a call of the named tool, if there is one. -/
def read? (tool : String) : Option (Reader ToolCall) :=
  match tool with
  | "get_tag_tree" =>
    some <| arguments ["sort_key", "sort_order", "depth"] <|
      ((Reader.defaulted "sort_key" none (Reader.optional SortKey.read)).both
        ((Reader.defaulted "sort_order" none (Reader.optional SortOrder.read)).both
        (Reader.defaulted "depth" none (Reader.optional Reader.natural)))).as
        fun p => .tree p.1 p.2.1 p.2.2
  | "complete_tag" =>
    some <| arguments ["prefix"] <| (given "prefix" Reader.text).as .complete
  | "find_tag_references" =>
    some <| arguments ["tag", "include_descendants"] <|
      ((given "tag" Reader.text).both
        (Reader.defaulted "include_descendants" false Reader.boolean)).as
        fun p => .references p.1 p.2
  | "rename_tag" =>
    some <| arguments ["tag", "new_name"] <|
      ((given "tag" Reader.text).both (given "new_name" Reader.text)).as
        fun p => .rename p.1 p.2
  | "rescan_tags" => some <| arguments [] fun _ => .ok .rescan
  | _ => none

end ToolCall

namespace Node

/-- What an outline says about a node itself. -/
def outlineMembers (n : Node) : List (String × Json) :=
  [("name", .ofText n.name), ("path", .ofText (joinSegments n.fullPath)),
  ("file_count", .ofNat n.fileCount), ("tag_count", .ofNat n.tagCount),
  ("locations", .ofNat n.locations.length)]

mutual

/-- The hierarchy at and below a node, down to `depth` levels below it where a depth is given.
Nodes at the last level do not mention children. -/
def outline (depth : Option Nat) : Node → Json
  | ⟨name, parentPath, children, fileCount, tagCount, locations⟩ =>
    let own := outlineMembers ⟨name, parentPath, children, fileCount, tagCount, locations⟩
    if depth = some 0 then .obj own
    else .obj (own ++ [("children", .arr (outlineAll (depth.map (· - 1)) children))])

/-- The outlines of children. -/
def outlineAll (depth : Option Nat) : List (Text × Node) → List Json
  | [] => []
  | (_, n) :: rest => outline depth n :: outlineAll depth rest

end

end Node

namespace ToolCall

/-- Make sure that the workspace has been scanned. -/
def scannedFirst (s : Session) : Session × Except PathFault Unit :=
  if s.service.scanned then (s, .ok ())
  else
    let (sv, r) := s.service.scanAll s.disk
    (⟨sv, s.disk⟩, (fun _ => ()) <$> r)

/-- Answer a question to a service that has scanned its workspace. -/
def ask (s : Session) (question : Service → Except Fault Json) : Session × Except Fault Json :=
  match scannedFirst s with
  | (s', .error f) => (s', .error (.path f))
  | (s', .ok ()) => (s', question s'.service)

/-- The most levels of nodes in an outline. -/
def mostOutlined : Nat := 470

/-- The most levels of values in an answer. -/
def mostShown : Nat := 255

/-- The hierarchy down to a depth. A node and the list that it stands in are two levels of values,
and values without parts are a level of their own. -/
def outline (n : Node) (depth : Option Nat) : Except Fault Json :=
  let j := n.outline depth
  if 2 * mostOutlined < j.depth then .error .deepOutline
  else if mostShown < j.depth then .error .deepValue
  else .ok j

/-- A refused name is the tool's own refusal. -/
def refusal : RenameFault → Fault
  | .name f => .refusedTool f
  | f => f.toFault

/-- What a call does to a session, and what it answers. -/
def run (c : ToolCall) (s : Session) : Session × Except Fault Json :=
  match c with
  | .tree key order depth =>
    ask s fun sv => do
      let root ← Fault.ofHierarchy (sv.tree? key order)
      outline root depth
  | .complete typed =>
    ask s fun sv => (fun cs => .arr (cs.map (·.toJson))) <$> Fault.ofHierarchy (sv.complete? typed)
  | .references tag nested =>
    ask s fun sv =>
      (fun ls => .arr (ls.map (·.toJson))) <$> Fault.ofHierarchy (sv.references? tag nested)
  | .rescan =>
    let (sv, r) := s.service.scanAll s.disk
    (⟨sv, s.disk⟩, (r.map (·.toJson)).mapError .path)
  | .rename tag name =>
    match scannedFirst s with
    | (s', .error f) => (s', .error (.path f))
    | (s', .ok ()) =>
      let (s'', outcome) := s'.service.rename s'.disk tag name
      (s'', (outcome.map fun o => o.report.toJson).mapError refusal)

/-- What a call of the named tool does to a session, and what it answers. -/
def call (tool : String) (args : Json) (s : Session) : Option (Session × Except Fault Json) :=
  (read? tool).map fun r =>
    match r args with
    | .error issues => (s, .error (.invalid issues))
    | .ok c => c.run s

end ToolCall

end HashtagIndex
