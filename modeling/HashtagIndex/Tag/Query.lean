import HashtagIndex.Tag.Parser
import HashtagIndex.Tag.Tree

/-!
# `HashtagIndex.Tag.Query` — questions to the hierarchy

A path leads to at most one node. References are the locations of that node, and with nested tags
those of every node beneath it; these nodes are visited from a stack. Completion looks at the node in
front of the last slash of a typed text and offers all its children; what is typed behind that slash
does not matter.

## Contents
- `Node.find?`: where a path leads.
- `Node.pushChildren`, `Node.collect`, `Node.references`: the places of a tag and of those beneath it.
- `Node.complete`: what comes next.
-/

namespace HashtagIndex

/-- A segment that may come next, with the counts of its node. -/
structure Completion where
  name : Text
  fullPath : TagPath
  fileCount : Nat
  tagCount : Nat
deriving Repr, DecidableEq

namespace Node

/-- The node that a path leads to. -/
def find? (n : Node) : TagPath → Option Node
  | [] => some n
  | s :: rest =>
    match n.children.lookup s with
    | some c => c.find? rest
    | none => none

/-- The children of a node put on a stack of nodes. The last one is put there first, so the first one
comes off first. -/
def pushChildren (n : Node) (stack : List Node) : List Node :=
  n.children.reverse.foldl (fun onto c => c.2 :: onto) stack

theorem pushChildren_eq (n : Node) (stack : List Node) :
    n.pushChildren stack = n.children.map Prod.snd ++ stack := by
  unfold pushChildren
  rw [List.foldl_reverse]
  induction n.children with
  | nil => rfl
  | cons c cs ih => rw [List.foldr_cons, ih, List.map_cons, List.cons_append]

/-- Children are smaller than their node, also all of them together on a stack. -/
theorem sizeOf_pushChildren_lt (n : Node) (stack : List Node) :
    sizeOf (n.pushChildren stack) < sizeOf (n :: stack) := by
  have hchildren : ∀ cs : List (Text × Node),
      sizeOf (cs.map Prod.snd ++ stack) ≤ sizeOf cs + sizeOf stack := by
    intro cs
    induction cs with
    | nil => simp
    | cons c cs ih =>
      obtain ⟨name, m⟩ := c
      simp only [List.map_cons, List.cons_append, List.cons.sizeOf_spec, Prod.mk.sizeOf_spec]
      omega
  obtain ⟨name, parentPath, children, fileCount, tagCount, locations⟩ := n
  have hbound := hchildren children
  rw [pushChildren_eq]
  simp only [List.cons.sizeOf_spec, Node.mk.sizeOf_spec]
  omega

/-- Collects the locations of the nodes on a stack and of all nodes beneath them: the node on top comes
off, and its children go on. -/
def collect (found : List Location) : List Node → List Location
  | [] => found
  | n :: stack => collect (found ++ n.locations) (n.pushChildren stack)
termination_by stack => sizeOf stack
decreasing_by exact sizeOf_pushChildren_lt n stack

/-- Where the tag at a path occurs, and on demand the tags nested beneath it. The root is no tag. -/
def references (root : Node) (path : TagPath) (nested : Bool) : List Location :=
  if path = [] then []
  else
    match root.find? path with
    | none => []
    | some n => if nested then collect [] [n] else n.locations

/-- A child as a completion. -/
def toCompletion (n : Node) : Completion := ⟨n.name, n.fullPath, n.fileCount, n.tagCount⟩

/-- The children of the node in front of the last slash of a typed text. -/
def complete (root : Node) (typed : Text) : List Completion :=
  match root.find? (splitTag ((dropHash typed.trim).beforeLast '/')) with
  | none => []
  | some n => n.children.map (·.2.toCompletion)

end Node

end HashtagIndex
