import HashtagIndex.Proofs.Counting
import HashtagIndex.Proofs.Forgetting

/-!
# `Proofs.SiblingOrder` — the order of siblings

What comes before what is said here without the ordering that siblings are sorted with: by name, or by a
number, where equal numbers always go by name upwards (`Sorting.Before`). Sorting arranges the children of
every node in this order, and leaves no other order to choose (`Node.Ordered`).

Hierarchies of one snapshot differ in nothing else. To sort one of them again, level by level, gives the other
(`rearrange_buildNode`): a rearrangement leaves names and numbers as they are, which are all that siblings are
compared by, so the children of a rearranged node are sorted if the rearrangement sorts. Reversing is such a
rearrangement between the two directions of names.

## Contents
- `Text.Less`, `Sorting.Before`, `le_iff_before`: what comes before what.
- `Node.Ordered`, `ordered_buildNode`: the children of a node.
- `Node.rearrange`, `rearrange_buildNode`: from one ordering to another.
- `Node.bare`, `bare_find?_buildTree`, `perm_bare_children`: what no ordering touches.
- `siblings_ordered`, with a shelf of three siblings and a tag that is too deep.
-/

namespace HashtagIndex

/-! ## What comes before what -/

/-- Code point order: the first difference decides, and a text comes before its continuations. -/
def Text.Less : Text → Text → Prop := List.Lex fun a b => a.toNat < b.toNat

theorem Text.less_iff {s t : Text} : Less s t ↔ le s t = true ∧ s ≠ t := by
  induction s generalizing t with
  | nil =>
    cases t with
    | nil => exact ⟨nofun, fun h => absurd rfl h.2⟩
    | cons b t => exact ⟨fun _ => ⟨rfl, nofun⟩, fun _ => .nil⟩
  | cons a s ih =>
    cases t with
    | nil => exact ⟨nofun, fun h => nomatch h.1⟩
    | cons b t =>
      have hless : Less (a :: s) (b :: t) ↔ a.toNat < b.toNat ∨ a = b ∧ Less s t := List.cons_lex_cons_iff
      rw [hless, ih, le_cons_cons, Char.toNat_inj]
      constructor
      · rintro (hlt | ⟨rfl, hle, hne⟩)
        · refine ⟨.inl hlt, ?_⟩
          intro heq
          rw [(List.cons.inj heq).1] at hlt
          exact Nat.lt_irrefl _ hlt
        · exact ⟨.inr ⟨rfl, hle⟩, fun heq => hne (List.cons.inj heq).2⟩
      · rintro ⟨hlt | ⟨rfl, hle⟩, hne⟩
        · exact .inl hlt
        · exact .inr ⟨rfl, hle, fun heq => hne (congrArg (List.cons a) heq)⟩

/-- Which of two siblings comes first. Names go in either direction; numbers, too, but siblings with equal
    numbers go by name upwards in both. -/
def Sorting.Before (sorting : Sorting) (m n : Node) : Prop :=
  match sorting.key, sorting.order with
  | .name, .asc => Text.Less m.name n.name
  | .name, .desc => Text.Less n.name m.name
  | .countFiles, .asc => m.fileCount < n.fileCount ∨ m.fileCount = n.fileCount ∧ Text.Less m.name n.name
  | .countFiles, .desc => n.fileCount < m.fileCount ∨ m.fileCount = n.fileCount ∧ Text.Less m.name n.name
  | .countTags, .asc => m.tagCount < n.tagCount ∨ m.tagCount = n.tagCount ∧ Text.Less m.name n.name
  | .countTags, .desc => n.tagCount < m.tagCount ∨ m.tagCount = n.tagCount ∧ Text.Less m.name n.name

/-- Siblings that stand under their own, different names may stand in the order in which one comes before the
    other. -/
theorem le_iff_before {sorting : Sorting} {a b : Text × Node} (ha : a.1 = a.2.name) (hb : b.1 = b.2.name)
    (hne : a.1 ≠ b.1) : sorting.le a b = true ↔ sorting.Before a.2 b.2 := by
  have hup : Text.le a.1 b.1 = true ↔ Text.Less a.2.name b.2.name := by
    rw [Text.less_iff, ← ha, ← hb]
    exact ⟨fun h => ⟨h, hne⟩, And.left⟩
  have hdown : Text.le b.1 a.1 = true ↔ Text.Less b.2.name a.2.name := by
    rw [Text.less_iff, ← ha, ← hb]
    exact ⟨fun h => ⟨h, hne.symm⟩, And.left⟩
  obtain ⟨key, order⟩ := sorting
  cases key <;> cases order <;> simp [Sorting.le, Sorting.Before, hup, hdown]

/-! ## The children of a node -/

/-- The children of a node stand under their own names, which are different, and a child that comes before
    another one stands before it. No other arrangement of the children has this property. -/
structure Node.Ordered (sorting : Sorting) (n : Node) : Prop where
  own_name : ∀ c ∈ n.children, c.1 = c.2.name ∧ n.children.lookup c.2.name = some c.2
  distinct : (n.children.map fun c => c.2.name).Nodup
  sorted : n.children.Pairwise fun a b => sorting.Before a.2 b.2
  only : ∀ cs : List (Text × Node), cs.Perm n.children →
    (cs.Pairwise fun a b => sorting.Before a.2 b.2) → cs = n.children

section Children

variable (sorting : Sorting) {depth : Nat} (path : TagPath) {seen : List Sighting}

/-- A child stands under its name. -/
theorem name_child (hdepth : ∀ x ∈ seen, x.below.length ≤ depth) {c : Text × Node}
    (hc : c ∈ (buildNode sorting depth path seen).children) : c.1 = c.2.name := by
  rw [(perm_children sorting depth path hdepth).mem_iff, List.mem_map] at hc
  obtain ⟨s, -, rfl⟩ := hc
  rw [buildNode_name, List.getLast?_concat, Option.getD_some]

/-- For the children of a node, standing where the ordering allows it and coming before each other are the
    same. -/
theorem pairwise_before_iff (hdepth : ∀ x ∈ seen, x.below.length ≤ depth) {cs : List (Text × Node)}
    (hcs : cs.Perm (buildNode sorting depth path seen).children) :
    (cs.Pairwise fun a b => sorting.le a b = true) ↔ cs.Pairwise fun a b => sorting.Before a.2 b.2 := by
  have hnames : (cs.map Prod.fst).Nodup :=
    (hcs.map Prod.fst).nodup_iff.mpr (nodup_names_children sorting depth path seen)
  have hdiffer : cs.Pairwise fun a b => a.1 ≠ b.1 := List.pairwise_map.mp hnames
  have hown : ∀ c ∈ cs, c.1 = c.2.name := by
    intro c hc
    exact name_child sorting path hdepth (hcs.mem_iff.mp hc)
  constructor
  · intro hle
    refine (hle.and hdiffer).imp_of_mem ?_
    rintro a b ha hb ⟨hab, hne⟩
    exact (le_iff_before (hown a ha) (hown b hb) hne).mp hab
  · intro hbefore
    refine (hbefore.and hdiffer).imp_of_mem ?_
    rintro a b ha hb ⟨hab, hne⟩
    exact (le_iff_before (hown a ha) (hown b hb) hne).mpr hab

/-- **The children of a node are in order**, and there is one order for them. -/
theorem ordered_buildNode (hdepth : ∀ x ∈ seen, x.below.length ≤ depth) :
    (buildNode sorting depth path seen).Ordered sorting := by
  have hnames := nodup_names_children sorting depth path seen
  refine ⟨?_, ?_, ?_, ?_⟩
  · intro c hc
    have hown := name_child sorting path hdepth hc
    refine ⟨hown, ?_⟩
    rw [← hown]
    exact (lookup_eq_some_iff_mem hnames).mpr hc
  · have hown : (buildNode sorting depth path seen).children.map Prod.fst =
        (buildNode sorting depth path seen).children.map fun c => c.2.name := by
      apply List.map_congr_left
      intro c hc
      exact name_child sorting path hdepth hc
    rw [← hown]
    exact hnames
  · apply (pairwise_before_iff sorting path hdepth (List.Perm.refl _)).mp
    exact pairwise_children sorting depth path seen
  · intro cs hcs hbefore
    apply eq_children_of_perm sorting depth path seen hcs
    exact (pairwise_before_iff sorting path hdepth hcs).mpr hbefore

end Children

/-! ## From one ordering to another -/

/-- A node whose children are rearranged in the same way at every level. -/
def Node.rearrange (f : List (Text × Node) → List (Text × Node)) (n : Node) : Node :=
  { n with children := f (n.children.map fun c => (c.1, c.2.rearrange f)) }
termination_by n
decreasing_by exact sizeOf_child_lt ‹_›

/-- Siblings are compared by what a rearrangement leaves as it is. -/
theorem Sorting.le_rearrange (sorting : Sorting) (f : List (Text × Node) → List (Text × Node))
    (a b : Text × Node) : sorting.le (a.1, a.2.rearrange f) (b.1, b.2.rearrange f) = sorting.le a b := by
  rw [Node.rearrange, Node.rearrange]
  rfl

/-- **Another ordering is a rearrangement**, if it keeps the children and sorts them. By induction on the
    levels: the children are rearranged already, and are as many and as sorted as before. -/
theorem rearrange_buildNode {sorting sorting' : Sorting} {f : List (Text × Node) → List (Text × Node)}
    (hkeeps : ∀ cs, (f cs).Perm cs)
    (hsorts : ∀ cs : List (Text × Node), (cs.Pairwise fun a b => sorting.le a b = true) →
      (f cs).Pairwise fun a b => sorting'.le a b = true)
    (depth : Nat) (path : TagPath) (seen : List Sighting) :
    (buildNode sorting depth path seen).rearrange f = buildNode sorting' depth path seen := by
  induction depth generalizing path seen with
  | zero =>
    have hnil : f [] = [] := (hkeeps []).eq_nil
    rw [Node.rearrange]
    show { buildNode sorting' 0 path seen with children := f [] } = _
    rw [hnil]
    rfl
  | succ d ih =>
    let child (sorting : Sorting) (s : Text) : Text × Node :=
      (s, buildNode sorting d (path ++ [s]) (descend s seen))
    -- the children with their own children rearranged, still in the order of this ordering
    let arranged := (buildNode sorting (d + 1) path seen).children.map fun c => (c.1, c.2.rearrange f)
    have hperm : arranged.Perm (buildNode sorting' (d + 1) path seen).children := by
      have hchildren : ((nextSegments seen).map (child sorting)).map (fun c => (c.1, c.2.rearrange f)) =
          (nextSegments seen).map (child sorting') := by
        rw [List.map_map]
        apply List.map_congr_left
        intro s _
        exact congrArg (Prod.mk s) (ih _ _)
      have hfrom := (List.mergeSort_perm ((nextSegments seen).map (child sorting)) sorting.le).map
        fun c => (c.1, c.2.rearrange f)
      rw [hchildren] at hfrom
      exact hfrom.trans (List.mergeSort_perm _ _).symm
    have hsorted : arranged.Pairwise fun a b => sorting.le a b = true := by
      apply List.pairwise_map.mpr
      simp only [Sorting.le_rearrange]
      exact pairwise_children sorting (d + 1) path seen
    have heq := eq_children_of_perm sorting' (d + 1) path seen ((hkeeps arranged).trans hperm)
      (hsorts arranged hsorted)
    rw [Node.rearrange]
    show { buildNode sorting' (d + 1) path seen with children := f arranged } = _
    rw [heq]
    rfl

/-- To sort a hierarchy by another ordering gives the hierarchy in that ordering. -/
theorem mergeSort_buildTree (s : Index) (sorting sorting' : Sorting) :
    (buildTree s sorting).rearrange (·.mergeSort sorting'.le) = buildTree s sorting' := by
  apply rearrange_buildNode
  · intro cs
    exact List.mergeSort_perm cs _
  · intro cs _
    apply List.pairwise_mergeSort
    · intro a b c hab hbc
      exact sorting'.le_trans hab hbc
    · exact sorting'.le_total

/-- Names downwards are names upwards, reversed at every level. -/
theorem reverse_buildTree (s : Index) :
    (buildTree s ⟨.name, .asc⟩).rearrange List.reverse = buildTree s ⟨.name, .desc⟩ := by
  apply rearrange_buildNode List.reverse_perm
  intro cs hcs
  exact List.pairwise_reverse.mpr hcs

/-! ## What no ordering touches -/

/-- A node without its children: its name, its path, its counts and its places. -/
def Node.bare (n : Node) : Node := { n with children := [] }

theorem bare_buildNode (sorting : Sorting) (depth : Nat) (path : TagPath) (seen : List Sighting) :
    (buildNode sorting depth path seen).bare = buildNode {} 0 path seen := by
  cases depth <;> rfl

/-- **Where a path leads does not depend on the ordering**, but for the children. -/
theorem bare_find?_buildTree (s : Index) (sorting sorting' : Sorting) (p : TagPath) :
    ((buildTree s sorting).find? p).map Node.bare = ((buildTree s sorting').find? p).map Node.bare := by
  have hdepth := depthOf_le_iff.mp (Nat.le_refl (depthOf (sightings s)))
  unfold buildTree
  rw [find?_buildNode sorting p _ [] _ hdepth, find?_buildNode sorting' p _ [] _ hdepth]
  by_cases hreaches : p = [] ∨ ∃ x ∈ sightings s, p <+: x.below
  · rw [if_pos hreaches, if_pos hreaches, Option.map_some, Option.map_some, bare_buildNode, bare_buildNode]
  · rw [if_neg hreaches, if_neg hreaches]

/-- A node has the same children in every ordering, but for their own children. -/
theorem perm_bare_children (sorting sorting' : Sorting) {depth : Nat} (path : TagPath) {seen : List Sighting}
    (hdepth : ∀ x ∈ seen, x.below.length ≤ depth) :
    ((buildNode sorting depth path seen).children.map fun c => (c.1, c.2.bare)).Perm
      ((buildNode sorting' depth path seen).children.map fun c => (c.1, c.2.bare)) := by
  have hbare : ∀ sorting : Sorting,
      ((buildNode sorting depth path seen).children.map fun c => (c.1, c.2.bare)).Perm
        ((nextSegments seen).map fun s => (s, buildNode {} 0 (path ++ [s]) (descend s seen))) := by
    intro sorting
    have hperm := (perm_children sorting depth path hdepth).map fun c => (c.1, c.2.bare)
    rw [List.map_map] at hperm
    simpa only [Function.comp_def, bare_buildNode] using hperm
  exact (hbare sorting).trans (hbare sorting').symm

/-- Two hierarchies that differ in the order of children only: a path leads to the same name, counts and places
    in both, and to the same children. -/
structure Node.SameButOrder (root root' : Node) : Prop where
  bare : ∀ p, (root.find? p).map Node.bare = (root'.find? p).map Node.bare
  children : ∀ p n n', root.find? p = some n → root'.find? p = some n' →
    (n.children.map fun c => (c.1, c.2.bare)).Perm (n'.children.map fun c => (c.1, c.2.bare))

theorem sameButOrder_buildTree (s : Index) (sorting sorting' : Sorting) :
    (buildTree s sorting).SameButOrder (buildTree s sorting') := by
  -- look-ups do not see the order, and at each path both trees are built from the same sightings
  refine ⟨bare_find?_buildTree s sorting sorting', ?_⟩
  intro p n n' hn hn'
  obtain ⟨-, rfl⟩ := (find?_buildTree s sorting p n).mp hn
  obtain ⟨-, rfl⟩ := (find?_buildTree s sorting' p n').mp hn'
  apply perm_bare_children
  exact length_below_beneath_le (depthOf_le_iff.mp (Nat.le_refl _)) p

/-! ## All nodes -/

/-- **Siblings are in order at every level.** The tree of a snapshot is built unless a tag has too many
    segments. Then the children of every node are in the order that was asked for; trees of one snapshot differ
    in the order of children only, and sorting the one again gives the other; and the two directions of names
    are each other's reverse at every level. -/
theorem siblings_ordered (s : Index) :
    (∀ sorting, buildTree? s sorting = none ↔ ∃ k q, s.HasTag k q ∧ mostSegments < q.length) ∧
    (∀ sorting root, buildTree? s sorting = some root → ∀ n ∈ root.preorder, n.Ordered sorting) ∧
    (∀ sorting sorting' root root', buildTree? s sorting = some root → buildTree? s sorting' = some root' →
      root.SameButOrder root' ∧ root.rearrange (·.mergeSort sorting'.le) = root') ∧
    ∀ up down, buildTree? s ⟨.name, .asc⟩ = some up → buildTree? s ⟨.name, .desc⟩ = some down →
      up.rearrange List.reverse = down := by
  refine ⟨buildTree?_eq_none_iff s, ?_, ?_, ?_⟩
  · intro sorting root hroot n hn
    rw [eq_buildTree_of_buildTree? hroot] at hn
    obtain ⟨p, -, -, hdepth, rfl⟩ := exists_buildNode hn
    exact ordered_buildNode sorting p hdepth
  · intro sorting sorting' root root' hroot hroot'
    rw [eq_buildTree_of_buildTree? hroot, eq_buildTree_of_buildTree? hroot']
    exact ⟨sameButOrder_buildTree s sorting sorting', mergeSort_buildTree s sorting sorting'⟩
  · intro up down hup hdown
    rw [eq_buildTree_of_buildTree? hup, eq_buildTree_of_buildTree? hdown]
    exact reverse_buildTree s

/-- Three siblings: one in two documents, and one that nests two tags. -/
def siblingShelf : Index := .ofRecords [scanned "a.md" "#c/x #b #a #c/y", scanned "b.md" "#b"]

/-- The names of the children of the root. -/
def rootNames (s : Index) (sorting : Sorting) : Option (List String) :=
  (buildTree? s sorting).map fun root => root.children.map fun c => String.ofList c.1

/-- Names go both ways. The two siblings with equal numbers go by name upwards in both directions, and reversing
    is not what leads from one direction of a number to the other. -/
theorem siblingShelf_ordered :
    rootNames siblingShelf ⟨.name, .asc⟩ = some ["a", "b", "c"] ∧
    rootNames siblingShelf ⟨.name, .desc⟩ = some ["c", "b", "a"] ∧
    rootNames siblingShelf ⟨.countFiles, .asc⟩ = some ["a", "c", "b"] ∧
    rootNames siblingShelf ⟨.countFiles, .desc⟩ = some ["b", "a", "c"] ∧
    rootNames siblingShelf ⟨.countTags, .asc⟩ = some ["a", "b", "c"] ∧
    rootNames siblingShelf ⟨.countTags, .desc⟩ = some ["c", "a", "b"] ∧
    ∃ root, buildTree? siblingShelf ⟨.countTags, .desc⟩ = some root ∧
      ∀ n ∈ root.preorder, n.Ordered ⟨.countTags, .desc⟩ := by
  have hdepth : depthOf (sightings siblingShelf) = 2 := by cbv
  have hbuilt := buildTree?_of_depthOf_le (by rw [hdepth]; decide) ⟨.countTags, .desc⟩
  obtain ⟨-, hordered, -⟩ := siblings_ordered siblingShelf
  exact ⟨by cbv, by cbv, by cbv, by cbv, by cbv, by cbv, _, hbuilt, hordered _ _ hbuilt⟩

/-- No siblings are in order where a tag is too deep: there is no tree, whatever the ordering. -/
theorem not_ordered_deepSnapshot : deepSnapshot.HasTag "a.md".toList deepPath ∧
    ∀ sorting, ¬∃ root, buildTree? deepSnapshot sorting = some root ∧
      ∀ n ∈ root.preorder, n.Ordered sorting := by
  refine ⟨hasTag_deepSnapshot, ?_⟩
  rintro sorting ⟨root, hroot, -⟩
  rw [buildTree?_deepSnapshot] at hroot
  cases hroot

end HashtagIndex
