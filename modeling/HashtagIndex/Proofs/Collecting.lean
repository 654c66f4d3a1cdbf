import HashtagIndex.Proofs.Forgetting
import Mathlib

/-!
# `Proofs.Collecting` — the places of a tag and of all tags beneath it

References with nested tags are collected from a stack of nodes. What the stack stands for at any moment
is the places still to come: those of the uppermost node and of everything beneath it, then those of the
next one. Taking the uppermost node off and putting its children on does not change that, so the
collection is the recursive one (`collect_eq`), in every tree.

In the tree of a snapshot the collection holds what was sighted at or below the path. A node keeps the
sightings that end there and hands each of the others on to one child, so nothing is lost on the way down
and nothing is seen twice (`perm_places_buildNode`). How siblings are sorted moves whole subtrees only.

## Contents
- `Node.preorder`, `Node.places`: a node and all nodes beneath it, and what they list.
- `flatMap_places_pushChildren`, `collect_eq`, `references_nested_eq`: the stack against the recursion.
- `perm_flatMap_filter`, `perm_groups`, `perm_grouped`: sightings grouped by their next segment.
- `perm_places_buildNode`, `Index.placesBeneath`, `perm_sightings`: from nodes to the snapshot.
- `references_lose_nothing`; a note with nested tags, and a tag that is too deep.
-/

namespace HashtagIndex

/-! ## The stack and the recursion -/

namespace Node

theorem sizeOf_child_lt {n : Node} {c : Text × Node} (h : c ∈ n.children) : sizeOf c.2 < sizeOf n := by
  obtain ⟨name, parentPath, children, fileCount, tagCount, locations⟩ := n
  obtain ⟨own, m⟩ := c
  have hchild := List.sizeOf_lt_of_mem h
  simp only [Prod.mk.sizeOf_spec, Node.mk.sizeOf_spec] at hchild ⊢
  omega

/-- A node and all nodes beneath it: the node first, then child by child in sibling order. -/
def preorder (n : Node) : List Node := n :: n.children.flatMap fun c => c.2.preorder
termination_by n
decreasing_by exact sizeOf_child_lt ‹_›

/-- The places of a node and of all nodes beneath it, in that order. -/
def places (n : Node) : List Location := n.preorder.flatMap (·.locations)

/-- **A node's own places come first**, then those of its children, one child after the other. -/
theorem places_eq (n : Node) : n.places = n.locations ++ n.children.flatMap fun c => c.2.places := by
  unfold places
  rw [preorder, List.flatMap_cons, List.flatMap_assoc]

/-- **A step of the loop** lists a node's own places and leaves a stack that stands for all the others. -/
theorem flatMap_places_pushChildren (n : Node) (stack : List Node) :
    n.locations ++ (n.pushChildren stack).flatMap places = (n :: stack).flatMap places := by
  rw [pushChildren_eq, List.flatMap_append, List.flatMap_map, List.flatMap_cons, places_eq n,
    List.append_assoc]

/-- **The stack stands for the places still to come**, by induction along the loop: what is found and what
    the stack stands for make up one list, which no step changes. -/
theorem collect_eq (found : List Location) (stack : List Node) :
    collect found stack = found ++ stack.flatMap places := by
  induction found, stack using collect.induct with
  | case1 found => rw [collect, List.flatMap_nil, List.append_nil]
  | case2 found n stack ih => rw [collect, ih, List.append_assoc, flatMap_places_pushChildren]

/-- **References with nested tags are the places of the subtree**, in every tree. -/
theorem references_nested_eq {root n : Node} {p : TagPath} (hp : p ≠ []) (h : root.find? p = some n) :
    root.references p true = n.places := by
  unfold references
  rw [if_neg hp, h]
  show collect [] [n] = n.places
  rw [collect_eq, List.nil_append, List.flatMap_singleton]

theorem references_of_find?_eq_none {root : Node} {p : TagPath} (h : root.find? p = none) (nested : Bool) :
    root.references p nested = [] := by
  unfold references
  rw [h]
  exact ite_self _

end Node

/-! ## Sightings grouped by their next segment -/

/-- What passes one of two tests that exclude each other, permuted. -/
theorem perm_filter_or {α : Type} {f g : α → Bool} (l : List α) (h : ∀ a ∈ l, f a = true → g a = false) :
    (l.filter f ++ l.filter g).Perm (l.filter fun a => f a || g a) := by
  induction l with
  | nil => exact List.Perm.refl _
  | cons a l ih =>
    obtain ⟨ha, hl⟩ := List.forall_mem_cons.mp h
    simp only [List.filter_cons]
    cases hf : f a with
    | true => simpa [ha hf] using ih hl
    | false =>
      cases g a with
      | true => simpa using List.perm_middle.trans ((ih hl).cons a)
      | false => simpa using ih hl

/-- Collecting a list group by group, for different keys, permutes the part of it that has one of the keys. -/
theorem perm_flatMap_filter {α : Type} (key : α → Option Text) {ks : List Text} (hks : ks.Nodup) (l : List α) :
    (ks.flatMap fun k => l.filter (key · = some k)).Perm (l.filter fun a => key a ∈ ks.map some) := by
  induction ks with
  | nil => simp
  | cons k ks ih =>
    obtain ⟨hnew, hks⟩ := List.nodup_cons.mp hks
    have hother : ∀ a ∈ l, decide (key a = some k) = true → decide (key a ∈ ks.map some) = false := by
      intro a _ ha
      simpa [of_decide_eq_true ha] using hnew
    have hsplit := perm_filter_or l hother
    simp only [← Bool.decide_or, ← List.mem_cons] at hsplit
    rw [List.flatMap_cons]
    exact ((ih hks).append_left _).trans hsplit

/-- **Each member has no key or one of the keys**: those without a key, and behind them group by group the
    others, are all members of the list. -/
theorem perm_groups {α : Type} (key : α → Option Text) {ks : List Text} (hks : ks.Nodup) {l : List α}
    (hall : ∀ a ∈ l, ∀ k, key a = some k → k ∈ ks) :
    (l.filter (key · = none) ++ ks.flatMap fun k => l.filter (key · = some k)).Perm l := by
  have hgroups := perm_flatMap_filter key hks l
  have hdisjoint : ∀ a ∈ l, decide (key a = none) = true → decide (key a ∈ ks.map some) = false := by
    intro a _ ha
    simp [of_decide_eq_true ha]
  have hevery : ∀ a ∈ l, (decide (key a = none) || decide (key a ∈ ks.map some)) = true := by
    intro a ha
    cases hkey : key a with
    | none => simp
    | some k => simp [hall a ha k hkey]
  have hsplit := perm_filter_or l hdisjoint
  rw [List.filter_eq_self.mpr hevery] at hsplit
  exact (hgroups.append_left _).trans hsplit

/-- **Each sighting ends at the node or has one next segment.** -/
theorem perm_grouped (seen : List Sighting) :
    (seen.filter (·.below = []) ++
      (nextSegments seen).flatMap fun s => seen.filter (·.below.head? = some s)).Perm seen := by
  have hnext : ∀ x ∈ seen, ∀ s, x.below.head? = some s → s ∈ nextSegments seen := by
    intro x hx s hs
    obtain ⟨rest, hbelow⟩ := List.head?_eq_some_iff.mp hs
    exact mem_nextSegments_iff.mpr ⟨x, hx, rest, hbelow.symm⟩
  have hgroups := perm_groups (fun x : Sighting => x.below.head?) (nodup_eraseDups _) hnext
  simp only [List.head?_eq_none_iff] at hgroups
  exact hgroups

/-! ## From nodes to the snapshot -/

/-- Where a tag was seen. -/
def Sighting.place (x : Sighting) : Location := ⟨x.file, x.range⟩

/-- Looking beneath a path keeps what begins with it, at its places. -/
theorem map_place_beneath (p : TagPath) (seen : List Sighting) :
    (seen.filterMap (·.beneath p)).map Sighting.place =
      (seen.filter (p <+: ·.below)).map Sighting.place := by
  induction seen with
  | nil => rfl
  | cons x seen ih =>
    rw [List.filterMap_cons, List.filter_cons]
    unfold Sighting.beneath at ih ⊢
    by_cases hx : p <+: x.below <;> simp [hx, ih, Sighting.place]

/-- A child sees what continues with its segment, at its places. -/
theorem map_place_descend (s : Text) (seen : List Sighting) :
    (descend s seen).map Sighting.place = (seen.filter (·.below.head? = some s)).map Sighting.place := by
  rw [descend_eq, map_place_beneath]
  congr 1
  apply List.filter_congr
  rintro ⟨file, below, range⟩ _
  cases below <;> simp [List.cons_prefix_cons, eq_comm]

/-- **A subtree lists each sighting once**, by induction on the depth: the places of each child are, in some
    order, those of what was handed on to it. -/
theorem perm_places_buildNode (sorting : Sorting) {depth : Nat} (path : TagPath) {seen : List Sighting}
    (hdepth : ∀ x ∈ seen, x.below.length ≤ depth) :
    (buildNode sorting depth path seen).places.Perm (seen.map Sighting.place) := by
  induction depth generalizing path seen with
  | zero =>
    -- no segments are left, so every sighting ends here
    have hall : seen.filter (·.below = []) = seen := by
      apply List.filter_eq_self.mpr
      intro x hx
      simpa using hdepth x hx
    rw [Node.places_eq, buildNode_locations, hall]
    show (seen.map Sighting.place ++ []).Perm (seen.map Sighting.place)
    rw [List.append_nil]
  | succ d ih =>
    let child (s : Text) : Text × Node := (s, buildNode sorting d (path ++ [s]) (descend s seen))
    have hchild : ∀ s ∈ nextSegments seen,
        (child s).2.places.Perm ((seen.filter (·.below.head? = some s)).map Sighting.place) := by
      intro s _
      rw [← map_place_descend]
      exact ih (path ++ [s]) (length_below_descend_le hdepth s)
    -- sorting siblings moves their subtrees as a whole
    have hsorted := (perm_children sorting (d + 1) path hdepth).flatMap_right fun c => c.2.places
    rw [List.flatMap_map] at hsorted
    have hgrouped := (perm_grouped seen).map Sighting.place
    rw [List.map_append, List.map_flatMap] at hgrouped
    rw [Node.places_eq, buildNode_locations]
    refine List.Perm.trans (List.Perm.append_left _ ?_) hgrouped
    exact hsorted.trans (List.Perm.flatMap_left _ hchild)

/-- The places of those tags of a snapshot that are a path or extend it, document by document. -/
def Index.placesBeneath (s : Index) (p : TagPath) : List Location :=
  s.toList.flatMap fun e => (e.2.occurrences.filter (p <+: ·.path)).map fun o => ⟨e.1, o.range⟩

/-- What is sighted in a snapshot is what its documents hold. -/
theorem perm_sightings (s : Index) : (sightings s).Perm (s.toList.flatMap fun e => e.2.sightings e.1) := by
  have hkeys : (s.keys.flatMap fun k => ((s.get? k).map (·.sightings k)).getD []) =
      s.toList.flatMap fun e => e.2.sightings e.1 := by
    show ((s.toList.map Prod.fst).flatMap fun k => ((s.get? k).map (·.sightings k)).getD []) = _
    rw [List.flatMap_map]
    apply List.flatMap_congr
    intro e he
    rw [OrderedMap.get?_eq_some_iff.mpr he]
    rfl
  rw [← hkeys]
  exact (Text.perm_sort _).flatMap_right _

/-- What is sighted beneath a path stands at the places that the snapshot has there. -/
theorem perm_placesBeneath (s : Index) (p : TagPath) :
    (((sightings s).filter (p <+: ·.below)).map Sighting.place).Perm (s.placesBeneath p) := by
  have hplaces : ((s.toList.flatMap fun e => e.2.sightings e.1).filter (p <+: ·.below)).map Sighting.place =
      s.placesBeneath p := by
    unfold Index.placesBeneath Record.sightings
    simp only [List.filter_flatMap, List.map_flatMap, List.filter_map, List.map_map]
    rfl
  rw [← hplaces]
  exact ((perm_sightings s).filter _).map _

theorem placesBeneath_eq_nil_iff {s : Index} {p : TagPath} :
    s.placesBeneath p = [] ↔ ¬∃ k q, s.HasTag k q ∧ p <+: q := by
  have hperm := perm_placesBeneath s p
  constructor
  · rintro hnil ⟨k, q, htag, hprefix⟩
    obtain ⟨x, hx, -, rfl⟩ := hasTag_iff.mp htag
    rw [hnil, List.perm_nil, List.map_eq_nil_iff, List.filter_eq_nil_iff] at hperm
    exact hperm x hx (decide_eq_true hprefix)
  · intro hnone
    have hempty : (sightings s).filter (p <+: ·.below) = [] := by
      rw [List.filter_eq_nil_iff]
      intro x hx hprefix
      exact hnone ⟨_, _, hasTag_iff.mpr ⟨x, hx, rfl, rfl⟩, of_decide_eq_true hprefix⟩
    rw [hempty] at hperm
    exact List.nil_perm.mp hperm

/-- **References with nested tags are what the snapshot holds at or below the path.** -/
theorem perm_references (s : Index) (sorting : Sorting) {p : TagPath} (hp : p ≠ []) :
    ((buildTree s sorting).references p true).Perm (s.placesBeneath p) := by
  cases hfind : (buildTree s sorting).find? p with
  | none =>
    have hnone : ¬∃ k q, s.HasTag k q ∧ p <+: q := by
      intro htag
      obtain ⟨n, hn⟩ := ((isAggregate_buildTree s sorting).leads p).mpr (.inr htag)
      cases hfind.symm.trans hn
    rw [Node.references_of_find?_eq_none hfind, placesBeneath_eq_nil_iff.mpr hnone]
  | some n =>
    obtain ⟨-, heq⟩ := (find?_buildTree s sorting p n).mp hfind
    have hdepth := length_below_beneath_le (depthOf_le_iff.mp (Nat.le_refl (depthOf (sightings s)))) p
    have hplaces := perm_places_buildNode sorting p hdepth
    rw [map_place_beneath, heq] at hplaces
    rw [Node.references_nested_eq hp hfind]
    exact hplaces.trans (perm_placesBeneath s p)

/-- **References with nested tags lose and repeat nothing.** In every tree they are the places of the node at
    the path and of all nodes beneath it, a node before its children, and nothing where no node is. The tree
    of a snapshot is built unless a tag has too many segments; there they are, in some order, the places of
    all tags of the snapshot that are the path or extend it, so another sorting only permutes them, and they
    are none if there is no such tag. -/
theorem references_lose_nothing {p : TagPath} (hp : p ≠ []) :
    (∀ root : Node, (root.find? p = none → root.references p true = []) ∧
      ∀ n, root.find? p = some n → root.references p true = n.places) ∧
    ∀ s : Index,
      (∀ sorting, buildTree? s sorting = none ↔ ∃ k q, s.HasTag k q ∧ mostSegments < q.length) ∧
      (∀ sorting root, buildTree? s sorting = some root →
        (root.references p true).Perm (s.placesBeneath p) ∧
          (root.references p true = [] ↔ ¬∃ k q, s.HasTag k q ∧ p <+: q)) ∧
      ∀ sorting sorting' root root', buildTree? s sorting = some root →
        buildTree? s sorting' = some root' →
          (root.references p true).Perm (root'.references p true) := by
  constructor
  · intro root
    exact ⟨fun h => Node.references_of_find?_eq_none h true, fun n => Node.references_nested_eq hp⟩
  · intro s
    refine ⟨buildTree?_eq_none_iff s, ?_, ?_⟩
    · intro sorting root hroot
      obtain rfl := eq_buildTree_of_buildTree? hroot
      have hperm := perm_references s sorting hp
      refine ⟨hperm, ?_⟩
      rw [← placesBeneath_eq_nil_iff]
      constructor
      · intro hnil
        rw [hnil] at hperm
        exact List.nil_perm.mp hperm
      · intro hnil
        rw [hnil] at hperm
        exact List.perm_nil.mp hperm
    · intro sorting sorting' root root' hroot hroot'
      obtain rfl := eq_buildTree_of_buildTree? hroot
      obtain rfl := eq_buildTree_of_buildTree? hroot'
      exact (perm_references s sorting hp).trans (perm_references s sorting' hp).symm

/-- The snapshot of one note, with a tag behind those that it nests. -/
def nestingNote : Index := .ofRecords [scanned "a.md" "#a/x #a/y #a"]

/-- In both directions of names the note's tag comes first, though it stands last in the note, and the nested
    tags change places. -/
theorem nestingNote_collected :
    ∃ up down, buildTree? nestingNote ⟨.name, .asc⟩ = some up ∧
      buildTree? nestingNote ⟨.name, .desc⟩ = some down ∧
      (up.references [['a']] true).map (·.range.start.character) = [10, 0, 5] ∧
      (down.references [['a']] true).map (·.range.start.character) = [10, 5, 0] ∧
      (up.references [['a']] true).Perm (down.references [['a']] true) ∧
      (down.references [['a']] true).Perm (nestingNote.placesBeneath [['a']]) := by
  have hdepth : depthOf (sightings nestingNote) = 2 := by cbv
  have hbuilt := @buildTree?_of_depthOf_le nestingNote (by rw [hdepth]; decide)
  have hpath : [['a']] ≠ ([] : TagPath) := by decide
  obtain ⟨-, hplaces, hperm⟩ := (references_lose_nothing hpath).2 nestingNote
  exact ⟨_, _, hbuilt _, hbuilt _, by cbv, by cbv, hperm _ _ _ _ (hbuilt _) (hbuilt _),
    (hplaces _ _ (hbuilt _)).1⟩

/-- A document with a tag that is too deep leaves the references of its outermost segment without an answer,
    though that tag stands beneath it. -/
theorem not_collected_deepSnapshot : deepSnapshot.placesBeneath [['a']] ≠ [] ∧
    ∀ sorting, (buildTree? deepSnapshot sorting).map (·.references [['a']] true) = none := by
  constructor
  · intro hnil
    apply placesBeneath_eq_nil_iff.mp hnil
    exact ⟨_, _, hasTag_deepSnapshot, List.replicate 1499 ['a'], rfl⟩
  · intro sorting
    rw [buildTree?_deepSnapshot]
    rfl

end HashtagIndex
