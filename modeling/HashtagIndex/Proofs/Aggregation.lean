import HashtagIndex.Tag.Query
import HashtagIndex.Workspace.Rename
import HashtagIndex.Proofs.MapViews
import HashtagIndex.Proofs.TextOrder
import Mathlib.Data.Set.Card

/-!
# `Proofs.Aggregation` — the hierarchy is the aggregate of the snapshot

A node is built from the sightings at or below it and hands on to each child those that continue with
the child's segment. Going down a path therefore composes the hand-overs, and what arrives at the end
can be said at once: the sightings whose path begins with the given one, without that beginning
(`Sighting.beneath`). Everything about a node follows from this:

* **Where a path leads** (`find?_buildNode`): to the node built from what lies beneath the path, exactly
  if something does. Sorting siblings moves them, but their names stay different, so look-ups do not see
  it (`lookup_children`).
* **What stands there** (`isAggregate_buildTree`): numbers of documents and of tags as sizes of sets, and
  the places in the order of the keys.

Sorting goes down the hierarchy level by level, and a tag with too many segments makes it fail. Then nothing
is built at all (`buildTree?_eq_some_iff`).

## Contents
- `Index.HasTag`, `mem_sightings_iff`: the tags of a snapshot.
- `Sighting.beneath`, `mem_descend_iff`, `filterMap_beneath_cons`, `length_below_beneath_le`: what lies
  beneath a path.
- `mem_nextSegments_iff`, `perm_children`, `lookup_children`, `find?_buildNode`: where a path leads.
- `encard_setOf_mem`: a list without repetition counts a set.
- `locations_beneath`: the places of one path.
- `IsAggregate`, `isAggregate_buildTree`; `buildTree?_eq_some_iff`, `buildTree?_eq_none_iff`: which
  hierarchies are built.
- `hierarchy_aggregates`, and a snapshot with a tag that is too deep.
-/

namespace HashtagIndex

/-! ## The tags of a snapshot -/

/-- The document stored under a key has a tag with a path. -/
def Index.HasTag (s : Index) (key : Text) (q : TagPath) : Prop :=
  ∃ r, s.get? key = some r ∧ ∃ o ∈ r.occurrences, o.path = q

/-- What is sighted in a snapshot are the occurrences of its records, each under the record's key. -/
theorem mem_sightings_iff {s : Index} {x : Sighting} :
    x ∈ sightings s ↔
      ∃ r, s.get? x.file = some r ∧ ∃ o ∈ r.occurrences, o.path = x.below ∧ o.range = x.range := by
  unfold sightings
  rw [List.mem_flatMap]
  constructor
  · rintro ⟨key, _, hx⟩
    cases hget : s.get? key with
    | none => simp [hget] at hx
    | some r =>
      rw [hget] at hx
      obtain ⟨o, ho, rfl⟩ := List.mem_map.mp hx
      exact ⟨r, hget, o, ho, rfl, rfl⟩
  · rintro ⟨r, hget, o, ho, hpath, hrange⟩
    refine ⟨x.file, Text.mem_sort.mpr (OrderedMap.mem_keys_iff.mpr ⟨r, hget⟩), ?_⟩
    rw [hget]
    exact List.mem_map.mpr ⟨o, ho, by rw [hpath, hrange]⟩

/-- A document and a path are sighted together if the document has a tag with that path. -/
theorem hasTag_iff {s : Index} {key : Text} {q : TagPath} :
    s.HasTag key q ↔ ∃ x ∈ sightings s, x.file = key ∧ x.below = q := by
  constructor
  · rintro ⟨r, hget, o, ho, hpath⟩
    exact ⟨⟨key, q, o.range⟩, mem_sightings_iff.mpr ⟨r, hget, o, ho, hpath, rfl⟩, rfl, rfl⟩
  · rintro ⟨x, hx, rfl, rfl⟩
    obtain ⟨r, hget, o, ho, hpath, _⟩ := mem_sightings_iff.mp hx
    exact ⟨r, hget, o, ho, hpath⟩

/-! ## Beneath a path -/

/-- A sighting seen from the node at a path, if it lies at or below that node. -/
def Sighting.beneath (p : TagPath) (x : Sighting) : Option Sighting :=
  if p <+: x.below then some { x with below := x.below.drop p.length } else none

theorem Sighting.beneath_eq_some_iff {p : TagPath} {x y : Sighting} :
    x.beneath p = some y ↔ x.below = p ++ y.below ∧ x.file = y.file ∧ x.range = y.range := by
  obtain ⟨file, below, range⟩ := x
  unfold Sighting.beneath
  constructor
  · intro h
    split at h
    · next hprefix =>
      obtain ⟨rest, rfl⟩ := hprefix
      obtain rfl := Option.some.inj h
      exact ⟨by rw [List.drop_left], rfl, rfl⟩
    · cases h
  · rintro ⟨rfl, rfl, rfl⟩
    rw [if_pos (List.prefix_append ..), List.drop_left]

/-- Beneath the root lies everything. -/
theorem filterMap_beneath_nil (seen : List Sighting) : seen.filterMap (·.beneath []) = seen := by
  have hsome : ∀ x : Sighting, x.beneath [] = some x := fun x =>
    Sighting.beneath_eq_some_iff.mpr ⟨rfl, rfl, rfl⟩
  simp only [hsome, List.filterMap_some]

/-- One step down a path, and then the rest of it. -/
theorem filterMap_beneath_cons (s : Text) (p : TagPath) (seen : List Sighting) :
    (descend s seen).filterMap (·.beneath p) = seen.filterMap (·.beneath (s :: p)) := by
  unfold descend
  rw [List.filterMap_filterMap]
  refine List.filterMap_congr ?_
  rintro ⟨file, below, range⟩ _
  cases below with
  | nil => simp [Sighting.beneath]
  | cons head rest =>
    by_cases hs : head = s
    · subst hs
      simp [Sighting.beneath, List.cons_prefix_cons]
    · have hs' : s ≠ head := Ne.symm hs
      simp [Sighting.beneath, List.cons_prefix_cons, hs, hs']

/-- Descending by a segment is looking beneath the path of that one segment. -/
theorem descend_eq (s : Text) (seen : List Sighting) :
    descend s seen = seen.filterMap (·.beneath [s]) := by
  rw [← filterMap_beneath_cons, filterMap_beneath_nil]

theorem mem_descend_iff {s : Text} {seen : List Sighting} {y : Sighting} :
    y ∈ descend s seen ↔ ∃ x ∈ seen, x.below = s :: y.below ∧ x.file = y.file ∧ x.range = y.range := by
  rw [descend_eq, List.mem_filterMap]
  simp only [Sighting.beneath_eq_some_iff, List.singleton_append]

/-- Beneath a path, sightings are not as deep by the length of the path. -/
theorem length_below_beneath_le {depth : Nat} {seen : List Sighting}
    (hdepth : ∀ x ∈ seen, x.below.length ≤ depth) (p : TagPath) :
    ∀ y ∈ seen.filterMap (·.beneath p), y.below.length ≤ depth - p.length := by
  intro y hy
  obtain ⟨x, hx, hbeneath⟩ := List.mem_filterMap.mp hy
  have hbound := hdepth x hx
  rw [(Sighting.beneath_eq_some_iff.mp hbeneath).1, List.length_append] at hbound
  omega

theorem length_below_descend_le {depth : Nat} {seen : List Sighting}
    (hdepth : ∀ x ∈ seen, x.below.length ≤ depth) (s : Text) :
    ∀ y ∈ descend s seen, y.below.length ≤ depth - 1 := by
  rw [descend_eq]
  exact length_below_beneath_le hdepth [s]

theorem mem_nextSegments_iff {s : Text} {seen : List Sighting} :
    s ∈ nextSegments seen ↔ ∃ x ∈ seen, [s] <+: x.below := by
  unfold nextSegments
  rw [List.mem_eraseDups, List.mem_filterMap]
  constructor
  · rintro ⟨x, hx, hhead⟩
    obtain ⟨rest, hbelow⟩ := List.head?_eq_some_iff.mp hhead
    exact ⟨x, hx, rest, hbelow.symm⟩
  · rintro ⟨x, hx, rest, hbelow⟩
    exact ⟨x, hx, by rw [← hbelow]; rfl⟩

/-! ## Where a path leads -/

section BuildNode

variable (sorting : Sorting) (depth : Nat) (path : TagPath) (seen : List Sighting)

theorem buildNode_name : (buildNode sorting depth path seen).name = path.getLast?.getD [] := by
  cases depth <;> rfl

theorem buildNode_parentPath : (buildNode sorting depth path seen).parentPath = path.dropLast := by
  cases depth <;> rfl

theorem buildNode_fileCount :
    (buildNode sorting depth path seen).fileCount = (seen.map (·.file)).eraseDups.length := by
  cases depth <;> rfl

theorem buildNode_tagCount :
    (buildNode sorting depth path seen).tagCount = (seen.map (·.below)).eraseDups.length := by
  cases depth <;> rfl

theorem buildNode_locations : (buildNode sorting depth path seen).locations =
    (seen.filter (·.below = [])).map fun x => ⟨x.file, x.range⟩ := by
  cases depth <;> rfl

/-- Siblings have different names. -/
theorem nodup_names_children :
    ((buildNode sorting depth path seen).children.map Prod.fst).Nodup := by
  cases depth with
  | zero => exact List.nodup_nil
  | succ d =>
    let child (s : Text) : Text × Node := (s, buildNode sorting d (path ++ [s]) (descend s seen))
    show ((((nextSegments seen).map child).mergeSort sorting.le).map Prod.fst).Nodup
    have hperm := (List.mergeSort_perm ((nextSegments seen).map child) sorting.le).map Prod.fst
    have hnames : ((nextSegments seen).map child).map Prod.fst = nextSegments seen := by
      rw [List.map_map]
      exact List.map_id _
    rw [hperm.nodup_iff, hnames]
    exact nodup_eraseDups _

end BuildNode

/-- Among entries with different keys, a key leads to the value it stands with. -/
theorem lookup_eq_some_iff_mem {es : List (Text × Node)} (hes : (es.map Prod.fst).Nodup) {k : Text}
    {v : Node} : es.lookup k = some v ↔ (k, v) ∈ es := by
  induction es with
  | nil => simp
  | cons e es ih =>
    obtain ⟨k', v'⟩ := e
    obtain ⟨hnew, hes⟩ := List.nodup_cons.mp hes
    rw [List.mem_cons]
    by_cases hk : k = k'
    · subst hk
      have hno : (k, v) ∉ es := fun hmem => hnew (List.mem_map.mpr ⟨_, hmem, rfl⟩)
      simp [hno, eq_comm]
    · have hbeq : (k == k') = false := beq_eq_false_iff_ne.mpr hk
      simp [List.lookup_cons, hbeq, hk, ih hes]

/-- **A node has a child for each segment that follows**, built from what lies below that segment, and no
    other children; the ordering moves them. -/
theorem perm_children (sorting : Sorting) (depth : Nat) (path : TagPath) {seen : List Sighting}
    (hdepth : ∀ x ∈ seen, x.below.length ≤ depth) :
    (buildNode sorting depth path seen).children.Perm ((nextSegments seen).map fun s =>
      (s, buildNode sorting (depth - 1) (path ++ [s]) (descend s seen))) := by
  cases depth with
  | zero =>
    -- nothing lies below, so no segment follows
    have hnone : nextSegments seen = [] := by
      apply List.eq_nil_iff_forall_not_mem.mpr
      intro s hs
      obtain ⟨x, hx, hprefix⟩ := mem_nextSegments_iff.mp hs
      have hlength := hprefix.length_le
      have hbound := hdepth x hx
      rw [List.length_singleton] at hlength
      omega
    rw [hnone]
    exact List.Perm.refl _
  | succ d => exact List.mergeSort_perm _ _

/-- Looking up a segment finds the child that is built for it. -/
theorem lookup_children (sorting : Sorting) (depth : Nat) (path : TagPath) {seen : List Sighting}
    (hdepth : ∀ x ∈ seen, x.below.length ≤ depth) (s : Text) :
    (buildNode sorting depth path seen).children.lookup s =
      if s ∈ nextSegments seen then
        some (buildNode sorting (depth - 1) (path ++ [s]) (descend s seen))
      else none := by
  have hnames := nodup_names_children sorting depth path seen
  have hperm := perm_children sorting depth path hdepth
  apply Option.ext
  intro v
  rw [lookup_eq_some_iff_mem hnames, hperm.mem_iff, List.mem_map, Option.ite_none_right_eq_some]
  constructor
  · rintro ⟨t, ht, heq⟩
    obtain ⟨rfl, rfl⟩ := Prod.mk.inj heq
    exact ⟨ht, rfl⟩
  · rintro ⟨hs, hv⟩
    exact ⟨s, hs, by rw [Option.some.inj hv]⟩

/-- **A path leads to the node of what lies beneath it**, exactly if something does. -/
theorem find?_buildNode (sorting : Sorting) (p : TagPath) :
    ∀ (depth : Nat) (path : TagPath) (seen : List Sighting),
      (∀ x ∈ seen, x.below.length ≤ depth) →
      (buildNode sorting depth path seen).find? p =
        if p = [] ∨ ∃ x ∈ seen, p <+: x.below then
          some (buildNode sorting (depth - p.length) (path ++ p) (seen.filterMap (·.beneath p)))
        else none := by
  induction p with
  | nil =>
    intro depth path seen _
    rw [if_pos (Or.inl rfl), filterMap_beneath_nil, List.append_nil, List.length_nil, Nat.sub_zero]
    rfl
  | cons s p ih =>
    intro depth path seen hdepth
    unfold Node.find?
    rw [lookup_children sorting depth path hdepth s]
    by_cases hs : s ∈ nextSegments seen
    · rw [if_pos hs]
      show (buildNode sorting (depth - 1) (path ++ [s]) (descend s seen)).find? p = _
      have hdepth' := length_below_descend_le hdepth s
      have hreaches : (p = [] ∨ ∃ y ∈ descend s seen, p <+: y.below) ↔
          (s :: p = [] ∨ ∃ x ∈ seen, s :: p <+: x.below) := by
        constructor
        · rintro (rfl | ⟨y, hy, hprefix⟩)
          · exact Or.inr (mem_nextSegments_iff.mp hs)
          · obtain ⟨x, hx, hbelow, _⟩ := mem_descend_iff.mp hy
            exact Or.inr ⟨x, hx, by rw [hbelow]; exact List.cons_prefix_cons.mpr ⟨rfl, hprefix⟩⟩
        · rintro (hnil | ⟨⟨file, below, range⟩, hx, rest, hbelow⟩)
          · cases hnil
          · exact Or.inr ⟨⟨file, p ++ rest, range⟩,
              mem_descend_iff.mpr ⟨_, hx, hbelow.symm, rfl, rfl⟩, List.prefix_append ..⟩
      have hlength : depth - 1 - p.length = depth - (s :: p).length := by
        rw [List.length_cons]; omega
      rw [ih _ _ _ hdepth', filterMap_beneath_cons, List.append_assoc, List.singleton_append, hlength]
      simp only [hreaches]
    · have hnone : ¬(s :: p = [] ∨ ∃ x ∈ seen, s :: p <+: x.below) := by
        rintro (hnil | ⟨x, hx, rest, hbelow⟩)
        · cases hnil
        · exact hs (mem_nextSegments_iff.mpr ⟨x, hx, p ++ rest, by rw [← hbelow]; rfl⟩)
      rw [if_neg hs, if_neg hnone]

theorem foldl_max_le_iff {ns : List Nat} {a m : Nat} : ns.foldl max a ≤ m ↔ a ≤ m ∧ ∀ n ∈ ns, n ≤ m := by
  induction ns generalizing a with
  | nil => simp
  | cons n ns ih => rw [List.foldl_cons, ih, Nat.max_le, List.forall_mem_cons, and_assoc]

/-- A depth is enough for sightings exactly if it is enough for each of them. -/
theorem depthOf_le_iff {seen : List Sighting} {m : Nat} :
    depthOf seen ≤ m ↔ ∀ x ∈ seen, x.below.length ≤ m := by
  unfold depthOf
  rw [foldl_max_le_iff]
  simp

/-- Where a path leads in the hierarchy of a snapshot. -/
theorem find?_buildTree (s : Index) (sorting : Sorting) (p : TagPath) (n : Node) :
    (buildTree s sorting).find? p = some n ↔
      (p = [] ∨ ∃ k q, s.HasTag k q ∧ p <+: q) ∧
        buildNode sorting (depthOf (sightings s) - p.length) p
          ((sightings s).filterMap (·.beneath p)) = n := by
  have hfind := find?_buildNode sorting p (depthOf (sightings s)) [] (sightings s)
    (depthOf_le_iff.mp (Nat.le_refl _))
  have hreaches : (∃ x ∈ sightings s, p <+: x.below) ↔ ∃ k q, s.HasTag k q ∧ p <+: q := by
    constructor
    · rintro ⟨x, hx, hprefix⟩
      exact ⟨x.file, x.below, hasTag_iff.mpr ⟨x, hx, rfl, rfl⟩, hprefix⟩
    · rintro ⟨k, q, htag, hprefix⟩
      obtain ⟨x, hx, _, rfl⟩ := hasTag_iff.mp htag
      exact ⟨x, hx, hprefix⟩
  unfold buildTree
  rw [hfind, List.nil_append, Option.ite_none_right_eq_some, Option.some.injEq, hreaches]

/-! ## What stands at a path -/

/-- The distinct members of a list are as many as the set of its members has elements. -/
theorem encard_setOf_mem {α : Type} [BEq α] [LawfulBEq α] (l : List α) :
    ((l.eraseDups.length : ℕ) : ℕ∞) = {a | a ∈ l}.encard := by
  classical
  have hset : {a | a ∈ l} = ((l.eraseDups.toFinset : Finset α) : Set α) := by
    ext a
    simp
  rw [hset, Set.encard_coe_eq_coe_finsetCard, List.toFinset_card_of_nodup (nodup_eraseDups l)]

/-- The places of a tag, as the node at its path lists them. -/
theorem locations_beneath (s : Index) (p : TagPath) (key : Text) :
    (((((s.get? key).map (·.sightings key)).getD []).filterMap (·.beneath p)).filter
        (·.below = [])).map (fun x => Location.mk x.file x.range) =
      (occurrencesOf s p key).map fun o => ⟨key, o.range⟩ := by
  unfold occurrencesOf
  cases s.get? key with
  | none => rfl
  | some r =>
    show ((((r.occurrences.map fun o => Sighting.mk key o.path o.range).filterMap
      (·.beneath p)).filter (·.below = [])).map fun x => Location.mk x.file x.range) =
        (r.occurrences.filter (·.path = p)).map fun o => ⟨key, o.range⟩
    induction r.occurrences with
    | nil => rfl
    | cons o os ih =>
      rw [List.map_cons, List.filterMap_cons, List.filter_cons]
      by_cases hpath : o.path = p
      · have hbeneath : (Sighting.mk key o.path o.range).beneath p = some ⟨key, [], o.range⟩ :=
          Sighting.beneath_eq_some_iff.mpr ⟨by simp [hpath], rfl, rfl⟩
        simp only [hbeneath, decide_eq_true hpath, decide_true, if_true, List.filter_cons,
          List.map_cons, ih]
      · cases hbeneath : (Sighting.mk key o.path o.range).beneath p with
        | none => simp only [hpath, decide_false, Bool.false_eq_true, if_false, ih]
        | some y =>
          -- a sighting strictly beneath the path has segments left
          have hne : y.below ≠ [] := by
            intro hnil
            have hbelow := (Sighting.beneath_eq_some_iff.mp hbeneath).1
            rw [hnil, List.append_nil] at hbelow
            exact hpath hbelow
          simp only [hpath, hne, decide_false, Bool.false_eq_true, if_false, List.filter_cons, ih]

/-- The documents of what lies beneath a path are those with a tag that extends it. -/
theorem setOf_file_beneath (s : Index) (p : TagPath) :
    {k | k ∈ ((sightings s).filterMap (·.beneath p)).map (·.file)} =
      {k | ∃ q, s.HasTag k q ∧ p <+: q} := by
  ext k
  simp only [Set.mem_ofPred_eq, List.mem_map, List.mem_filterMap, hasTag_iff,
    Sighting.beneath_eq_some_iff]
  constructor
  · rintro ⟨y, ⟨x, hx, hbelow, hfile, _⟩, rfl⟩
    exact ⟨x.below, ⟨x, hx, hfile, rfl⟩, y.below, hbelow.symm⟩
  · rintro ⟨q, ⟨x, hx, rfl, rfl⟩, rest, hbelow⟩
    exact ⟨⟨x.file, rest, x.range⟩, ⟨x, hx, hbelow.symm, rfl, rfl⟩, rfl⟩

/-- The paths of what lies beneath a path, put behind it, are the tags that extend it. -/
theorem image_below_beneath (s : Index) (p : TagPath) :
    (p ++ ·) '' {q | q ∈ ((sightings s).filterMap (·.beneath p)).map (·.below)} =
      {q | (∃ k, s.HasTag k q) ∧ p <+: q} := by
  ext q
  simp only [Set.mem_ofPred_eq, Set.mem_image, List.mem_map, List.mem_filterMap, hasTag_iff,
    Sighting.beneath_eq_some_iff]
  constructor
  · rintro ⟨_, ⟨y, ⟨x, hx, hbelow, _, _⟩, rfl⟩, rfl⟩
    exact ⟨⟨x.file, x, hx, rfl, hbelow⟩, List.prefix_append ..⟩
  · rintro ⟨⟨k, x, hx, rfl, rfl⟩, rest, hbelow⟩
    exact ⟨rest, ⟨⟨x.file, rest, x.range⟩, ⟨x, hx, hbelow.symm, rfl, rfl⟩, rfl⟩, hbelow⟩

/-- A hierarchy is the aggregate of a snapshot. A path leads to a node exactly if it is empty or a tag of
    some document extends it. The node stands at that path, counts the documents and the distinct tags that
    extend it, and lists the places of the tag itself by document and then by position. -/
structure IsAggregate (s : Index) (root : Node) : Prop where
  leads : ∀ p, (∃ n, root.find? p = some n) ↔ p = [] ∨ ∃ k q, s.HasTag k q ∧ p <+: q
  named : ∀ p n, root.find? p = some n → p ≠ [] → p = n.parentPath ++ [n.name]
  fileCount : ∀ p n, root.find? p = some n →
    (n.fileCount : ℕ∞) = {k | ∃ q, s.HasTag k q ∧ p <+: q}.encard
  tagCount : ∀ p n, root.find? p = some n →
    (n.tagCount : ℕ∞) = {q | (∃ k, s.HasTag k q) ∧ p <+: q}.encard
  locations : ∀ p n, root.find? p = some n →
    ∃ ks : List Text, ks.Perm s.keys ∧ (ks.Pairwise fun j k => Text.le j k = true) ∧
      n.locations = ks.flatMap fun k => (occurrencesOf s p k).map fun o => ⟨k, o.range⟩

/-- **The tree of a snapshot is its aggregate**, however its siblings are sorted. -/
theorem isAggregate_buildTree (s : Index) (sorting : Sorting) : IsAggregate s (buildTree s sorting) := by
  refine ⟨fun p => ?_, fun p n hn hp => ?_, fun p n hn => ?_, fun p n hn => ?_, fun p n hn => ?_⟩
  · simp only [find?_buildTree, exists_and_left, exists_eq', and_true]
  all_goals obtain ⟨_, rfl⟩ := (find?_buildTree s sorting p n).mp hn
  · rw [buildNode_name, buildNode_parentPath, List.getLast?_eq_some_getLast hp, Option.getD_some,
      List.dropLast_append_getLast]
  · rw [buildNode_fileCount, encard_setOf_mem, setOf_file_beneath]
  · rw [buildNode_tagCount, encard_setOf_mem, ← image_below_beneath,
      (List.append_right_injective p).encard_image]
  · refine ⟨Text.sort s.keys, Text.perm_sort _, Text.pairwise_sort _, ?_⟩
    unfold sightings
    rw [buildNode_locations, List.filterMap_flatMap, List.filter_flatMap, List.map_flatMap]
    exact List.flatMap_congr fun k _ => locations_beneath s p k

/-- The tree is built unless a tag has too many segments. -/
theorem buildTree?_eq_some_iff (s : Index) (sorting : Sorting) :
    buildTree? s sorting = some (buildTree s sorting) ↔
      ∀ k q, s.HasTag k q → q.length ≤ mostSegments := by
  unfold buildTree?
  rw [Option.ite_none_right_eq_some, and_iff_left rfl, depthOf_le_iff]
  constructor
  · rintro h k q htag
    obtain ⟨x, hx, _, rfl⟩ := hasTag_iff.mp htag
    exact h x hx
  · intro h x hx
    exact h x.file x.below (hasTag_iff.mpr ⟨x, hx, rfl, rfl⟩)

theorem buildTree?_of_depthOf_le {s : Index} (h : depthOf (sightings s) ≤ mostSegments) (sorting : Sorting) :
    buildTree? s sorting = some (buildTree s sorting) := by
  unfold buildTree?
  rw [if_pos h]

theorem eq_buildTree_of_buildTree? {s : Index} {sorting : Sorting} {root : Node}
    (h : buildTree? s sorting = some root) : root = buildTree s sorting := by
  unfold buildTree? at h
  split at h
  · exact (Option.some.inj h).symm
  · cases h

/-- No tree is built exactly if some tag has too many segments. -/
theorem buildTree?_eq_none_iff (s : Index) (sorting : Sorting) :
    buildTree? s sorting = none ↔ ∃ k q, s.HasTag k q ∧ mostSegments < q.length := by
  constructor
  · intro hnone
    by_contra hshort
    push Not at hshort
    rw [(buildTree?_eq_some_iff s sorting).mpr hshort] at hnone
    cases hnone
  · rintro ⟨k, q, htag, hlong⟩
    rw [Option.eq_none_iff_forall_ne_some]
    intro root hroot
    rw [eq_buildTree_of_buildTree? hroot, buildTree?_eq_some_iff] at hroot
    have hshort := hroot k q htag
    omega

/-- **The hierarchy is the aggregate of the snapshot.** It is built unless a tag has too many segments, and
    whenever it is built, it says about every path what the snapshot holds. -/
theorem hierarchy_aggregates (s : Index) (sorting : Sorting) :
    ((∃ root, buildTree? s sorting = some root) ∨ ∃ k q, s.HasTag k q ∧ mostSegments < q.length) ∧
      ∀ root, buildTree? s sorting = some root → IsAggregate s root := by
  refine ⟨?_, fun root hroot => ?_⟩
  · by_cases hshort : ∀ k q, s.HasTag k q → q.length ≤ mostSegments
    · exact .inl ⟨_, (buildTree?_eq_some_iff s sorting).mpr hshort⟩
    · push Not at hshort
      exact .inr hshort
  · rw [eq_buildTree_of_buildTree? hroot]
    exact isAggregate_buildTree s sorting

/-! ## A tag that is too deep -/

/-- A path of many more segments than a hierarchy is built for. -/
def deepPath : TagPath := List.replicate 1500 ['a']

/-- A snapshot of one document, with a tag at that path. -/
def deepSnapshot : Index :=
  .ofRecords [⟨"a.md".toList, [⟨deepPath, "a.md".toList, ⟨⟨0, 0⟩, ⟨0, 3000⟩⟩⟩]⟩]

theorem hasTag_deepSnapshot : deepSnapshot.HasTag "a.md".toList deepPath :=
  ⟨_, rfl, _, List.mem_singleton.mpr rfl, rfl⟩

theorem mostSegments_lt_deepPath : mostSegments < deepPath.length := by
  rw [deepPath, List.length_replicate, mostSegments]
  omega

theorem buildTree?_deepSnapshot (sorting : Sorting) : buildTree? deepSnapshot sorting = none :=
  (buildTree?_eq_none_iff _ sorting).mpr ⟨_, _, hasTag_deepSnapshot, mostSegments_lt_deepPath⟩

/-- No hierarchy is built for a document with such a tag, however siblings are sorted: not even its root
    can be looked up. -/
theorem not_built_deepSnapshot : deepSnapshot.HasTag "a.md".toList deepPath ∧
    ∀ sorting, buildTree? deepSnapshot sorting = none := by
  refine ⟨hasTag_deepSnapshot, fun sorting => ?_⟩
  rw [Option.eq_none_iff_forall_ne_some]
  intro root hroot
  rw [eq_buildTree_of_buildTree? hroot, buildTree?_eq_some_iff] at hroot
  exact absurd (hroot _ _ hasTag_deepSnapshot) (not_le.mpr mostSegments_lt_deepPath)

end HashtagIndex
