import HashtagIndex.Proofs.Answering
import HashtagIndex.Proofs.Collecting

/-!
# `Proofs.Counting` — the counts of a node and those of its children

A node counts the distinct tags at or below it without looking at its children. Yet its count is that of its
children, taken together, and one more if it is a tag itself (`tagCount_buildNode`): the distinct paths below a
node fall apart by their next segment, and behind a segment they are the distinct paths below the child
(`length_filter_head?`). Documents do not fall apart like this, because one document may have tags below
several children. So the numbers of documents bound each other only (`fileCount_child_le`,
`fileCount_buildNode_le`).

Every node of a hierarchy is built in the same way from what lies beneath its path (`exists_buildNode`), hence
all this holds at every node; and the places of all nodes are the occurrences of the snapshot, one by one
(`length_places_buildTree`).

## Contents
- `Node.mem_preorder_iff`, `exists_buildNode`: the nodes of a hierarchy.
- `length_eraseDups_mono`, `length_eraseDups_le`: counting distinct members.
- `sum_children`, `length_filter_head?`, `tagCount_buildNode`, `fileCount_child_le`,
  `fileCount_buildNode_le`: a node and its children.
- `Node.CountsFit`, `AddsUp`, `addsUp_buildTree`: all nodes.
- `counts_add_up`, with a note that nests tags and a tag that is too deep.
-/

namespace HashtagIndex

/-! ## The nodes of a hierarchy -/

/-- The preorder of a node lists the node itself and all nodes beneath it. -/
theorem Node.mem_preorder_iff {n root : Node} : n ∈ root.preorder ↔ n = root ∨ n.Beneath root := by
  constructor
  · -- by induction on the node that is listed, whose children are smaller
    intro hn
    induction hsize : sizeOf root using Nat.strongRecOn generalizing root with
    | _ size ih =>
      subst hsize
      rw [preorder, List.mem_cons, List.mem_flatMap] at hn
      rcases hn with rfl | ⟨c, hc, hn⟩
      · exact .inl rfl
      · right
        rcases ih _ (sizeOf_child_lt hc) hn rfl with rfl | hbeneath
        · exact .child hc
        · exact .deeper hc hbeneath
  · have hchild : ∀ {m c : Node} {name : Text}, (name, c) ∈ m.children → ∀ n ∈ c.preorder, n ∈ m.preorder := by
      intro m c name hc n hn
      rw [preorder]
      exact List.mem_cons_of_mem _ (List.mem_flatMap.mpr ⟨_, hc, hn⟩)
    have hself : ∀ m : Node, m ∈ m.preorder := by
      intro m
      rw [preorder]
      exact List.mem_cons_self
    rintro (rfl | hbeneath)
    · exact hself n
    · induction hbeneath with
      | child hc => exact hchild hc _ (hself _)
      | deeper hc _ ih => exact hchild hc _ ih

/-- **Every node is built from what lies beneath its path**, and there something lies, unless it is the
    root. -/
theorem exists_buildNode {s : Index} {sorting : Sorting} {n : Node} (hn : n ∈ (buildTree s sorting).preorder) :
    ∃ p, (buildTree s sorting).find? p = some n ∧
      (n.Beneath (buildTree s sorting) → (sightings s).filterMap (·.beneath p) ≠ []) ∧
      (∀ y ∈ (sightings s).filterMap (·.beneath p), y.below.length ≤ depthOf (sightings s) - p.length) ∧
      n = buildNode sorting (depthOf (sightings s) - p.length) p ((sightings s).filterMap (·.beneath p)) := by
  have hdepth := depthOf_le_iff.mp (Nat.le_refl (depthOf (sightings s)))
  by_cases hbeneath : n.Beneath (buildTree s sorting)
  · obtain ⟨p, hp, hfind⟩ := find?_of_beneath hdepth hbeneath
    have hfind : (buildTree s sorting).find? p = some n := hfind
    obtain ⟨hreaches, heq⟩ := (find?_buildTree s sorting p n).mp hfind
    obtain ⟨k, q, htag, rest, hrest⟩ := hreaches.resolve_left hp
    obtain ⟨x, hx, -, hbelow⟩ := hasTag_iff.mp htag
    refine ⟨p, hfind, fun _ => ?_, length_below_beneath_le hdepth p, heq.symm⟩
    -- the tag that the path begins is sighted beneath the path
    have hy : x.beneath p = some ⟨x.file, rest, x.range⟩ :=
      Sighting.beneath_eq_some_iff.mpr ⟨hbelow.trans hrest.symm, rfl, rfl⟩
    exact List.ne_nil_of_mem (List.mem_filterMap.mpr ⟨x, hx, hy⟩)
  · have hroot : n = buildTree s sorting := (Node.mem_preorder_iff.mp hn).resolve_right hbeneath
    have hfind : (buildTree s sorting).find? [] = some n := by
      rw [hroot]
      rfl
    obtain ⟨-, heq⟩ := (find?_buildTree s sorting [] n).mp hfind
    exact ⟨[], hfind, fun h => absurd h hbeneath, length_below_beneath_le hdepth [], heq.symm⟩

/-! ## Counting distinct members -/

section Distinct

variable {α : Type} [BEq α] [LawfulBEq α] {l l' : List α}

/-- The distinct members of a list are no more than the entries of one that has all of them. -/
theorem length_eraseDups_le (h : l ⊆ l') : l.eraseDups.length ≤ l'.length := by
  apply (nodup_eraseDups l).length_le_of_subset
  intro a ha
  exact h (List.mem_eraseDups.mp ha)

/-- More members, more distinct ones. -/
theorem length_eraseDups_mono (h : l ⊆ l') : l.eraseDups.length ≤ l'.eraseDups.length := by
  apply length_eraseDups_le
  intro a ha
  exact List.mem_eraseDups.mpr (h ha)

end Distinct

/-! ## A node and its children -/

section Node

variable (sorting : Sorting) {depth : Nat} (path : TagPath) {seen : List Sighting}

/-- What is summed over the children is summed over the segments that follow. -/
theorem sum_children (hdepth : ∀ x ∈ seen, x.below.length ≤ depth) (f : Node → Nat) :
    ((buildNode sorting depth path seen).children.map fun c => f c.2).sum =
      ((nextSegments seen).map fun s =>
        f (buildNode sorting (depth - 1) (path ++ [s]) (descend s seen))).sum := by
  have hsum := ((perm_children sorting depth path hdepth).map fun c => f c.2).sum_nat
  rw [List.map_map] at hsum
  exact hsum

/-- The distinct paths that begin with a segment are as many as those that are left behind it. -/
theorem length_filter_head? (seen : List Sighting) (s : Text) :
    ((seen.map (·.below)).eraseDups.filter (·.head? = some s)).length =
      ((descend s seen).map (·.below)).eraseDups.length := by
  have hperm : ((seen.map (·.below)).eraseDups.filter (·.head? = some s)).Perm
      (((descend s seen).map (·.below)).eraseDups.map (s :: ·)) := by
    have hnodup : (((descend s seen).map (·.below)).eraseDups.map (s :: ·)).Nodup :=
      (nodup_eraseDups _).map (List.cons_injective)
    rw [List.perm_ext_iff_of_nodup ((nodup_eraseDups _).filter _) hnodup]
    intro q
    -- a path that begins with the segment is the segment in front of one that is left behind it
    simp only [List.mem_filter, List.mem_eraseDups, List.mem_map, decide_eq_true_eq]
    constructor
    · rintro ⟨⟨x, hx, rfl⟩, hhead⟩
      obtain ⟨rest, hbelow⟩ := List.head?_eq_some_iff.mp hhead
      exact ⟨rest, ⟨⟨x.file, rest, x.range⟩, mem_descend_iff.mpr ⟨x, hx, hbelow, rfl, rfl⟩, rfl⟩, hbelow.symm⟩
    · rintro ⟨_, ⟨y, hy, rfl⟩, rfl⟩
      obtain ⟨x, hx, hbelow, -, -⟩ := mem_descend_iff.mp hy
      exact ⟨⟨x, hx, hbelow⟩, rfl⟩
  rw [hperm.length_eq, List.length_map]

/-- A node is a tag itself exactly if it lists places. -/
theorem locations_buildNode_eq_nil_iff : (buildNode sorting depth path seen).locations = [] ↔
    [] ∉ seen.map (·.below) := by
  rw [buildNode_locations, List.map_eq_nil_iff, List.filter_eq_nil_iff]
  simp only [decide_eq_true_eq, List.mem_map, not_exists, not_and]

/-- **The tags of a node** are its own, if it is one, and those of its children: distinct paths fall apart by
    their first segment. -/
theorem tagCount_buildNode (hdepth : ∀ x ∈ seen, x.below.length ≤ depth) :
    (buildNode sorting depth path seen).tagCount =
      (if (buildNode sorting depth path seen).locations = [] then 0 else 1) +
        ((buildNode sorting depth path seen).children.map fun c => c.2.tagCount).sum := by
  have hnext : ∀ q ∈ (seen.map (·.below)).eraseDups, ∀ s, q.head? = some s → s ∈ nextSegments seen := by
    intro q hq s hs
    obtain ⟨x, hx, rfl⟩ := List.mem_map.mp (List.mem_eraseDups.mp hq)
    obtain ⟨rest, hbelow⟩ := List.head?_eq_some_iff.mp hs
    exact mem_nextSegments_iff.mpr ⟨x, hx, rest, hbelow.symm⟩
  have hsegments : (nextSegments seen).Nodup := nodup_eraseDups _
  have hgroups := (perm_groups List.head? hsegments hnext).length_eq
  -- of the distinct paths at most one has no first segment
  have hown : ((seen.map (·.below)).eraseDups.filter (·.head? = none)).length =
      if (buildNode sorting depth path seen).locations = [] then 0 else 1 := by
    have hcount : ((seen.map (·.below)).eraseDups.filter (·.head? = none)).length =
        (seen.map (·.below)).eraseDups.count [] := by
      rw [List.count, List.countP_eq_length_filter]
      congr 1
      apply List.filter_congr
      intro q _
      cases q <;> rfl
    rw [hcount]
    by_cases hmem : [] ∈ seen.map (·.below)
    · have hlocations := (@locations_buildNode_eq_nil_iff sorting depth path seen).not_left.mpr hmem
      rw [if_neg hlocations]
      exact List.count_eq_one_of_mem (nodup_eraseDups _) (List.mem_eraseDups.mpr hmem)
    · rw [if_pos ((locations_buildNode_eq_nil_iff sorting path).mpr hmem)]
      exact List.count_eq_zero.mpr (mt List.mem_eraseDups.mp hmem)
  rw [List.length_append, List.length_flatMap, hown] at hgroups
  simp only [length_filter_head?] at hgroups
  rw [sum_children sorting path hdepth, buildNode_tagCount, ← hgroups]
  simp only [buildNode_tagCount]

/-- A document with a tag below a child has one below the node. -/
theorem fileCount_child_le (hdepth : ∀ x ∈ seen, x.below.length ≤ depth) {c : Text × Node}
    (hc : c ∈ (buildNode sorting depth path seen).children) :
    c.2.fileCount ≤ (buildNode sorting depth path seen).fileCount := by
  rw [(perm_children sorting depth path hdepth).mem_iff, List.mem_map] at hc
  obtain ⟨s, -, rfl⟩ := hc
  rw [buildNode_fileCount, buildNode_fileCount]
  apply length_eraseDups_mono
  intro file hfile
  obtain ⟨y, hy, rfl⟩ := List.mem_map.mp hfile
  obtain ⟨x, hx, -, hxy, -⟩ := mem_descend_iff.mp hy
  exact List.mem_map.mpr ⟨x, hx, hxy⟩

/-- **The documents of a node** have its own tag, or one below a child. -/
theorem fileCount_buildNode_le (hdepth : ∀ x ∈ seen, x.below.length ≤ depth) :
    (buildNode sorting depth path seen).fileCount ≤
      ((buildNode sorting depth path seen).locations.map (·.file)).eraseDups.length +
        ((buildNode sorting depth path seen).children.map fun c => c.2.fileCount).sum := by
  have hfiles : seen.map (·.file) ⊆
      ((buildNode sorting depth path seen).locations.map (·.file)).eraseDups ++
        (nextSegments seen).flatMap fun s => ((descend s seen).map (·.file)).eraseDups := by
    intro file hfile
    obtain ⟨x, hx, rfl⟩ := List.mem_map.mp hfile
    rw [List.mem_append]
    -- the document has the tag of the node itself, or one that goes on to a child
    cases hbelow : x.below with
    | nil =>
      left
      rw [List.mem_eraseDups, buildNode_locations, List.map_map]
      exact List.mem_map.mpr ⟨x, List.mem_filter.mpr ⟨hx, decide_eq_true hbelow⟩, rfl⟩
    | cons s rest =>
      right
      have hs : s ∈ nextSegments seen := mem_nextSegments_iff.mpr ⟨x, hx, rest, hbelow.symm⟩
      have hy : (⟨x.file, rest, x.range⟩ : Sighting) ∈ descend s seen :=
        mem_descend_iff.mpr ⟨x, hx, hbelow, rfl, rfl⟩
      exact List.mem_flatMap.mpr ⟨s, hs, List.mem_eraseDups.mpr (List.mem_map.mpr ⟨_, hy, rfl⟩)⟩
  have hbound := length_eraseDups_le hfiles
  rw [List.length_append, List.length_flatMap] at hbound
  rw [sum_children sorting path hdepth, buildNode_fileCount]
  simp only [buildNode_fileCount]
  exact hbound

end Node

/-! ## All nodes -/

/-- The counts of a node fit those of its children. -/
structure Node.CountsFit (n : Node) : Prop where
  tagCount : n.tagCount = (if n.locations = [] then 0 else 1) + (n.children.map fun c => c.2.tagCount).sum
  child_le : ∀ c ∈ n.children, c.2.fileCount ≤ n.fileCount
  fileCount_le : n.fileCount ≤
    (n.locations.map (·.file)).eraseDups.length + (n.children.map fun c => c.2.fileCount).sum

/-- A hierarchy whose counts add up to what a snapshot holds. At every node they fit those of the children,
    below the root they count something, a node without children is a tag, and the places of all nodes are as
    many as the occurrences of the snapshot. -/
structure AddsUp (s : Index) (root : Node) : Prop where
  fit : ∀ n ∈ root.preorder, n.CountsFit
  counted : ∀ n : Node, n.Beneath root → 1 ≤ n.fileCount ∧ 1 ≤ n.tagCount
  leaf : ∀ n : Node, n.Beneath root → n.children = [] → n.locations ≠ []
  total : (root.preorder.map fun n => n.locations.length).sum = s.occurrenceCount

/-- **The places of all nodes** are as many as the occurrences of the snapshot. -/
theorem length_places_buildTree (s : Index) (sorting : Sorting) :
    ((buildTree s sorting).preorder.map fun n => n.locations.length).sum = s.occurrenceCount := by
  have hdepth := depthOf_le_iff.mp (Nat.le_refl (depthOf (sightings s)))
  have hplaces := (perm_places_buildNode sorting [] hdepth).length_eq
  have hsightings := (perm_sightings s).length_eq
  rw [List.length_map, hsightings] at hplaces
  have hlength : (buildTree s sorting).places.length =
      ((buildTree s sorting).preorder.map fun n => n.locations.length).sum := List.length_flatMap
  rw [← hlength]
  refine Eq.trans hplaces ?_
  -- each document is sighted once for each of its occurrences
  show (s.entries.flatMap fun e => e.2.sightings e.1).length =
    ((s.entries.map Prod.snd).flatMap (·.occurrences)).length
  rw [List.length_flatMap, List.length_flatMap, List.map_map]
  congr 1
  apply List.map_congr_left
  intro e _
  exact List.length_map _

/-- **The counts of the tree of a snapshot add up**, however siblings are sorted. -/
theorem addsUp_buildTree (s : Index) (sorting : Sorting) : AddsUp s (buildTree s sorting) := by
  have hcounted : ∀ n : Node, n.Beneath (buildTree s sorting) → 1 ≤ n.fileCount ∧ 1 ≤ n.tagCount := by
    intro n hn
    obtain ⟨p, -, hseen, -, rfl⟩ := exists_buildNode (Node.mem_preorder_iff.mpr (.inr hn))
    obtain ⟨y, ys, hy⟩ := List.exists_cons_of_ne_nil (hseen hn)
    rw [buildNode_fileCount, buildNode_tagCount, hy, List.map_cons, List.map_cons, List.eraseDups_cons,
      List.eraseDups_cons]
    exact ⟨Nat.succ_pos _, Nat.succ_pos _⟩
  have hfit : ∀ n ∈ (buildTree s sorting).preorder, n.CountsFit := by
    intro n hn
    obtain ⟨p, -, -, hdepth, rfl⟩ := exists_buildNode hn
    refine ⟨?_, ?_, ?_⟩
    · exact tagCount_buildNode sorting p hdepth
    · intro c hc
      exact fileCount_child_le sorting p hdepth hc
    · exact fileCount_buildNode_le sorting p hdepth
  refine ⟨hfit, hcounted, ?_, length_places_buildTree s sorting⟩
  intro n hn hchildren hlocations
  -- without children and places there would be no tags to count
  have htags := (hfit n (Node.mem_preorder_iff.mpr (.inr hn))).tagCount
  rw [hchildren, hlocations, if_pos rfl] at htags
  have hpos := (hcounted n hn).2
  simp only [List.map_nil, List.sum_nil] at htags
  omega

/-- **The counts add up at every node.** The tree of a snapshot is built unless a tag has too many segments, and
    then its counts add up to what the snapshot holds. A service reports the same number of occurrences. -/
theorem counts_add_up (s : Index) (sorting : Sorting) :
    (buildTree? s sorting = none ↔ ∃ k q, s.HasTag k q ∧ mostSegments < q.length) ∧
    (∀ root, buildTree? s sorting = some root → AddsUp s root) ∧
    ∀ (sv : Service) (reason : ScanReason) (key : Option SortKey) (order : Option SortOrder) (root : Node),
      sv.tree? key order = some root →
      (root.preorder.map fun n => n.locations.length).sum = (sv.summary reason).occurrences := by
  refine ⟨buildTree?_eq_none_iff s sorting, ?_, ?_⟩
  · intro root hroot
    rw [eq_buildTree_of_buildTree? hroot]
    exact addsUp_buildTree s sorting
  · intro sv reason key order root hroot
    rw [eq_buildTree_of_buildTree? hroot]
    exact length_places_buildTree sv.index _

/-- The outer tag of the note counts itself and the two tags that it nests. The one document of the note counts
    once, though it has tags below both children. -/
theorem nestingNote_counted :
    ∃ root n, buildTree? nestingNote ⟨.name, .asc⟩ = some root ∧ root.find? [['a']] = some n ∧
      n.locations.length = 1 ∧ n.tagCount = 3 ∧ n.children.map (·.2.tagCount) = [1, 1] ∧
      n.fileCount = 1 ∧ n.children.map (·.2.fileCount) = [1, 1] ∧ AddsUp nestingNote root := by
  have hdepth : depthOf (sightings nestingNote) = 2 := by cbv
  have hbuilt := buildTree?_of_depthOf_le (by rw [hdepth]; decide) ⟨.name, .asc⟩
  obtain ⟨-, hadds, -⟩ := counts_add_up nestingNote ⟨.name, .asc⟩
  exact ⟨_, _, hbuilt, by cbv, by cbv, by cbv, by cbv, by cbv, by cbv, hadds _ hbuilt⟩

/-- The one occurrence of a document whose tag is too deep is counted by the snapshot, and by no tree. -/
theorem not_counted_deepSnapshot : deepSnapshot.occurrenceCount = 1 ∧
    ∀ sorting, (buildTree? deepSnapshot sorting).map
      (fun root => (root.preorder.map fun n => n.locations.length).sum) ≠ some deepSnapshot.occurrenceCount := by
  refine ⟨rfl, ?_⟩
  intro sorting
  rw [buildTree?_deepSnapshot]
  exact nofun

end HashtagIndex
