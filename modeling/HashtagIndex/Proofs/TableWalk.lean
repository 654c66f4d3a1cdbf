import HashtagIndex.Proofs.Aggregation
import Mathlib.Data.List.Infix

/-!
# `Proofs.TableWalk` — the hierarchy by one walk over the occurrences

The hierarchy can be built without grouping anything. A table holds a row for each path met so far, to begin with
only for the root. One walk goes through the sightings, and for each of them from the root down to the path of its
tag: a path without a row receives one and becomes a child of the path in front of it, and each row on the way takes
down the document and the tag. The place goes to the row at the end. When the walk is over the rows are counted, and
the children of each are sorted, level by level (`tableTree`).

What the table holds can be said without the walk: at each path that a sighting begins with, and at the root, the row
of what was sighted beneath that path (`rowOf`, `Table.Holds`). The walk keeps this up sighting by sighting
(`Holds.record`), because taking down a sighting changes the rows on the way to its tag and no others (`get?_record`).
A row lists its children in the order in which they were met, and so does grouping; the two trees are the same
(`tableTree_eq`).

## Contents
- `Row`, `Table`, `Table.visit`, `Table.record`, `Table.walk`, `tableTree`: the walk.
- `Table.Linked`, `get?_visit`, `get?_visits`, `get?_record`: what one sighting does to the table.
- `rowOf`, `rowOf_concat`, `Table.Holds`, `Holds.record`, `holds_walk`: what the table holds.
- `Holds.node_eq`, `tableTree_eq`: the two trees.
-/

namespace HashtagIndex

/-! ## The walk -/

/-- A member of a list that stands for a set is put at the end, unless it is there. -/
def addOnce {α : Type} [BEq α] (a : α) (l : List α) : List α := if l.contains a then l else l ++ [a]

/-- What is taken down at a path: the names of the children in the order in which they were met, the documents and the
    tags seen at or below the path, and the places of its own tag. -/
@[ext] structure Row where
  children : List Text := []
  files : List Text := []
  tags : List TagPath := []
  locations : List Location := []
deriving Repr, DecidableEq

namespace Row

/-- Take down a child, if there is one. -/
def adopt (r : Row) (child : Option Text) : Row :=
  { r with
    children :=
      match child with
      | none => r.children
      | some s => addOnce s r.children }

/-- Take down the document and the tag of a sighting. -/
def see (x : Sighting) (r : Row) : Row :=
  { r with files := addOnce x.file r.files, tags := addOnce x.below r.tags }

/-- Take down the place of a sighting. -/
def place (x : Sighting) (r : Row) : Row := { r with locations := r.locations ++ [⟨x.file, x.range⟩] }

end Row

/-- The rows by path. -/
abbrev Table := OrderedMap TagPath Row

namespace Table

/-- Change the row of a path, if it has one. -/
def modify (t : Table) (p : TagPath) (f : Row → Row) : Table :=
  match t.get? p with
  | none => t
  | some r => t.insert p (f r)

/-- Give a path a row, unless it has one, and make it a child of the path in front of it. -/
def enter (t : Table) (p : TagPath) : Table :=
  match t.get? p with
  | some _ => t
  | none => (t.modify p.dropLast (·.adopt p.getLast?)).insert p {}

/-- Come to a path on the way to the tag of a sighting. -/
def visit (x : Sighting) (t : Table) (p : TagPath) : Table := (t.enter p).modify p (·.see x)

/-- Take down a sighting: come to all paths that its tag begins with, the shortest first, and put the place at the
    last one. -/
def record (t : Table) (x : Sighting) : Table :=
  (x.below.inits.foldl (visit x) t).modify x.below (·.place x)

/-- Take down all sightings, beginning with a row for the root. -/
def walk (seen : List Sighting) : Table := seen.foldl record (OrderedMap.empty.insert [] {})

/-- The node at a path, with its children sorted, down to `depth` levels. -/
def node (t : Table) (sorting : Sorting) (depth : Nat) (p : TagPath) : Node :=
  let r := (t.get? p).getD {}
  { name := p.getLast?.getD []
    parentPath := p.dropLast
    children :=
      match depth with
      | 0 => []
      | d + 1 => (r.children.map fun s => (s, t.node sorting d (p ++ [s]))).mergeSort sorting.le
    fileCount := r.files.length
    tagCount := r.tags.length
    locations := r.locations }

/-- The greatest length of a path with a row. -/
def depth (t : Table) : Nat := (t.keys.map List.length).foldl max 0

end Table

/-- The sorted hierarchy of the tags of a snapshot, by one walk over its occurrences. -/
def tableTree (s : Index) (sorting : Sorting) : Node :=
  let t := Table.walk (sightings s)
  t.node sorting t.depth []

/-! ## One sighting -/

/-- A row after the visits on the way to the tag of a sighting; `next` is the step taken from there. -/
def Row.seen (x : Sighting) (next : Option Text) (r : Row) : Row := (r.see x).adopt next

/-- A row on the way to the tag of a sighting, at the path `q`, after the sighting is taken down. -/
def Row.after (x : Sighting) (q : TagPath) (r : Row) : Row :=
  if q = x.below then (r.seen x x.below[q.length]?).place x else r.seen x x.below[q.length]?

/-- A child that was met before is not taken down again. -/
theorem Row.adopt_of_mem {r : Row} {s : Text} (h : s ∈ r.children) : r.adopt (some s) = r := by
  have hchildren : addOnce s r.children = r.children := if_pos (List.contains_iff_mem.mpr h)
  exact Row.ext hchildren rfl rfl rfl

namespace Table

variable {t : Table} {x : Sighting} {p q : TagPath} {s : Text}

theorem get?_modify (f : Row → Row) : (t.modify p f).get? q = if q = p then (t.get? p).map f else t.get? q := by
  unfold modify
  cases hp : t.get? p with
  | none =>
    by_cases hq : q = p
    · rw [if_pos hq, hq]
      exact hp
    · rw [if_neg hq]
  | some r => exact OrderedMap.get?_insert t p q (f r)

theorem enter_of_some {r : Row} (h : t.get? p = some r) : t.enter p = t := by
  unfold enter
  rw [h]

theorem enter_of_none (h : t.get? p = none) :
    t.enter p = (t.modify p.dropLast (·.adopt p.getLast?)).insert p {} := by
  unfold enter
  rw [h]

/-- A table in which the root has a row, and every other path has one exactly if it is a child of the path in front of
    it. -/
structure Linked (t : Table) : Prop where
  root : (t.get? []).isSome
  child : ∀ p s, s ∈ ((t.get? p).getD {}).children ↔ (t.get? (p ++ [s])).isSome

theorem get?_visit_root (hroot : (t.get? []).isSome) :
    (t.visit x []).get? q = if q = [] then some (((t.get? q).getD {}).see x) else t.get? q := by
  obtain ⟨r, hr⟩ := Option.isSome_iff_exists.mp hroot
  rw [visit, get?_modify, enter_of_some hr]
  split
  · next h => rw [h, hr]; rfl
  · rfl

/-- **To come to a path** takes down the sighting there, and the step in the row in front of it. -/
theorem get?_visit (hlinked : (t.get? (p ++ [s])).isSome → s ∈ ((t.get? p).getD {}).children) :
    (t.visit x (p ++ [s])).get? q = if q = p ++ [s] then some (((t.get? q).getD {}).see x)
      else if q = p then (t.get? p).map (·.adopt (some s)) else t.get? q := by
  rw [visit, get?_modify]
  cases hrow : t.get? (p ++ [s]) with
  | some r =>
    -- the row in front knows the step
    have hadopt : (t.get? p).map (·.adopt (some s)) = t.get? p := by
      rw [hrow] at hlinked
      cases hp : t.get? p with
      | none => rfl
      | some r' =>
        rw [hp] at hlinked
        have hchild : s ∈ r'.children := hlinked rfl
        exact congrArg some (Row.adopt_of_mem hchild)
    rw [enter_of_some hrow, hadopt]
    split
    · next h => rw [h, hrow]; rfl
    · split
      · next h => rw [h]
      · rfl
  | none =>
    rw [enter_of_none hrow, OrderedMap.get?_insert, OrderedMap.get?_insert, if_pos rfl, get?_modify,
      List.dropLast_concat, List.getLast?_concat]
    split
    · next h => rw [h, hrow]; rfl
    · rfl

/-- **On the way down a path** each row takes down the sighting, and the step that is taken from it. -/
theorem get?_visits (hlinked : t.Linked) : (p.inits.foldl (visit x) t).get? q =
    if q <+: p then some (((t.get? q).getD {}).seen x p[q.length]?) else t.get? q := by
  induction p using List.reverseRecOn generalizing q with
  | nil =>
    show (t.visit x []).get? q = _
    rw [get?_visit_root hlinked.root]
    simp only [List.prefix_nil]
    rfl
  | append_singleton p s ih =>
    have hnew : ¬p ++ [s] <+: p := by
      intro h
      have := h.length_le
      rw [List.length_append, List.length_singleton] at this
      omega
    have hinits : (p ++ [s]).inits = p.inits ++ [p ++ [s]] := by
      rw [List.inits_append]
      rfl
    have hhere : (p.inits.foldl (visit x) t).get? p = some (((t.get? p).getD {}).seen x none) := by
      rw [ih, if_pos List.prefix_rfl, List.getElem?_eq_none (Nat.le_refl _)]
    rw [hinits, List.foldl_append, List.foldl_cons, List.foldl_nil, get?_visit]
    · by_cases hq : q = p ++ [s]
      · rw [if_pos hq, hq, if_pos List.prefix_rfl, ih, if_neg hnew, List.getElem?_eq_none (Nat.le_refl _)]
        rfl
      rw [if_neg hq]
      by_cases hqp : q = p
      · rw [if_pos hqp, hqp, hhere, if_pos (List.prefix_append p [s]), List.getElem?_concat_length]
        rfl
      rw [if_neg hqp, ih]
      by_cases hbegins : q <+: p
      · have hlength : q.length < p.length :=
          lt_of_le_of_ne hbegins.length_le fun h => hqp (hbegins.eq_of_length h)
        rw [if_pos hbegins, if_pos (hbegins.trans (List.prefix_append p [s])), List.getElem?_append_left hlength]
      · rw [if_neg hbegins, if_neg (mt (List.prefix_concat_iff.mp ·) (not_or.mpr ⟨hq, hbegins⟩))]
    · rw [hhere, ih, if_neg hnew]
      exact (hlinked.child p s).mpr

/-- **To take down a sighting** changes the rows of the paths that its tag begins with, and no others. -/
theorem get?_record (hlinked : t.Linked) :
    (t.record x).get? q = if q <+: x.below then some (((t.get? q).getD {}).after x q) else t.get? q := by
  rw [record, get?_modify, get?_visits hlinked, get?_visits hlinked, if_pos List.prefix_rfl]
  by_cases hq : q = x.below
  · rw [if_pos hq, hq, if_pos List.prefix_rfl, Row.after, if_pos rfl]
    rfl
  · rw [if_neg hq, Row.after, if_neg hq]

end Table

/-! ## What the table holds -/

/-- The row of a path, from what lies beneath it. -/
def Row.ofBeneath (p : TagPath) (seen : List Sighting) : Row :=
  { children := nextSegments seen
    files := (seen.map (·.file)).eraseDups
    tags := (seen.map (·.below)).eraseDups.map (p ++ ·)
    locations := (seen.filter (·.below = [])).map fun y => ⟨y.file, y.range⟩ }

/-- The row of a path, from all that was sighted. -/
def rowOf (seen : List Sighting) (p : TagPath) : Row := .ofBeneath p (seen.filterMap (·.beneath p))

theorem eraseDups_concat {α : Type} [BEq α] [LawfulBEq α] (l : List α) (a : α) :
    (l ++ [a]).eraseDups = addOnce a l.eraseDups := by
  rw [List.eraseDups_append, addOnce, List.removeAll]
  by_cases ha : a ∈ l
  · simp [ha]
  · have hone : [a].eraseDups = [a] := eraseDups_eq_self (List.nodup_singleton a)
    simp [ha, hone]

theorem addOnce_map {α β : Type} [BEq α] [LawfulBEq α] [BEq β] [LawfulBEq β] {f : α → β}
    (hf : Function.Injective f) (a : α) (l : List α) : addOnce (f a) (l.map f) = (addOnce a l).map f := by
  have hcontains : (l.map f).contains (f a) = l.contains a := by
    rw [Bool.eq_iff_iff, List.contains_iff_mem, List.contains_iff_mem, List.mem_map_of_injective hf]
  rw [addOnce, addOnce, hcontains]
  split
  · rfl
  · rw [List.map_append, List.map_singleton]

section RowOf

variable {seen : List Sighting} {x : Sighting} {p : TagPath}

theorem nextSegments_concat (y : Sighting) : nextSegments (seen ++ [y]) =
    match y.below.head? with
    | none => nextSegments seen
    | some s => addOnce s (nextSegments seen) := by
  unfold nextSegments
  rw [List.filterMap_append]
  cases hhead : y.below.head? with
  | none => simp [hhead]
  | some s =>
    have hone : [y].filterMap (·.below.head?) = [s] := by simp [hhead]
    rw [hone, eraseDups_concat]

/-- One more sighting beneath a path adds to its row as taking the sighting down does. -/
theorem Row.ofBeneath_concat (p : TagPath) (y : Sighting) :
    Row.ofBeneath p (seen ++ [y]) = (Row.ofBeneath p seen).after { y with below := p ++ y.below } p := by
  have hnext : (p ++ y.below)[p.length]? = y.below.head? := by
    rw [List.getElem?_append_right (Nat.le_refl _), Nat.sub_self, List.head?_eq_getElem?]
  have hchildren : (Row.ofBeneath p (seen ++ [y])).children = _ := nextSegments_concat y
  have hfiles : (Row.ofBeneath p (seen ++ [y])).files = addOnce y.file (Row.ofBeneath p seen).files := by
    show ((seen ++ [y]).map (·.file)).eraseDups = addOnce y.file (seen.map (·.file)).eraseDups
    rw [List.map_append]
    exact eraseDups_concat _ _
  have htags : (Row.ofBeneath p (seen ++ [y])).tags = addOnce (p ++ y.below) (Row.ofBeneath p seen).tags := by
    show ((seen ++ [y]).map (·.below)).eraseDups.map (p ++ ·) =
      addOnce (p ++ y.below) ((seen.map (·.below)).eraseDups.map (p ++ ·))
    rw [addOnce_map (List.append_right_injective p), ← eraseDups_concat, List.map_append]
    rfl
  have hlocations : (Row.ofBeneath p (seen ++ [y])).locations =
      if p = p ++ y.below then (Row.ofBeneath p seen).locations ++ [⟨y.file, y.range⟩]
      else (Row.ofBeneath p seen).locations := by
    simp only [Row.ofBeneath, List.filter_append, List.map_append, List.self_eq_append_right]
    split
    · next h => simp [h]
    · next h => simp [h]
  rw [← hnext] at hchildren
  rw [Row.after]
  split
  · next h => exact Row.ext hchildren hfiles htags (hlocations.trans (if_pos h))
  · next h => exact Row.ext hchildren hfiles htags (hlocations.trans (if_neg h))

/-- **One more sighting** changes the rows of the paths that its tag begins with, and no others. -/
theorem rowOf_concat : rowOf (seen ++ [x]) p = if p <+: x.below then (rowOf seen p).after x p else rowOf seen p := by
  rw [rowOf, List.filterMap_append]
  split
  · next hbegins =>
    obtain ⟨rest, hbelow⟩ := hbegins
    have hone : x.beneath p = some { x with below := rest } :=
      Sighting.beneath_eq_some_iff.mpr ⟨hbelow.symm, rfl, rfl⟩
    rw [List.filterMap_cons_some hone, List.filterMap_nil, Row.ofBeneath_concat]
    show (Row.ofBeneath p _).after { x with below := p ++ rest } p = _
    rw [hbelow]
    rfl
  · next hbegins =>
    have hnone : x.beneath p = none := if_neg hbegins
    rw [List.filterMap_cons_none hnone, List.filterMap_nil, List.append_nil]
    rfl

theorem mem_children_rowOf {s : Text} : s ∈ (rowOf seen p).children ↔ ∃ x ∈ seen, p ++ [s] <+: x.below := by
  show s ∈ nextSegments (seen.filterMap (·.beneath p)) ↔ _
  rw [mem_nextSegments_iff]
  simp only [List.mem_filterMap, Sighting.beneath_eq_some_iff]
  constructor
  · rintro ⟨y, ⟨x, hx, hbelow, -⟩, hbegins⟩
    exact ⟨x, hx, hbelow ▸ (List.prefix_append_right_inj p).mpr hbegins⟩
  · rintro ⟨x, hx, rest, hbelow⟩
    rw [List.append_assoc] at hbelow
    exact ⟨{ x with below := [s] ++ rest }, ⟨x, hx, hbelow.symm, rfl, rfl⟩, List.prefix_append _ _⟩

/-- Where nothing was sighted the row is empty. -/
theorem rowOf_of_not_beneath (h : ¬∃ x ∈ seen, p <+: x.below) : rowOf seen p = {} := by
  have hnone : seen.filterMap (·.beneath p) = [] := by
    apply List.filterMap_eq_nil_iff.mpr
    exact fun x hx => if_neg fun hbegins => h ⟨x, hx, hbegins⟩
  rw [rowOf, hnone]
  rfl

end RowOf

/-- The table after a walk: the root, and each path that a tag begins with, has the row of what was sighted beneath. -/
def Table.Holds (t : Table) (seen : List Sighting) : Prop :=
  ∀ p, t.get? p = if p = [] ∨ ∃ x ∈ seen, p <+: x.below then some (rowOf seen p) else none

namespace Table

variable {t : Table} {seen : List Sighting} {x : Sighting} {p : TagPath}

theorem Holds.getD (h : t.Holds seen) (p : TagPath) : (t.get? p).getD {} = rowOf seen p := by
  rw [h p]
  split
  · rfl
  · next hnot => exact (rowOf_of_not_beneath (not_or.mp hnot).2).symm

theorem Holds.isSome (h : t.Holds seen) : (t.get? p).isSome ↔ p = [] ∨ ∃ x ∈ seen, p <+: x.below := by
  rw [h p]
  split
  · next hp => exact iff_of_true rfl hp
  · next hp => exact iff_of_false nofun hp

theorem Holds.linked (h : t.Holds seen) : t.Linked := by
  refine ⟨h.isSome.mpr (.inl rfl), fun p s => ?_⟩
  rw [h.getD, mem_children_rowOf, h.isSome]
  exact (or_iff_right (List.append_ne_nil_of_right_ne_nil p (List.cons_ne_nil s []))).symm

/-- **One step of the walk.** -/
theorem Holds.record (h : t.Holds seen) (x : Sighting) : (t.record x).Holds (seen ++ [x]) := by
  intro p
  rw [get?_record h.linked, h.getD, rowOf_concat, h p]
  simp only [List.mem_append, List.mem_singleton, or_and_right, exists_or, exists_eq_left]
  by_cases hp : p <+: x.below
  · simp [hp]
  · simp [hp]

/-- **What the table holds after the walk.** -/
theorem holds_walk (seen : List Sighting) : (walk seen).Holds seen := by
  induction seen using List.reverseRecOn with
  | nil =>
    intro p
    rw [walk, List.foldl_nil, OrderedMap.get?_insert]
    simp only [List.not_mem_nil, false_and, exists_false, or_false]
    rfl
  | append_singleton seen x ih =>
    rw [walk, List.foldl_concat]
    exact ih.record x

example : (walk [⟨['n'], [['a'], ['b']], ⟨⟨0, 0⟩, ⟨0, 4⟩⟩⟩, ⟨['m'], [['a']], ⟨⟨0, 0⟩, ⟨0, 2⟩⟩⟩]).get? [['a']] =
    some ⟨[['b']], [['n'], ['m']], [[['a'], ['b']], [['a']]], [⟨['m'], ⟨⟨0, 0⟩, ⟨0, 2⟩⟩⟩]⟩ := by decide

end Table

/-! ## The two trees -/

/-- To descend from a path is to look beneath the longer path. -/
theorem descend_beneath (p : TagPath) (s : Text) (seen : List Sighting) :
    descend s (seen.filterMap (·.beneath p)) = seen.filterMap (·.beneath (p ++ [s])) := by
  rw [descend_eq, List.filterMap_filterMap]
  refine List.filterMap_congr fun x _ => Option.ext fun y => ?_
  simp only [Option.bind_eq_some_iff, Sighting.beneath_eq_some_iff]
  constructor
  · rintro ⟨z, ⟨hz, hfile, hrange⟩, hy, hfile', hrange'⟩
    exact ⟨by rw [hz, hy, List.append_assoc], hfile.trans hfile', hrange.trans hrange'⟩
  · rintro ⟨hy, hfile, hrange⟩
    exact ⟨{ x with below := [s] ++ y.below }, ⟨by rw [hy, List.append_assoc], rfl, rfl⟩, rfl, hfile, hrange⟩

/-- **The nodes of a table are those that grouping builds.** -/
theorem Table.Holds.node_eq {t : Table} {seen : List Sighting} (h : t.Holds seen) (sorting : Sorting) (depth : Nat)
    (p : TagPath) : t.node sorting depth p = buildNode sorting depth p (seen.filterMap (·.beneath p)) := by
  induction depth generalizing p with
  | zero =>
    rw [node, h.getD, buildNode]
    simp only [rowOf, Row.ofBeneath, List.length_map]
  | succ depth ih =>
    rw [node, h.getD, buildNode]
    simp only [rowOf, Row.ofBeneath, List.length_map, ih, descend_beneath]

theorem Table.Holds.depth_eq {t : Table} {seen : List Sighting} (h : t.Holds seen) : t.depth = depthOf seen := by
  refine eq_of_forall_ge_iff fun m => ?_
  rw [depthOf_le_iff, Table.depth, foldl_max_le_iff]
  simp only [Nat.zero_le, true_and, List.forall_mem_map]
  have hkeys : ∀ p, p ∈ t.keys ↔ p = [] ∨ ∃ x ∈ seen, p <+: x.below := fun p => by
    rw [← h.isSome, OrderedMap.mem_keys_iff, Option.isSome_iff_exists]
  constructor
  · exact fun hm x hx => hm x.below ((hkeys _).mpr (.inr ⟨x, hx, List.prefix_rfl⟩))
  · intro hm p hp
    rcases (hkeys p).mp hp with rfl | ⟨x, hx, hbegins⟩
    · exact Nat.zero_le m
    · exact hbegins.length_le.trans (hm x hx)

/-- **The walk and grouping build the same hierarchy.** -/
theorem tableTree_eq (s : Index) (sorting : Sorting) : tableTree s sorting = buildTree s sorting := by
  have hholds := Table.holds_walk (sightings s)
  rw [tableTree, hholds.node_eq, hholds.depth_eq, filterMap_beneath_nil]
  rfl

end HashtagIndex
