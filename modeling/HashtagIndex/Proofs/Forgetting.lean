import HashtagIndex.Proofs.Aggregation
import HashtagIndex.Proofs.Scanning

/-!
# `Proofs.Forgetting` — the hierarchy forgets how the index was filled

An index remembers in which order its documents came, and a node lists its places and its children in
some order, too. None of this lets the history of the index through. Documents are visited in the order
of their keys, and what look-ups find determines the keys (`sort_keys_eq_of_get?`), hence everything
that is sighted, in its order (`sightings_eq_of_get?`). Children are sorted, and the ordering tells any
two of them apart: equal ranks go by name, and siblings have different names. So there is one order that
children can be listed in, whatever order they were met in (`eq_children_of_perm`).

## Contents
- `sort_keys_eq_of_get?`, `sightings_eq_of_get?`: snapshots that agree as mappings.
- `Sorting.rank`, `Sorting.le_iff`: the ordering of siblings, with its laws.
- `pairwise_children`, `eq_children_of_perm`: children have one order.
- `hierarchy_forgets`, and an index that was filled by detours.
-/

namespace HashtagIndex

/-! ## Snapshots that agree as mappings -/

section Snapshots

variable {s s' : Index}

/-- Snapshots in which every look-up finds the same have the same keys in code point order. -/
theorem sort_keys_eq_of_get? (h : ∀ k, s.get? k = s'.get? k) :
    Text.sort s.keys = Text.sort s'.keys := by
  apply Text.eq_of_mem_iff (Text.pairwise_sort _) (Text.pairwise_sort _)
  · exact (Text.perm_sort _).nodup_iff.mpr s.nodup_keys
  · exact (Text.perm_sort _).nodup_iff.mpr s'.nodup_keys
  · intro k
    rw [Text.mem_sort, Text.mem_sort, OrderedMap.mem_keys_iff, OrderedMap.mem_keys_iff, h]

/-- **Visiting documents by key** makes what is sighted depend on look-ups only. -/
theorem sightings_eq_of_get? (h : ∀ k, s.get? k = s'.get? k) : sightings s = sightings s' := by
  unfold sightings
  rw [sort_keys_eq_of_get? h]
  apply List.flatMap_congr
  intro k _
  rw [h]

end Snapshots

/-! ## The ordering of siblings -/

namespace Sorting

/-- What siblings are compared by first: nothing, or a count, where the greater one may come first. -/
def rank (sorting : Sorting) (n : Node) : Int :=
  let signed (count : Nat) : Int :=
    match sorting.order with
    | .asc => count
    | .desc => -count
  match sorting.key with
  | .name => 0
  | .countFiles => signed n.fileCount
  | .countTags => signed n.tagCount

/-- What siblings of one rank are compared by: their names, backwards only where names are the key. -/
def nameLe (sorting : Sorting) (s t : Text) : Bool :=
  if sorting = ⟨.name, .desc⟩ then Text.le t s else Text.le s t

variable (sorting : Sorting) {a b c : Text × Node}

/-- **The ordering in one formula**: by rank, and then by name. -/
theorem le_iff : sorting.le a b = true ↔ sorting.rank a.2 < sorting.rank b.2 ∨
    sorting.rank a.2 = sorting.rank b.2 ∧ sorting.nameLe a.1 b.1 = true := by
  obtain ⟨key, order⟩ := sorting
  cases key <;> cases order <;> simp [le, rank, nameLe]

theorem nameLe_total (s t : Text) : sorting.nameLe s t = true ∨ sorting.nameLe t s = true := by
  rw [← Bool.or_eq_true]
  unfold nameLe
  split
  · exact Text.le_total t s
  · exact Text.le_total s t

theorem nameLe_trans {r s t : Text} (hrs : sorting.nameLe r s = true)
    (hst : sorting.nameLe s t = true) : sorting.nameLe r t = true := by
  unfold nameLe at *
  by_cases hback : sorting = ⟨.name, .desc⟩
  · rw [if_pos hback] at *
    exact Text.le_trans hst hrs
  · rw [if_neg hback] at *
    exact Text.le_trans hrs hst

theorem nameLe_antisymm {s t : Text} (hst : sorting.nameLe s t = true)
    (hts : sorting.nameLe t s = true) : s = t := by
  unfold nameLe at *
  by_cases hback : sorting = ⟨.name, .desc⟩
  · rw [if_pos hback] at *
    exact Text.le_antisymm hts hst
  · rw [if_neg hback] at *
    exact Text.le_antisymm hst hts

theorem le_total (a b : Text × Node) : (sorting.le a b || sorting.le b a) = true := by
  rw [Bool.or_eq_true, le_iff, le_iff]
  rcases lt_trichotomy (sorting.rank a.2) (sorting.rank b.2) with h | h | h
  · exact .inl (.inl h)
  · rcases sorting.nameLe_total a.1 b.1 with hname | hname
    · exact .inl (.inr ⟨h, hname⟩)
    · exact .inr (.inr ⟨h.symm, hname⟩)
  · exact .inr (.inl h)

theorem le_trans (hab : sorting.le a b = true) (hbc : sorting.le b c = true) :
    sorting.le a c = true := by
  rw [le_iff] at *
  have hnames := @nameLe_trans sorting a.1 b.1 c.1
  rcases hab with hab | ⟨hab, hnab⟩
  · exact .inl (by omega)
  · rcases hbc with hbc | ⟨hbc, hnbc⟩
    · exact .inl (by omega)
    · exact .inr ⟨by omega, hnames hnab hnbc⟩

/-- Siblings either of which may stand in front of the other have one name. -/
theorem name_eq_of_le (hab : sorting.le a b = true) (hba : sorting.le b a = true) : a.1 = b.1 := by
  rw [le_iff] at hab hba
  have hranks : sorting.rank a.2 = sorting.rank b.2 := by omega
  apply sorting.nameLe_antisymm
  · exact (hab.resolve_left (by omega)).2
  · exact (hba.resolve_left (by omega)).2

end Sorting

/-! ## Children have one order -/

section Children

variable (sorting : Sorting) (depth : Nat) (path : TagPath) (seen : List Sighting)

/-- Siblings are sorted. -/
theorem pairwise_children :
    (buildNode sorting depth path seen).children.Pairwise fun a b => sorting.le a b = true := by
  cases depth with
  | zero => exact List.Pairwise.nil
  | succ d =>
    apply List.pairwise_mergeSort
    · intro a b c hab hbc
      exact sorting.le_trans hab hbc
    · exact sorting.le_total

/-- **Children have one order**: however they are listed, sorting them gives this list. -/
theorem eq_children_of_perm {cs : List (Text × Node)}
    (hperm : cs.Perm (buildNode sorting depth path seen).children)
    (hsorted : cs.Pairwise fun a b => sorting.le a b = true) :
    cs = (buildNode sorting depth path seen).children := by
  apply hperm.eq_of_pairwise _ hsorted (pairwise_children sorting depth path seen)
  intro a b ha hb hab hba
  have hnames := nodup_names_children sorting depth path seen
  exact List.inj_on_of_nodup_map hnames (hperm.mem_iff.mp ha) hb (sorting.name_eq_of_le hab hba)

end Children

/-! ## The hierarchy forgets -/

theorem buildTree_eq_of_get? {s s' : Index} (h : ∀ k, s.get? k = s'.get? k) (sorting : Sorting) :
    buildTree s sorting = buildTree s' sorting := by
  unfold buildTree
  rw [sightings_eq_of_get? h]

theorem buildTree?_eq_of_get? {s s' : Index} (h : ∀ k, s.get? k = s'.get? k) (sorting : Sorting) :
    buildTree? s sorting = buildTree? s' sorting := by
  unfold buildTree?
  rw [sightings_eq_of_get? h, buildTree_eq_of_get? h]

/-- **The hierarchy forgets history.** Two indexes in which every look-up finds the same have the same
    hierarchy in every ordering, down to the order of places and of siblings; and at every node any other
    listing of its children is sorted to the one there is. So services with such indexes and one
    ordering answer every question about the hierarchy alike. -/
theorem hierarchy_forgets {s s' : Index} (h : ∀ k, s.get? k = s'.get? k) :
    (∀ sorting, buildTree s sorting = buildTree s' sorting ∧
      buildTree? s sorting = buildTree? s' sorting ∧
      ∀ p n, (buildTree s sorting).find? p = some n → ∀ cs : List (Text × Node),
        cs.Perm n.children → cs.mergeSort sorting.le = n.children) ∧
    ∀ sv sv' : Service, sv.index = s → sv'.index = s' → sv.sorting = sv'.sorting →
      (∀ key order, sv.tree? key order = sv'.tree? key order) ∧
      (∀ typed, sv.complete? typed = sv'.complete? typed) ∧
      ∀ tag nested, sv.references? tag nested = sv'.references? tag nested := by
  constructor
  · intro sorting
    refine ⟨buildTree_eq_of_get? h sorting, buildTree?_eq_of_get? h sorting, ?_⟩
    intro p n hn cs hcs
    obtain ⟨-, rfl⟩ := (find?_buildTree s sorting p n).mp hn
    apply eq_children_of_perm
    · exact (List.mergeSort_perm cs sorting.le).trans hcs
    · apply List.pairwise_mergeSort
      · intro a b c hab hbc
        exact sorting.le_trans hab hbc
      · exact sorting.le_total
  · rintro sv sv' rfl rfl hsorting
    have htree : ∀ key order, sv.tree? key order = sv'.tree? key order := by
      intro key order
      unfold Service.tree?
      rw [hsorting, buildTree?_eq_of_get? h]
    refine ⟨htree, ?_, ?_⟩
    · intro typed
      unfold Service.complete?
      rw [htree]
    · intro tag nested
      unfold Service.references?
      rw [htree]

/-! ## Two shelves -/

/-- The record of a document with a text. -/
def scanned (key text : String) : Record := ⟨key.toList, parseTags text.toList key.toList⟩

/-- Two documents, stored in the order of their keys. -/
def straightShelf : Index := .ofRecords [scanned "a.md" "#x #y", scanned "b.md" "#y #x/z"]

/-- The same documents: one came first with another text, and a third one was there for a while. -/
def detourShelf : Index :=
  let met := Index.ofRecords [scanned "b.md" "#gone", scanned "c.md" "#gone", scanned "a.md" "#x #y"]
  Index.upsert (met.erase "c.md".toList) (scanned "b.md" "#y #x/z")

/-- The shelves list their documents in different orders, and their tags with equal counts stand in one. -/
theorem shelves_forget :
    straightShelf.keys = ["a.md".toList, "b.md".toList] ∧
      detourShelf.keys = ["b.md".toList, "a.md".toList] ∧
      ∀ sorting, buildTree straightShelf sorting = buildTree detourShelf sorting := by
  have hget : ∀ k, straightShelf.get? k = detourShelf.get? k := by
    intro k
    simp only [straightShelf, detourShelf, Index.ofRecords, List.foldl_cons, List.foldl_nil,
      get?_upsert, OrderedMap.get?_erase, scanned]
    by_cases hb : k = "b.md".toList
    · rw [if_pos hb, if_pos hb]
    · rw [if_neg hb, if_neg hb]
      by_cases hc : k = "c.md".toList
      · have ha : k ≠ "a.md".toList := by
          rw [hc]
          decide
        rw [if_neg ha, if_pos hc]
        rfl
      · simp only [if_neg hb, if_neg hc]
  refine ⟨by decide, by decide, ?_⟩
  intro sorting
  exact ((hierarchy_forgets hget).1 sorting).1

end HashtagIndex
