import HashtagIndex.Proofs.Counting
import HashtagIndex.Proofs.Discovery
import HashtagIndex.Proofs.Forgetting
import HashtagIndex.Proofs.Resolving

/-!
# `Proofs.Deleting` — what a scan for deleted paths leaves

A document is dropped if the steps to one of the deleted places lead to it (`Settings.Drops`). The scan tells
by comparing texts: the key is the text of the place, or goes on behind it and a slash. Since a written path
is resolved first, its text is that of a real place, and there the comparison is one of steps, for every key
(`dropsKey_iff`). The paths are taken one after the other, but each only leaves keys out, so that neither their
order nor their overlaps matter.

What is left is the old index without the dropped entries: the records are the same, in the same order, and
the tree of the index counts these and no others.

## Contents
- `Settings.Drops`, `dropsKey_iff`, `drops_toText_iff`: what is dropped.
- `mem_keys_of_mem_locations`: the places of a tree.
- `LeftBy`, `deletion_exact`, and a folder with neighbours of almost the same name.
-/

namespace HashtagIndex

namespace Settings

variable {s : Settings} {d : Disk} {written : List Text}

/-! ## What is dropped -/

/-- A key that the steps to one of some written paths lead to. -/
def Drops (s : Settings) (d : Disk) (written : List Text) (key : Text) : Prop :=
  ∃ w ∈ written, ∃ p, s.normalize d w = .ok p ∧ p.steps <+: Text.steps key

/-- What is asked of the places that written paths lead to need only be compared for real places. -/
theorem exists_place_congr (hroot : Components s.root) {P Q : PathName → Prop}
    (h : ∀ p : PathName, p.Real → (P p ↔ Q p)) :
    (∃ w ∈ written, ∃ p, s.normalize d w = .ok p ∧ P p) ↔
      ∃ w ∈ written, ∃ p, s.normalize d w = .ok p ∧ Q p := by
  apply exists_congr
  intro w
  apply and_congr_right
  intro _
  apply exists_congr
  intro p
  apply and_congr_right
  intro hp
  exact h p (Disk.real_of_canonical hroot hp)

theorem dropsKey_iff (hroot : Components s.root) {key : Text} :
    s.dropsKey d written key = true ↔ s.Drops d written key := by
  rw [dropsKey_eq_true]
  apply exists_place_congr hroot
  intro p hp
  exact hp.atOrBelow_iff

/-- Which real places are dropped: those whose parts go on from the parts of a deleted place. -/
theorem drops_toText_iff (hroot : Components s.root) {m : PathName} (hm : m.Real) :
    s.Drops d written m.toText ↔ ∃ w ∈ written, ∃ p, s.normalize d w = .ok p ∧
      (p.parts = [] ∨ p.anchor = m.anchor ∧ p.parts <+: m.parts) := by
  apply exists_place_congr hroot
  intro p hp
  exact hp.steps_prefix_iff hm

/-- The root resolves to itself. -/
theorem normalize_root (s : Settings) (d : Disk) : s.normalize d ['/'] = .ok (.ofPath []) := by
  have hreal : (PathName.ofPath []).Real := PathName.real_ofPath (List.forall_mem_nil _)
  exact Disk.canonical_toText hreal s.root

/-- Behind a slash everything is dropped with the root. -/
theorem drops_of_root (hmem : ['/'] ∈ written) {key : Text} (hkey : key.head? = some '/') :
    s.Drops d written key := by
  obtain ⟨t, rfl⟩ := List.head?_eq_some_iff.mp hkey
  refine ⟨_, hmem, _, s.normalize_root d, ?_⟩
  rw [Text.steps, if_neg (List.cons_ne_nil _ _), splitOn_slash]
  exact ⟨_, rfl⟩

end Settings

/-! ## The places of a tree -/

/-- The places of a tree are in the documents of its snapshot. -/
theorem mem_keys_of_mem_locations {s : Index} {sorting : Sorting} {n : Node}
    (hn : n ∈ (buildTree s sorting).preorder) {l : Location} (hl : l ∈ n.locations) : l.file ∈ s.keys := by
  obtain ⟨p, -, -, -, rfl⟩ := exists_buildNode hn
  rw [buildNode_locations, List.mem_map] at hl
  obtain ⟨y, hy, rfl⟩ := hl
  obtain ⟨x, hx, hxy⟩ := List.mem_filterMap.mp (List.mem_filter.mp hy).1
  obtain ⟨-, hfile, -⟩ := Sighting.beneath_eq_some_iff.mp hxy
  obtain ⟨r, hr, -⟩ := hasTag_iff.mpr ⟨x, hx, hfile, rfl⟩
  exact OrderedMap.mem_keys_iff.mpr ⟨r, hr⟩

/-! ## A scan for deleted paths -/

/-- What deleting some paths may leave of an index. The entries that are not dropped are there, as they were and
    in their order (`order`, `exact`). A document is dropped if its parts go on from those of a deleted place
    (`places`): the root drops whatever is behind a slash (`root`), and a place that nothing else is indexed
    below drops itself only (`alone`). A tree of what is left counts what is left, and has no place in a
    dropped document (`tree`). -/
structure LeftBy (s : Settings) (d : Disk) (written : List Text) (ix left : Index) : Prop where
  order : left.toList.Sublist ix.toList
  exact : ∀ e, e ∈ left.toList ↔ e ∈ ix.toList ∧ ¬s.Drops d written e.1
  places : ∀ m : PathName, m.Real → (m.toText ∈ left.keys ↔ m.toText ∈ ix.keys ∧
    ∀ w ∈ written, ∀ p, s.normalize d w = .ok p →
      ¬(p.parts = [] ∨ p.anchor = m.anchor ∧ p.parts <+: m.parts))
  root : ['/'] ∈ written → (∀ k ∈ ix.keys, k.head? = some '/') → left.toList = []
  alone : ∀ w p, written = [w] → s.normalize d w = .ok p →
    (∀ k ∈ ix.keys, p.steps <+: Text.steps k → k = p.toText) →
    ∀ e, e ∈ left.toList ↔ e ∈ ix.toList ∧ e.1 ≠ p.toText
  tree : ∀ sorting, (buildTree? left sorting = none ↔ ∃ k q, left.HasTag k q ∧ mostSegments < q.length) ∧
    ∀ root, buildTree? left sorting = some root → IsAggregate left root ∧
      ∀ n ∈ root.preorder, ∀ l ∈ n.locations, l.file ∈ ix.keys ∧ ¬s.Drops d written l.file

section Deletion

variable {s : Settings} (hroot : Components s.root) {d : Disk} {written : List Text} {ix : Index}
include hroot

theorem mem_toList_dropped (e : Text × Record) :
    e ∈ (ix.filterKeys fun k => !s.dropsKey d written k).toList ↔ e ∈ ix.toList ∧ ¬s.Drops d written e.1 := by
  show e ∈ ix.toList.filter (fun e => !s.dropsKey d written e.1) ↔ _
  rw [List.mem_filter, ← Settings.dropsKey_iff hroot, Bool.not_eq_true', Bool.not_eq_true]

theorem mem_keys_dropped (k : Text) :
    k ∈ (ix.filterKeys fun k => !s.dropsKey d written k).keys ↔ k ∈ ix.keys ∧ ¬s.Drops d written k := by
  rw [OrderedMap.keys_filterKeys, List.mem_filter, ← Settings.dropsKey_iff hroot, Bool.not_eq_true',
    Bool.not_eq_true]

/-- A single place drops itself and what the steps to it lead to. -/
theorem drops_singleton_iff {w : Text} {p : PathName} (hp : s.normalize d w = .ok p)
    (halone : ∀ k ∈ ix.keys, p.steps <+: Text.steps k → k = p.toText) {k : Text} (hk : k ∈ ix.keys) :
    s.Drops d [w] k ↔ k = p.toText := by
  have hreal : p.Real := Disk.real_of_canonical hroot hp
  constructor
  · rintro ⟨w', hw', p', hp', hprefix⟩
    obtain rfl := List.mem_singleton.mp hw'
    obtain rfl := Except.ok.inj (hp.symm.trans hp')
    exact halone k hk hprefix
  · rintro rfl
    refine ⟨w, List.mem_singleton.mpr rfl, p, hp, ?_⟩
    rw [hreal.steps_prefix_iff hreal]
    exact .inr ⟨rfl, List.prefix_rfl⟩

/-- Leaving out the dropped entries leaves what it should. -/
theorem leftBy_filterKeys : LeftBy s d written ix (ix.filterKeys fun k => !s.dropsKey d written k) := by
  refine ⟨List.filter_sublist, mem_toList_dropped hroot, ?_, ?_, ?_, ?_⟩
  · intro m hm
    rw [mem_keys_dropped hroot, Settings.drops_toText_iff hroot hm]
    push Not
    rfl
  · intro hslash habsolute
    apply List.eq_nil_iff_forall_not_mem.mpr
    intro e he
    obtain ⟨hin, hkept⟩ := (mem_toList_dropped hroot e).mp he
    exact hkept (Settings.drops_of_root hslash (habsolute _ (List.mem_map.mpr ⟨e, hin, rfl⟩)))
  · rintro w p rfl hp halone e
    rw [mem_toList_dropped hroot]
    apply and_congr_right
    intro hin
    exact not_congr (drops_singleton_iff hroot hp halone (List.mem_map.mpr ⟨e, hin, rfl⟩))
  · intro sorting
    refine ⟨buildTree?_eq_none_iff _ sorting, ?_⟩
    intro root hbuilt
    rw [eq_buildTree_of_buildTree? hbuilt]
    refine ⟨isAggregate_buildTree _ sorting, ?_⟩
    intro n hn l hl
    exact (mem_keys_dropped hroot l.file).mp (mem_keys_of_mem_locations hn hl)

/-- **Deletion removes exactly what is at or below the paths.** If all paths can be used, the scan comes out
    well, whatever the index, and leaves what is not at or below one of them. -/
theorem deletion_exact (hwritten : s.Usable d written) (old : List Text) (ix : Index) :
    ∃ left, s.scan d .fileDeleted written old ix = (left, .ok ()) ∧ LeftBy s d written ix left := by
  refine ⟨_, Settings.removePaths_eq hwritten ix, ?_⟩
  exact leftBy_filterKeys hroot

end Deletion

/-- A folder, a folder and a note with almost its name, and one note deep in the folder. -/
def neighbouringNotes : Index :=
  .ofRecords [scanned "/w/folder/deep/b.md" "#b", scanned "/w/folder2/x.md" "#x", scanned "/w/folder/a.md" "#a",
    scanned "/w/folder.md" "#y"]

/-- Deleting the folder, with paths that overlap, leaves its neighbours in their order. -/
theorem neighbouringNotes_left :
    ∃ left, vaultSettings.scan vaultDisk .fileDeleted ["folder/deep".toList, "./folder/".toList] [] neighbouringNotes =
        (left, .ok ()) ∧
      left.keys = ["/w/folder2/x.md".toList, "/w/folder.md".toList] ∧
      LeftBy vaultSettings vaultDisk ["folder/deep".toList, "./folder/".toList] neighbouringNotes left := by
  have hroot : Components vaultSettings.root := by decide
  have husable : vaultSettings.Usable vaultDisk ["folder/deep".toList, "./folder/".toList] := by
    have hdeep : vaultSettings.normalize vaultDisk "folder/deep".toList =
        .ok (.ofPath [['w'], "folder".toList, "deep".toList]) := by cbv
    have hfolder : vaultSettings.normalize vaultDisk "./folder/".toList =
        .ok (.ofPath [['w'], "folder".toList]) := by cbv
    intro w hw
    rcases List.mem_cons.mp hw with rfl | hw
    · exact ⟨_, hdeep⟩
    · obtain rfl := List.mem_singleton.mp hw
      exact ⟨_, hfolder⟩
  obtain ⟨left, hscan, hleft⟩ := deletion_exact hroot husable [] neighbouringNotes
  have hkeys : (vaultSettings.scan vaultDisk .fileDeleted ["folder/deep".toList, "./folder/".toList] []
      neighbouringNotes).1.keys = ["/w/folder2/x.md".toList, "/w/folder.md".toList] := by cbv
  rw [hscan] at hkeys
  exact ⟨left, hscan, hkeys, hleft⟩

end HashtagIndex
