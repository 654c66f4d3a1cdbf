import HashtagIndex.Proofs.Deleting
import HashtagIndex.Proofs.Grounds
import HashtagIndex.Proofs.Upkeep

/-!
# `Proofs.PathSets` — the paths of a scan are a set

A scan for changed paths has two stages: what the old paths lead to is dropped, and then what the new paths
stand for is read again (`scan_staged`). The first stage is finished before the second one begins, so what an
index holds afterwards for a document depends on whether it was read again, and else on whether it was dropped
(`AfterScan`). Either is a question about all paths together. Hence the order of the paths does not matter, nor
how often one is listed, nor how it is spelled, nor which old path belongs to which new one; and what a second
scan finds is what the first one left (`path_lists_are_sets`).

Reading fails only at a name with a null character. No such name is read, because no written path with one is
resolved, and no link has one in its target.

## Contents
- `Disk.TargetsUsable`, `keeps_noNul`, `noNul_of_resolve`, `noNul_of_expandPaths`: no null characters.
- `Settings.readAgain`, `AfterScan`, `scan_staged`: one scan.
- `Settings.SamePaths`, `readAgain_congr`, `drops_congr`: other lists with the same paths.
- `path_lists_are_sets`, and two notes that change names.
-/

namespace HashtagIndex

/-! ## No null characters -/

/-- A text without null characters. -/
def NoNul (t : Text) : Prop := '\x00' ∉ t

instance (t : Text) : Decidable (NoNul t) := inferInstanceAs (Decidable ('\x00' ∉ t))

/-- An entry that is no link, or one whose target holds no null character. -/
def Entry.TargetUsable : Entry → Prop
  | .link t => NoNul t
  | _ => True

instance : (e : Entry) → Decidable e.TargetUsable
  | .link t => inferInstanceAs (Decidable (NoNul t))
  | .directory => inferInstanceAs (Decidable True)
  | .file _ => inferInstanceAs (Decidable True)

/-- A disk whose links have targets that can be stored: without null characters. -/
def Disk.TargetsUsable (d : Disk) : Prop := ∀ x ∈ d.entries.toList, x.2.TargetUsable

instance (d : Disk) : Decidable d.TargetsUsable := inferInstanceAs (Decidable (∀ x ∈ _, _))

theorem noNul_joinSegments {p : List Text} (hp : ∀ n ∈ p, NoNul n) : NoNul (joinSegments p) := by
  intro hnul
  rcases exists_of_mem_joinSegments hnul with hslash | ⟨n, hn, hin⟩
  · exact absurd hslash (by decide)
  · exact hp n hn hin

theorem noNul_append {t u : Text} (ht : NoNul t) (hu : NoNul u) : NoNul (t ++ u) := by
  intro hnul
  rcases List.mem_append.mp hnul with h | h
  · exact ht h
  · exact hu h

theorem noNul_slash {t : Text} (ht : NoNul t) : NoNul ('/' :: t) :=
  noNul_append (t := ['/']) (by decide) ht

theorem noNul_joinNames {front back : Text} (hfront : NoNul front) (hback : NoNul back) :
    NoNul (joinNames front back) := by
  unfold joinNames
  split
  · exact hback
  · split
    · exact noNul_append hfront hback
    · exact noNul_append hfront (noNul_slash hback)

theorem noNul_of_mem_splitOn {t n : Text} (ht : NoNul t) (hn : n ∈ t.splitOn '/') : NoNul n := by
  intro hnul
  apply ht
  rw [← joinSegments_splitOn t]
  exact mem_joinSegments hn hnul

/-- To fold dots leaves parts out. -/
theorem foldDots_subset (parts : List Text) : foldDots parts ⊆ parts := by
  suffices h : ∀ p : Path,
      parts.foldl (fun p n => if n = ['.', '.'] then p.dropLast else p ++ [n]) p ⊆ p ++ parts from h []
  induction parts with
  | nil =>
    intro p
    rw [List.append_nil]
    exact List.Subset.refl _
  | cons n rest ih =>
    intro p m hm
    have hm := ih _ hm
    beta_reduce at hm
    rw [List.mem_append] at hm ⊢
    rw [List.mem_cons]
    rcases hm with hm | hm
    · split at hm
      · exact .inl (List.dropLast_subset p hm)
      · rcases List.mem_append.mp hm with hm | hm
        · exact .inl hm
        · exact .inr (.inl (List.mem_singleton.mp hm))
    · exact .inr (.inr hm)

namespace Disk

variable {d : Disk}

/-- Names without null characters lead to places without any, and leave none where a loop stops them. -/
theorem keeps_noNul (hd : d.TargetsUsable) : Keeps d NoNul (fun p => ∀ n ∈ p, NoNul n) NoNul where
  root := List.forall_mem_nil _
  up p hp := fun n hn => hp n (List.dropLast_subset p hn)
  down p n hp hn _ _ _ := List.forall_mem_append.mpr ⟨hp, List.forall_mem_singleton.mpr hn⟩
  target p t hlink := by
    intro n hn
    have hne : p ≠ [] := by
      rintro rfl
      cases hlink
    have htarget : NoNul t := hd _ ((entry?_eq_some hne).mp hlink)
    exact noNul_of_mem_splitOn htarget hn
  stopped p names hp hnames := noNul_joinNames (noNul_slash (noNul_joinSegments hp)) (noNul_joinSegments hnames)
  further w names hw hnames := noNul_joinNames hw (noNul_joinSegments hnames)

theorem noNul_toText {n : PathName} (hanchor : NoNul n.anchor) (hparts : ∀ m ∈ n.parts, NoNul m) :
    NoNul n.toText := by
  unfold PathName.toText
  split
  · decide
  · exact noNul_append hanchor (noNul_joinSegments hparts)

/-- **What is resolved holds no null character.** -/
theorem noNul_of_resolve (hd : d.TargetsUsable) {parts : List Text} {n : PathName}
    (h : d.resolve parts = .ok n) : NoNul n.toText := by
  have hwithin := (keeps_noNul hd).settle (nul_not_mem_of_resolve h)
  rw [eq_of_resolve h]
  cases hsettle : d.settle parts with
  | settled p =>
    rw [hsettle] at hwithin
    have hanchor : NoNul ['/'] := by decide
    exact noNul_toText hanchor hwithin
  | looping written =>
    rw [hsettle] at hwithin
    apply noNul_toText
    · show NoNul (PathName.ofText written).anchor
      unfold PathName.ofText
      simp only
      split
      · decide
      · split <;> decide
    · intro m hm
      have hpart := List.mem_of_mem_filter (foldDots_subset _ hm)
      exact noNul_of_mem_splitOn hwithin hpart

end Disk

namespace Settings

variable {s : Settings} {d : Disk}

/-- The documents at or below a place that was resolved were resolved. -/
theorem exists_resolve_of_mem_documentsAt {base : PathName} (hbase : ∃ parts, d.resolve parts = .ok base)
    {docs : List Text} (h : s.documentsAt d base = .ok docs) {t : Text} (ht : t ∈ docs) :
    ∃ parts n, d.resolve parts = .ok n ∧ t = n.toText := by
  rcases file_or_discover_of_mem_documentsAt h ht with ⟨-, rfl⟩ | h
  · obtain ⟨parts, hparts⟩ := hbase
    exact ⟨parts, base, hparts, rfl⟩
  · obtain ⟨e, -, places, -, q, -, -, n, hn, htext⟩ := found_of_mem_discover h ht
    exact ⟨q, n, hn, htext⟩

/-- What a changed path stands for was resolved. -/
theorem exists_resolve_of_mem_expandPath (hroot : Components s.root) {w : Text} {docs : List Text}
    (h : s.expandPath d w = .ok docs) {t : Text} (ht : t ∈ docs) :
    ∃ parts n, d.resolve parts = .ok n ∧ t = n.toText := by
  have hslash : ∀ m ∈ s.root, '/' ∉ m := fun m hm => (hroot m hm).2.2.2
  obtain ⟨n, hn, rfl | ⟨base, hbase, h⟩⟩ := self_or_documentsAt_of_mem_expandPath hroot h ht
  · obtain ⟨parts, -, hparts⟩ := Disk.exists_resolve_of_canonical hslash hn
    exact ⟨parts, n, hparts, rfl⟩
  · obtain ⟨parts, -, hparts⟩ := Disk.exists_resolve_of_canonical hslash hbase
    exact exists_resolve_of_mem_documentsAt ⟨parts, hparts⟩ h ht

/-! ## One scan -/

/-- A document is read again if one of the changed paths stands for it. -/
theorem mem_expandPaths_iff {written files : List Text} (h : s.expandPaths d written = .ok files) {t : Text} :
    t ∈ files ↔ ∃ w ∈ written, ∃ docs, s.expandPath d w = .ok docs ∧ t ∈ docs := by
  obtain ⟨found, hfound, h⟩ := bind_eq_ok.mp h
  obtain rfl := Except.ok.inj h
  have hpairs := mapM_eq_ok.mp hfound
  rw [List.mem_eraseDups, List.mem_flatten]
  constructor
  · rintro ⟨docs, hdocs, ht⟩
    obtain ⟨w, hw, hone⟩ := exists_of_forall₂_right hpairs hdocs
    exact ⟨w, hw, docs, hone, ht⟩
  · rintro ⟨w, hw, docs, hone, ht⟩
    obtain ⟨docs', hdocs, hone'⟩ := exists_of_forall₂_right hpairs.flip hw
    obtain rfl := Except.ok.inj (hone.symm.trans hone')
    exact ⟨docs, hdocs, ht⟩

/-- Changed paths can be expanded if each of them can. -/
theorem exists_expandPaths_iff {written : List Text} : (∃ files, s.expandPaths d written = .ok files) ↔
    ∀ w ∈ written, ∃ docs, s.expandPath d w = .ok docs := by
  constructor
  · rintro ⟨files, h⟩ w hw
    obtain ⟨found, hfound, -⟩ := bind_eq_ok.mp h
    obtain ⟨docs, -, hdocs⟩ := exists_of_forall₂_right (mapM_eq_ok.mp hfound).flip hw
    exact ⟨docs, hdocs⟩
  · intro h
    obtain ⟨found, hfound, -⟩ := exists_mapM_eq_ok h
    exact ⟨_, bind_eq_ok.mpr ⟨found, hfound, rfl⟩⟩

theorem noNul_of_expandPaths (hroot : Components s.root) (hd : d.TargetsUsable) {written files : List Text}
    (h : s.expandPaths d written = .ok files) {t : Text} (ht : t ∈ files) : NoNul t := by
  obtain ⟨w, -, docs, hdocs, ht⟩ := (mem_expandPaths_iff h).mp ht
  obtain ⟨parts, n, hn, rfl⟩ := exists_resolve_of_mem_expandPath hroot hdocs ht
  exact Disk.noNul_of_resolve hd hn

/-- The documents that a scan reads again: none if one of the paths cannot be expanded. -/
def readAgain (s : Settings) (d : Disk) (new : List Text) : List Text :=
  (s.expandPaths d new).toOption.getD []

theorem mem_readAgain_iff {new : List Text} {t : Text} : t ∈ s.readAgain d new ↔
    (∀ w ∈ new, ∃ docs, s.expandPath d w = .ok docs) ∧
      ∃ w ∈ new, ∃ docs, s.expandPath d w = .ok docs ∧ t ∈ docs := by
  rw [← exists_expandPaths_iff, readAgain]
  cases h : s.expandPaths d new with
  | error f => exact ⟨nofun, fun ⟨⟨_, hfiles⟩, _⟩ => nomatch hfiles⟩
  | ok files =>
    show t ∈ files ↔ _
    rw [mem_expandPaths_iff h]
    exact ⟨fun hread => ⟨⟨files, rfl⟩, hread⟩, And.right⟩

/-- What a scan makes of an index: documents that are read again are as the disk has them, others that are
    dropped are gone, and all others are as they were. -/
structure AfterScan (s : Settings) (d : Disk) (new old : List Text) (ix ix' : Index) : Prop where
  read : ∀ k ∈ s.readAgain d new, ix'.get? k = recordOf d k
  dropped : ∀ k ∉ s.readAgain d new, s.Drops d old k → ix'.get? k = none
  kept : ∀ k ∉ s.readAgain d new, ¬s.Drops d old k → ix'.get? k = ix.get? k

/-- **A scan has two stages**: all that is dropped is dropped before anything is read again. It fails if the
    new paths cannot be expanded, and then it has dropped only. -/
theorem scan_staged (hroot : Components s.root) (hd : d.TargetsUsable) {old : List Text}
    (hold : s.Usable d old) (new : List Text) (ix : Index) :
    ∃ ix', s.scan d .fileRenamed new old ix = (ix', (fun _ => ()) <$> s.expandPaths d new) ∧
      s.AfterScan d new old ix ix' := by
  let kept := ix.filterKeys fun k => !s.dropsKey d old k
  have hkept : ∀ k, (s.Drops d old k → kept.get? k = none) ∧ (¬s.Drops d old k → kept.get? k = ix.get? k) := by
    intro k
    rw [OrderedMap.get?_filterKeys, ← dropsKey_iff hroot]
    cases s.dropsKey d old k <;> simp
  have hscan : s.scan d .fileRenamed new old ix = s.scanPaths d new kept := by
    unfold scan
    simp only [removePaths_eq hold]
    rfl
  rw [hscan, scanPaths]
  cases hfiles : s.expandPaths d new with
  | error f =>
    -- nothing is read, and what was dropped before stays dropped
    have hnone : s.readAgain d new = [] := by rw [readAgain, hfiles]; rfl
    refine ⟨kept, rfl, ?_, fun k _ => (hkept k).1, fun k _ => (hkept k).2⟩
    rw [hnone]
    exact fun k hk => absurd hk List.not_mem_nil
  | ok files =>
    have hread : s.readAgain d new = files := by rw [readAgain, hfiles]; rfl
    have hnul : ∀ file ∈ files, '\x00' ∉ file := fun file => noNul_of_expandPaths hroot hd hfiles
    obtain ⟨ix', hix', hget⟩ := refresh_eq_ok (d := d) hnul kept
    refine ⟨ix', hix', ?_, ?_, ?_⟩
    · intro k hk
      rw [hread] at hk
      rw [hget, if_pos hk]
    · intro k hk hdropped
      rw [hread] at hk
      rw [hget, if_neg hk]
      exact (hkept k).1 hdropped
    · intro k hk hnot
      rw [hread] at hk
      rw [hget, if_neg hk]
      exact (hkept k).2 hnot

/-! ## Lists with the same paths -/

/-- Two lists with the same paths: each path of one is spelled somehow in the other. -/
def SamePaths (s : Settings) (d : Disk) (ws ws' : List Text) : Prop :=
  (∀ w ∈ ws, ∃ w' ∈ ws', s.normalize d w' = s.normalize d w) ∧
    ∀ w' ∈ ws', ∃ w ∈ ws, s.normalize d w = s.normalize d w'

section SamePaths

variable {ws ws' ws'' : List Text}

theorem SamePaths.symm (h : s.SamePaths d ws ws') : s.SamePaths d ws' ws := ⟨h.2, h.1⟩

theorem SamePaths.trans (h : s.SamePaths d ws ws') (h' : s.SamePaths d ws' ws'') : s.SamePaths d ws ws'' := by
  constructor
  · intro w hw
    obtain ⟨w', hw', heq⟩ := h.1 w hw
    obtain ⟨w'', hw'', heq'⟩ := h'.1 w' hw'
    exact ⟨w'', hw'', heq'.trans heq⟩
  · intro w'' hw''
    obtain ⟨w', hw', heq⟩ := h'.2 w'' hw''
    obtain ⟨w, hw, heq'⟩ := h.2 w' hw'
    exact ⟨w, hw, heq'.trans heq⟩

/-- Neither the order of paths nor their repetition makes a difference. -/
theorem samePaths_of_mem_iff (h : ∀ w, w ∈ ws ↔ w ∈ ws') : s.SamePaths d ws ws' :=
  ⟨fun w hw => ⟨w, (h w).mp hw, rfl⟩, fun w hw => ⟨w, (h w).mpr hw, rfl⟩⟩

/-- Nor does the spelling of any of them. -/
theorem samePaths_of_forall₂ (h : List.Forall₂ (fun w w' => s.normalize d w = s.normalize d w') ws ws') :
    s.SamePaths d ws ws' := by
  constructor
  · intro w hw
    obtain ⟨w', hw', heq⟩ := exists_of_forall₂_right h.flip hw
    exact ⟨w', hw', heq.symm⟩
  · intro w' hw'
    exact exists_of_forall₂_right h hw'

theorem SamePaths.usable (h : s.SamePaths d ws ws') (hws : s.Usable d ws) : s.Usable d ws' := by
  intro w' hw'
  obtain ⟨w, hw, heq⟩ := h.2 w' hw'
  obtain ⟨p, hp⟩ := hws w hw
  exact ⟨p, heq ▸ hp⟩

/-- What a path stands for depends on where it leads. -/
theorem expandPath_congr {w w' : Text} (h : s.normalize d w' = s.normalize d w) :
    s.expandPath d w' = s.expandPath d w := by
  unfold expandPath
  rw [h]

theorem SamePaths.expandable (h : s.SamePaths d ws ws') (hws : ∀ w ∈ ws, ∃ docs, s.expandPath d w = .ok docs) :
    ∀ w' ∈ ws', ∃ docs, s.expandPath d w' = .ok docs := by
  intro w' hw'
  obtain ⟨w, hw, heq⟩ := h.2 w' hw'
  obtain ⟨docs, hdocs⟩ := hws w hw
  exact ⟨docs, (expandPath_congr heq).symm.trans hdocs⟩

theorem SamePaths.readAgain_subset (h : s.SamePaths d ws ws') : s.readAgain d ws ⊆ s.readAgain d ws' := by
  intro t ht
  obtain ⟨hall, w, hw, docs, hdocs, ht⟩ := mem_readAgain_iff.mp ht
  obtain ⟨w', hw', heq⟩ := h.1 w hw
  exact mem_readAgain_iff.mpr ⟨h.expandable hall, w', hw', docs, (expandPath_congr heq).trans hdocs, ht⟩

theorem SamePaths.readAgain_congr (h : s.SamePaths d ws ws') (t : Text) :
    t ∈ s.readAgain d ws ↔ t ∈ s.readAgain d ws' :=
  ⟨fun ht => h.readAgain_subset ht, fun ht => h.symm.readAgain_subset ht⟩

theorem SamePaths.drops (h : s.SamePaths d ws ws') {k : Text} (hk : s.Drops d ws k) : s.Drops d ws' k := by
  obtain ⟨w, hw, p, hp, hprefix⟩ := hk
  obtain ⟨w', hw', heq⟩ := h.1 w hw
  exact ⟨w', hw', p, heq.trans hp, hprefix⟩

theorem SamePaths.drops_congr (h : s.SamePaths d ws ws') (k : Text) : s.Drops d ws k ↔ s.Drops d ws' k :=
  ⟨h.drops, h.symm.drops⟩

end SamePaths

section AfterScan

variable {new old new' old' : List Text} {ix ix' ix'' : Index}

/-- What lists with the same paths make of an index is the same. -/
theorem AfterScan.congr (h : s.AfterScan d new old ix ix') (h' : s.AfterScan d new' old' ix ix'')
    (hnew : s.SamePaths d new new') (hold : s.SamePaths d old old') (k : Text) : ix''.get? k = ix'.get? k := by
  have hread := hnew.readAgain_congr k
  have hdrops := hold.drops_congr k
  by_cases hk : k ∈ s.readAgain d new
  · rw [h.read k hk, h'.read k (hread.mp hk)]
  · have hk' := mt hread.mpr hk
    by_cases hdropped : s.Drops d old k
    · rw [h.dropped k hk hdropped, h'.dropped k hk' (hdrops.mp hdropped)]
    · rw [h.kept k hk hdropped, h'.kept k hk' (mt hdrops.mpr hdropped)]

/-- A second scan finds what the first one left. -/
theorem AfterScan.again (h : s.AfterScan d new old ix ix') (h' : s.AfterScan d new old ix' ix'') (k : Text) :
    ix''.get? k = ix'.get? k := by
  by_cases hk : k ∈ s.readAgain d new
  · rw [h.read k hk, h'.read k hk]
  · by_cases hdropped : s.Drops d old k
    · rw [h.dropped k hk hdropped, h'.dropped k hk hdropped]
    · exact h'.kept k hk hdropped

end AfterScan

end Settings

/-! ## The paths of a reason -/

/-- The paths that a scan for a reason reads again. -/
def ScanReason.toRead (reason : ScanReason) (changed : List Text) : List Text :=
  match reason with
  | .fileDeleted => []
  | _ => changed

/-- The paths that a scan for a reason drops before. -/
def ScanReason.toDrop (reason : ScanReason) (changed old : List Text) : List Text :=
  match reason with
  | .fileDeleted => changed
  | .fileRenamed => old
  | _ => []

section Reasons

variable {s : Settings} {d : Disk} {reason : ScanReason} {changed changed' old old' : List Text}

/-- Every scan for paths is one for a renaming. -/
theorem scan_eq_renamed (hreason : reason ∈ [.fileCreatedOrUpdated, .fileDeleted, .fileRenamed]) (ix : Index) :
    s.scan d reason changed old ix =
      s.scan d .fileRenamed (reason.toRead changed) (reason.toDrop changed old) ix := by
  rcases List.mem_cons.mp hreason with rfl | hreason
  · rfl
  · rcases List.mem_cons.mp hreason with rfl | hreason
    · exact Settings.scan_deleted s d changed old ix
    · obtain rfl := List.mem_singleton.mp hreason
      rfl

theorem usable_toDrop (hchanged : s.Usable d changed) (hold : s.Usable d old) :
    s.Usable d (reason.toDrop changed old) := by
  cases reason with
  | fileDeleted => exact hchanged
  | fileRenamed => exact hold
  | fileCreatedOrUpdated => exact List.forall_mem_nil _
  | workspace => exact List.forall_mem_nil _
  | justGet => exact List.forall_mem_nil _

theorem samePaths_toRead (h : s.SamePaths d changed changed') :
    s.SamePaths d (reason.toRead changed) (reason.toRead changed') := by
  unfold ScanReason.toRead
  split
  · exact Settings.samePaths_of_mem_iff fun _ => Iff.rfl
  · exact h

theorem samePaths_toDrop (hchanged : s.SamePaths d changed changed') (hold : s.SamePaths d old old') :
    s.SamePaths d (reason.toDrop changed old) (reason.toDrop changed' old') := by
  unfold ScanReason.toDrop
  split
  · exact hchanged
  · exact hold
  · exact Settings.samePaths_of_mem_iff fun _ => Iff.rfl

/-- **The paths of a scan are a set.** If all of them can be used, lists with the same paths make the same of an
    index, whether or not the scan comes out well, and a second scan changes nothing. What they make of it is
    said path by path and document by document: no path of the one list belongs to one of the other. The scan
    comes out well exactly if each path that is read again can be expanded. -/
theorem path_lists_are_sets (hroot : Components s.root) (hd : d.TargetsUsable)
    (hreason : reason ∈ [.fileCreatedOrUpdated, .fileDeleted, .fileRenamed])
    (husable : s.Usable d changed) (husable' : s.Usable d old)
    (hchanged : s.SamePaths d changed changed') (hold : s.SamePaths d old old') (ix : Index) :
    let after := s.scan d reason changed old ix
    let after' := s.scan d reason changed' old' ix
    (∀ k, after'.1.get? k = after.1.get? k) ∧
    (after'.2 = .ok () ↔ after.2 = .ok ()) ∧
    (∀ k, (s.scan d reason changed old after.1).1.get? k = after.1.get? k) ∧
    s.AfterScan d (reason.toRead changed) (reason.toDrop changed old) ix after.1 ∧
    (after.2 = .ok () ↔ ∀ w ∈ reason.toRead changed, ∃ docs, s.expandPath d w = .ok docs) := by
  have hread : s.SamePaths d (reason.toRead changed) (reason.toRead changed') := samePaths_toRead hchanged
  have hdrop : s.SamePaths d (reason.toDrop changed old) (reason.toDrop changed' old') :=
    samePaths_toDrop hchanged hold
  have hdroppable : s.Usable d (reason.toDrop changed old) := usable_toDrop husable husable'
  have hstaged := Settings.scan_staged hroot hd hdroppable (reason.toRead changed)
  obtain ⟨left, hscan, hafter⟩ := hstaged ix
  obtain ⟨again, hagain, hsecond⟩ := hstaged left
  obtain ⟨left', hscan', hafter'⟩ := Settings.scan_staged hroot hd (hdrop.usable hdroppable)
    (reason.toRead changed') ix
  -- the outcomes of the three scans are what the two stages make of them
  intro after after'
  have hleft : after = _ := (scan_eq_renamed hreason ix).trans hscan
  have hleft' : after' = _ := (scan_eq_renamed hreason ix).trans hscan'
  rw [hleft, hleft']
  have hwell : ∀ new, ((fun _ => ()) <$> s.expandPaths d new = Except.ok () ↔
      ∀ w ∈ new, ∃ docs, s.expandPath d w = .ok docs) := by
    intro new
    rw [map_eq_ok, ← Settings.exists_expandPaths_iff]
    simp only [and_true]
  refine ⟨hafter.congr hafter' hread hdrop, ?_, ?_, hafter, hwell _⟩
  · show (fun _ => ()) <$> _ = Except.ok () ↔ (fun _ => ()) <$> _ = Except.ok ()
    rw [hwell, hwell]
    exact ⟨hread.symm.expandable, hread.expandable⟩
  · show ∀ k, (s.scan d reason changed old left).1.get? k = left.get? k
    rw [scan_eq_renamed hreason, hagain]
    exact hafter.again hsecond

end Reasons

/-- The index of two notes before they changed names. -/
def pairIndex : Index := .ofRecords [scanned "/w/a.md" "#a", scanned "/w/b.md" "#b"]

/-- The report of the change may list the notes in any order, repeat them and spell them in other ways: each
    note has the tag that is now in it. -/
theorem pairSwapped_staged :
    ∃ ix, vaultSettings.scan pairAfter .fileRenamed ["b.md".toList, "a.md".toList] ["a.md".toList, "b.md".toList]
        pairIndex = (ix, .ok ()) ∧
      ix.get? "/w/a.md".toList = some (scanned "/w/a.md" "#b") ∧
      ix.get? "/w/b.md".toList = some (scanned "/w/b.md" "#a") ∧
      ∀ k, (vaultSettings.scan pairAfter .fileRenamed ["./a.md".toList, "/w/b.md".toList, "a.md".toList]
        ["b.md".toList, "a.md".toList, "b.md".toList] pairIndex).1.get? k = ix.get? k := by
  have ha := normalize_pairAfter_a
  have hb := normalize_pairAfter_b
  have husable : vaultSettings.Usable pairAfter ["b.md".toList, "a.md".toList] := by
    intro w hw
    rcases List.mem_cons.mp hw with rfl | hw
    · exact ⟨_, hb⟩
    · obtain rfl := List.mem_singleton.mp hw
      exact ⟨_, ha⟩
  have hold : vaultSettings.SamePaths pairAfter ["b.md".toList, "a.md".toList] ["a.md".toList, "b.md".toList] :=
    Settings.samePaths_of_mem_iff fun w => by simp [or_comm]
  have hold' : vaultSettings.SamePaths pairAfter ["a.md".toList, "b.md".toList]
      ["b.md".toList, "a.md".toList, "b.md".toList] := by
    apply Settings.samePaths_of_mem_iff
    intro w
    simp only [List.mem_cons, List.not_mem_nil, or_false]
    tauto
  have hnew : vaultSettings.SamePaths pairAfter ["b.md".toList, "a.md".toList]
      ["./a.md".toList, "/w/b.md".toList, "a.md".toList] := by
    -- first another order and a repetition, then another spelling
    have hlisted : vaultSettings.SamePaths pairAfter ["b.md".toList, "a.md".toList]
        ["a.md".toList, "b.md".toList, "a.md".toList] :=
      Settings.samePaths_of_mem_iff fun w => by simp [or_comm]
    refine hlisted.trans (Settings.samePaths_of_forall₂ (.cons ?_ (.cons ?_ (.cons rfl .nil))))
    · rw [ha]
      cbv
    · rw [hb]
      cbv
  have hreason : ScanReason.fileRenamed ∈ [.fileCreatedOrUpdated, .fileDeleted, .fileRenamed] := by decide
  obtain ⟨hsame, -⟩ := path_lists_are_sets (by decide) (by decide) hreason husable (hold.usable husable) hnew
    hold' pairIndex
  exact ⟨_, by cbv, by cbv, by cbv, hsame⟩

end HashtagIndex
