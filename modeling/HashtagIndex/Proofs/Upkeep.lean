import HashtagIndex.Proofs.Renaming
import HashtagIndex.Proofs.Updating
import Mathlib

/-!
# `Proofs.Upkeep` — the index of a service that is told of every change

A host that reports each change of the disk keeps the index of a service what a full scan would give. The
argument is an induction over a *run*: a first full scan, and then changes, each with one report of it,
and renames of tags. Every step takes a service whose index mirrors the disk to one whose index mirrors
the changed disk (`Service.handle_of_reports`, `Service.rename_of_tracks`).

A report names the paths it is about, and these have to be paths at which something can be looked for: a
name that is too long for that makes the scan fail before it has read anything. And discovery has to name
the documents of each directory, not only those of the workspace: an extension with a slash in it finds a
file from the root that it does not find from the directory of the file.

## Contents
- `Trackable`: a disk whose changes can be followed, and `trackable_of_names`.
- `Reports`, `Run`.
- `Service.handle_of_reports`, `Service.rename_of_tracks`, `Run.tracks`: the steps and the runs.
- Two notes that change names, and reports that are not enough.
-/

namespace HashtagIndex

namespace Settings

variable {s : Settings} {d d' : Disk}

/-- A disk whose changes can be followed: a tree without links, whose documents discovery names. -/
structure Trackable (s : Settings) (d : Disk) : Prop where
  tree : d.IsTree
  linkFree : d.LinkFree
  lists : s.ListsDocuments d

/-! ## Discovery on disks without links -/

theorem normalize_toText (hd : d.WellFormed) {p : Path} {e : Entry} (he : d.entry? p = some e)
    (hlink : ∀ t, e ≠ .link t) : s.normalize d (Path.toText p) = .ok (.ofPath p) := by
  unfold normalize Disk.canonical
  rw [ofText_toText (hd.tree.properPath he)]
  show d.resolve p = _
  exact hd.resolve_of_entry he hlink

/-- On a well-formed disk without links discovery names the documents of a directory, if the two tests of
    names agree on the files there. -/
theorem discover_documents (hd : d.WellFormed) (hlinks : d.LinkFree)
    (hsearch : ∀ e ∈ s.extensions, Searchable e)
    (hnames : ∀ r n b, d.entry? (s.root ++ r ++ [n]) = some (.file b) →
      s.isExcluded (.ofPath (s.root ++ r ++ [n])) = false → (s.Fits n ↔ s.Named n))
    {r : List Text} (hdir : d.entry? (s.root ++ r) = some .directory) :
    ∃ l, s.discover d (s.root ++ r) = .ok l ∧
      ∀ t, t ∈ l ↔ ∃ q, s.DocumentAt d q ∧ s.root ++ r <+: q ∧ t = Path.toText q := by
  have hnolink : s.NoLinkFits d (s.root ++ r) := fun u n t ht => absurd ht (hlinks.entry?_ne_link _ t)
  obtain ⟨docs, hdocs, hmem⟩ := discover_eq_ok hd hdir hnolink hsearch
  refine ⟨_, hdocs, fun t => ?_⟩
  rw [Text.mem_sortDistinct, hmem]
  constructor
  · rintro ⟨u, n, ⟨b, hb⟩, hexcluded, hfits, rfl⟩
    have hnamed : s.Named n := by
      rw [List.append_assoc s.root] at hb hexcluded
      exact (hnames (r ++ u) n b hb hexcluded).mp hfits
    refine ⟨_, ⟨?_, ⟨b, hb⟩, ?_⟩, ?_, rfl⟩
    · rw [List.append_assoc, List.append_assoc]
      exact List.prefix_append _ _
    · rw [isDocument_iff, name_ofPath_concat]
      exact ⟨hnamed, hexcluded⟩
    · rw [List.append_assoc (s.root ++ r)]
      exact List.prefix_append _ _
  · rintro ⟨q, ⟨-, ⟨b, hb⟩, hnamed⟩, ⟨v, rfl⟩, rfl⟩
    -- the file is not the directory itself, so its path goes on by a name
    have hv : v ≠ [] := by
      rintro rfl
      rw [List.append_nil, hdir] at hb
      cases hb
    obtain ⟨u, n, rfl⟩ : ∃ u n, v = u ++ [n] := ⟨_, _, (List.dropLast_append_getLast hv).symm⟩
    rw [← List.append_assoc] at hb hnamed ⊢
    rw [isDocument_iff, name_ofPath_concat] at hnamed
    have hfits : s.Fits n := by
      have hexcluded := hnamed.2
      rw [List.append_assoc s.root] at hb hexcluded
      exact (hnames (r ++ u) n b hb hexcluded).mpr hnamed.1
    exact ⟨u, n, ⟨b, hb⟩, hnamed.2, hfits, rfl⟩

/-- **Where the two tests of names agree**, a well-formed disk without links can be kept track of. -/
theorem trackable_of_names (hd : d.WellFormed) (hlinks : d.LinkFree)
    (hsearch : ∀ e ∈ s.extensions, Searchable e) (hroot : d.entry? s.root = some .directory)
    (hnames : ∀ r n b, d.entry? (s.root ++ r ++ [n]) = some (.file b) →
      s.isExcluded (.ofPath (s.root ++ r ++ [n])) = false → (s.Fits n ↔ s.Named n)) :
    s.Trackable d := by
  refine ⟨hd.tree, hlinks, ⟨?_, fun p hbelow hdir => ?_⟩⟩
  · have hroot' : d.entry? (s.root ++ []) = some .directory := by rwa [List.append_nil]
    obtain ⟨l, hl, hmem⟩ := discover_documents hd hlinks hsearch hnames hroot'
    rw [List.append_nil] at hl hmem
    refine ⟨l, ?_, fun t => ?_⟩
    · rw [listDocuments_root, documentsAt_directory hd hroot, hl]
    · rw [hmem]
      constructor
      · rintro ⟨q, hq, -, rfl⟩
        exact ⟨q, hq, rfl⟩
      · rintro ⟨q, hq, rfl⟩
        exact ⟨q, hq, hq.below, rfl⟩
  · have hnormal := normalize_toText (s := s) hd hdir Entry.directory_ne_link
    obtain ⟨r, rfl⟩ := hbelow
    rw [listDocuments_of_normalize hd hnormal hdir Entry.directory_ne_link (List.prefix_append _ _),
      documentsAt_directory hd hdir]
    exact discover_documents hd hlinks hsearch hnames hdir

/-- Being trackable is a property of the layout. -/
theorem Trackable.of_sameLayout (h : s.Trackable d) (hlayout : SameLayout d d') : s.Trackable d' := by
  have hdocument : ∀ q, s.DocumentAt d' q ↔ s.DocumentAt d q := by
    intro q
    constructor
    · rintro ⟨hbelow, hfile, hnamed⟩
      exact ⟨hbelow, (hlayout.file_iff q).mp hfile, hnamed⟩
    · rintro ⟨hbelow, hfile, hnamed⟩
      exact ⟨hbelow, (hlayout.file_iff q).mpr hfile, hnamed⟩
  refine ⟨hlayout.isTree h.tree, hlayout.linkFree h.linkFree, ⟨?_, fun p hbelow hdir => ?_⟩⟩
  · simp only [hdocument, hlayout.listDocuments]
    exact h.lists.whole
  · simp only [hdocument, hlayout.listDocuments]
    exact h.lists.folder p hbelow ((hlayout.entry?_directory_iff p).mp hdir)

/-! ## Reports and runs -/

/-- What a report says of the disk before and after a change. Of files that were saved or created: only
    files that the paths cover changed, and none of them is gone. Of files that were deleted: what the
    paths cover is gone, and nothing else changed. Of files that were renamed: what the old paths cover is
    gone unless the new ones cover it as well, and otherwise only files that the new ones cover changed.
    The other reports say nothing. -/
def Reports (s : Settings) (d d' : Disk) (e : WorkspaceEvent) : Prop :=
  match e.kind with
  | .saved | .created => s.Scannable d' e.paths ∧ s.Changed d d' [] e.paths
  | .deleted => s.Inside d' e.paths ∧ s.Changed d d' e.paths []
  | .renamed => s.Inside d' e.oldPaths ∧ s.Scannable d' e.paths ∧ s.Changed d d' e.oldPaths e.paths
  | .configurationChanged | .refresh => True

end Settings

/-- The services and disks that a run leads to: it starts with a full scan, and goes on with changes of
    the disk, each reported once, and with renames of tags. -/
inductive Run (s : Settings) : Service → Disk → Prop
  | start {sv : Service} {d : Disk} (hs : sv.settings = s) (hd : s.Trackable d) :
      Run s (sv.scanAll d).1 d
  | change {sv : Service} {d d' : Disk} (e : WorkspaceEvent) (hrun : Run s sv d)
      (hd' : s.Trackable d') (hreports : s.Reports d d' e) : Run s (sv.handle d' e).1 d'
  | rename {sv : Service} {d : Disk} (tag name : Text) (hrun : Run s sv d) :
      Run s (sv.rename d tag name).1.service (sv.rename d tag name).1.disk

/-! ## The steps -/

namespace Service

open Settings

variable {s : Settings} {sv : Service} {d d' : Disk}

/-- A service for the given settings whose index mirrors the disk. -/
structure Tracks (sv : Service) (s : Settings) (d : Disk) : Prop where
  settings : sv.settings = s
  mirrors : s.Mirrors d sv.index

/-- A full scan comes out well, whatever the index held. -/
theorem scanAll_of_trackable (hs : sv.settings = s) (hd : s.Trackable d) :
    ∃ sv' summary, sv.scanAll d = (sv', .ok summary) ∧ sv'.Tracks s d := by
  obtain ⟨full, hfull, hmirrors⟩ := exists_fullIndex hd.tree hd.lists
  rw [← hs] at hfull
  obtain ⟨summary, hscan⟩ := scanAll_eq hfull
  exact ⟨_, summary, hscan, ⟨hs, hmirrors⟩⟩

/-- A scan that comes out well stores its index. -/
theorem scan_of_ok {reason : ScanReason} {changed old : List Text} {ix : Index}
    (h : sv.settings.scan d reason changed old sv.index = (ix, .ok ())) :
    ∃ summary, sv.scan d reason changed old = ({ sv with
      index := ix, scanned := sv.scanned || reason == .workspace }, .ok summary) := by
  unfold scan
  rw [h]
  exact ⟨_, rfl⟩

/-- **A report of a change** is handled without a fault, and the index mirrors the changed disk. -/
theorem handle_of_reports (hroot : ProperPath s.root) (h : sv.Tracks s d) (hd : s.Trackable d)
    (hd' : s.Trackable d') {e : WorkspaceEvent} (hreports : s.Reports d d' e) :
    ∃ sv' summary, sv.handle d' e = (sv', .ok summary) ∧ sv'.Tracks s d' := by
  obtain ⟨rfl, hmirrors⟩ := h
  -- each report of files leads to a scan for old and new paths
  have hfiles : ∀ old new : List Text, sv.settings.Inside d' old → sv.settings.Scannable d' new →
      sv.settings.Changed d d' old new → ∃ ix,
        sv.settings.scan d' .fileRenamed new old sv.index = (ix, .ok ()) ∧
          sv.settings.Mirrors d' ix := fun old new hold hnew hchanged =>
    scan_of_changed hroot hd.tree hd'.tree hd.linkFree hd'.linkFree hd.lists hd'.lists hold hnew hchanged
      hmirrors
  have hnone : sv.settings.Inside d' [] := fun w hw => absurd hw List.not_mem_nil
  have hnone' : sv.settings.Scannable d' [] := fun w hw => absurd hw List.not_mem_nil
  obtain ⟨kind, paths, oldPaths⟩ := e
  have hscan : ∃ ix, sv.settings.scan d' kind.reason paths (if kind = .renamed then oldPaths else [])
      sv.index = (ix, .ok ()) ∧ sv.settings.Mirrors d' ix := by
    cases kind with
    | saved => exact hfiles [] paths hnone hreports.1 hreports.2
    | created => exact hfiles [] paths hnone hreports.1 hreports.2
    | deleted =>
      obtain ⟨ix, hix, hmirrors'⟩ := hfiles paths [] hreports.1 hnone' hreports.2
      exact ⟨ix, (scan_deleted _ _ _ _ _).trans hix, hmirrors'⟩
    | renamed => exact hfiles oldPaths paths hreports.1 hreports.2.1 hreports.2.2
    | configurationChanged =>
      obtain ⟨full, hfull, hmirrors'⟩ := exists_fullIndex hd'.tree hd'.lists
      refine ⟨full, ?_, hmirrors'⟩
      unfold Settings.scan
      simp only [EventKind.reason, hfull]
    | refresh =>
      obtain ⟨full, hfull, hmirrors'⟩ := exists_fullIndex hd'.tree hd'.lists
      refine ⟨full, ?_, hmirrors'⟩
      unfold Settings.scan
      simp only [EventKind.reason, hfull]
  obtain ⟨ix, hix, hmirrors'⟩ := hscan
  obtain ⟨summary, hhandle⟩ := scan_of_ok hix
  exact ⟨_, summary, hhandle, ⟨rfl, hmirrors'⟩⟩

/-- **A rename of a tag** leaves a disk that is as trackable as before and an index that mirrors it,
    whatever became of the rename. -/
theorem rename_of_tracks (h : sv.Tracks s d) (hd : s.Trackable d) (tag name : Text) :
    s.Trackable (sv.rename d tag name).1.disk ∧
      Tracks (sv.rename d tag name).1.service s (sv.rename d tag name).1.disk := by
  rcases sv.rename_cases tag name with ⟨r, hrename⟩ | hrename
  · -- a rename that is refused, or has nothing to do, changes nothing
    rw [hrename]
    exact ⟨hd, h⟩
  · -- otherwise a full scan follows, whatever became of the edits
    have hlayout := sameLayout_carryOut sv d (splitTag tag) name
    have hd' := hd.of_sameLayout hlayout
    obtain ⟨sv', summary, hscan, htracks⟩ := scanAll_of_trackable h.settings hd'
    rw [hrename, hscan]
    exact ⟨hd', htracks⟩

end Service

/-! ## The runs -/

namespace Run

variable {s : Settings} {sv : Service} {d : Disk}

theorem tracks (hroot : ProperPath s.root) (h : Run s sv d) : s.Trackable d ∧ sv.Tracks s d := by
  induction h with
  | start hs hd =>
    obtain ⟨sv', summary, hscan, htracks⟩ := Service.scanAll_of_trackable hs hd
    rw [hscan]
    exact ⟨hd, htracks⟩
  | change e _ hd' hreports ih =>
    obtain ⟨hd, htracks⟩ := ih
    obtain ⟨sv', summary, hhandle, htracks'⟩ :=
      Service.handle_of_reports hroot htracks hd hd' hreports
    rw [hhandle]
    exact ⟨hd', htracks'⟩
  | rename tag name _ ih => exact Service.rename_of_tracks ih.2 ih.1 tag name

/-- **Upkeep equals scanning again.** After every step of a run a full scan into an empty index comes out
    well, and it gives what the index holds. -/
theorem index_eq_rescan (hroot : ProperPath s.root) (h : Run s sv d) :
    ∃ full, s.scan d .workspace [] [] .empty = (full, .ok ()) ∧
      ∀ k, sv.index.get? k = full.get? k := by
  obtain ⟨hd, htracks⟩ := h.tracks hroot
  obtain ⟨full, hfull, hmirrors⟩ := Settings.exists_fullIndex hd.tree hd.lists
  refine ⟨full, ?_, fun k => htracks.mirrors.get?_eq hmirrors k⟩
  unfold Settings.scan
  simp only [hfull]

end Run

/-! ## Two notes that change names -/

/-- A disk with two notes in the vault. -/
def pairDisk (a b : Text) : Disk :=
  { Disk.ofDirectories [] [['w']] [] with
    entries := .ofList [([['w']], .directory), ([['w'], "a.md".toList], .file (encodeUtf8 a)),
      ([['w'], "b.md".toList], .file (encodeUtf8 b))] }

theorem refuses_pairDisk (a b : Text) (name : PathName) (which : Refusal → Bool) :
    (pairDisk a b).refuses name which = false := rfl

/-- The notes before they changed names. -/
def pairBefore : Disk := pairDisk "#a".toList "#b".toList

/-- The notes afterwards. -/
def pairAfter : Disk := pairDisk "#b".toList "#a".toList

/-- The report of the change: the lists overlap, and each covers both notes. -/
def pairSwapped : WorkspaceEvent :=
  ⟨.renamed, ["b.md".toList, "a.md".toList], ["a.md".toList, "b.md".toList]⟩

theorem trackable_pairBefore : vaultSettings.Trackable pairBefore :=
  Settings.trackable_of_names (by decide) (by decide) (by decide) (by decide)
    (fits_iff_named_of_entries (by decide +kernel))

theorem trackable_pairAfter : vaultSettings.Trackable pairAfter :=
  Settings.trackable_of_names (by decide) (by decide) (by decide) (by decide)
    (fits_iff_named_of_entries (by decide +kernel))

theorem normalize_pairAfter_a :
    vaultSettings.normalize pairAfter "a.md".toList = .ok (.ofPath [['w'], "a.md".toList]) := by
  cbv

theorem normalize_pairAfter_b :
    vaultSettings.normalize pairAfter "b.md".toList = .ok (.ofPath [['w'], "b.md".toList]) := by
  cbv

/-- Only the two notes differ. -/
theorem entry?_pairAfter (q : Path) : pairAfter.entry? q =
    if q = [['w'], "b.md".toList] then some (.file (encodeUtf8 "#a".toList))
    else if q = [['w'], "a.md".toList] then some (.file (encodeUtf8 "#b".toList))
    else pairBefore.entry? q := by
  have hafter : pairAfter = (pairBefore.put [['w'], "a.md".toList] (.file (encodeUtf8 "#b".toList))).put
      [['w'], "b.md".toList] (.file (encodeUtf8 "#a".toList)) := rfl
  rw [hafter, Disk.entry?_put _ (by simp), Disk.entry?_put _ (by simp)]

/-- A list with both notes covers every change. -/
theorem sameFile_pairAfter {written : List Text} (ha : "a.md".toList ∈ written)
    (hb : "b.md".toList ∈ written) {q : Path} (hnot : ¬vaultSettings.Covers pairAfter written q) :
    pairBefore.SameFile pairAfter q := by
  have hnota : q ≠ [['w'], "a.md".toList] := by
    rintro rfl
    exact hnot ⟨_, ha, _, normalize_pairAfter_a, List.prefix_rfl⟩
  have hnotb : q ≠ [['w'], "b.md".toList] := by
    rintro rfl
    exact hnot ⟨_, hb, _, normalize_pairAfter_b, List.prefix_rfl⟩
  refine ⟨fun b => ?_, (refuses_pairDisk _ _ _ _).trans (refuses_pairDisk _ _ _ _).symm⟩
  rw [entry?_pairAfter, if_neg hnotb, if_neg hnota]

theorem reports_pairSwapped : vaultSettings.Reports pairBefore pairAfter pairSwapped := by
  have hlooka : pairAfter.look [['w'], "a.md".toList] = .ok (some (.file (encodeUtf8 "#b".toList))) := by
    cbv
  have hlookb : pairAfter.look [['w'], "b.md".toList] = .ok (some (.file (encodeUtf8 "#a".toList))) := by
    cbv
  have hinside : vaultSettings.Inside pairAfter pairSwapped.oldPaths := by
    intro w hw
    simp only [pairSwapped, List.mem_cons, List.not_mem_nil, or_false] at hw
    rcases hw with rfl | rfl
    · exact ⟨_, normalize_pairAfter_a, by decide⟩
    · exact ⟨_, normalize_pairAfter_b, by decide⟩
  have hscannable : vaultSettings.Scannable pairAfter pairSwapped.paths := by
    intro w hw
    simp only [pairSwapped, List.mem_cons, List.not_mem_nil, or_false] at hw
    rcases hw with rfl | rfl
    · exact ⟨_, _, normalize_pairAfter_b, by decide, hlookb⟩
    · exact ⟨_, _, normalize_pairAfter_a, by decide, hlooka⟩
  have hcovers : ∀ q, vaultSettings.Covers pairAfter pairSwapped.oldPaths q ↔
      vaultSettings.Covers pairAfter pairSwapped.paths q := by
    intro q
    have hsame : ∀ w, w ∈ pairSwapped.oldPaths ↔ w ∈ pairSwapped.paths := by
      simp [pairSwapped, or_comm]
    unfold Settings.Covers
    simp only [hsame]
  refine ⟨hinside, hscannable, ⟨fun q hnot _ => ?_, fun q b hold hnot => ?_, fun q b hnot hnew => ?_⟩⟩
  · exact sameFile_pairAfter (by decide) (by decide) hnot
  · exact absurd ((hcovers q).mp hold) hnot
  · exact absurd ((hcovers q).mpr hnew) hnot

/-- After a first scan, the report, and a rename of a tag, the index holds the tag under its new name and
    is what a full scan gives. -/
theorem pairSwapped_rescanned :
    ∃ sv d, Run vaultSettings sv d ∧
      (sv.index.get? "/w/b.md".toList).map (·.occurrences.map (·.path)) = some [["c".toList]] ∧
      ∃ full, vaultSettings.scan d .workspace [] [] .empty = (full, .ok ()) ∧
        ∀ k, sv.index.get? k = full.get? k := by
  have hstart : Run vaultSettings (Service.scanAll { settings := vaultSettings } pairBefore).1 pairBefore :=
    .start rfl trackable_pairBefore
  have hchange := Run.change _ hstart trackable_pairAfter reports_pairSwapped
  have hrename := Run.rename "#a".toList "c".toList hchange
  exact ⟨_, _, hrename, by cbv, hrename.index_eq_rescan (by decide)⟩

/-! ## Reports that are not enough -/

/-- The report that both notes were saved, and a third one whose name is too long to be looked for. -/
def longSaved : WorkspaceEvent :=
  ⟨.saved, [List.replicate 256 'a', "a.md".toList, "b.md".toList], []⟩

theorem inside_longSaved : vaultSettings.Inside pairAfter longSaved.paths := by
  intro w hw
  simp only [longSaved, List.mem_cons, List.not_mem_nil, or_false] at hw
  rcases hw with rfl | rfl | rfl
  · exact ⟨[['w'], List.replicate 256 'a'], by decide +kernel, by decide⟩
  · exact ⟨_, normalize_pairAfter_a, by decide⟩
  · exact ⟨_, normalize_pairAfter_b, by decide⟩

theorem changed_longSaved : vaultSettings.Changed pairBefore pairAfter [] longSaved.paths := by
  refine ⟨fun q _ hnot => ?_, fun q b hold _ => ?_, fun q b _ _ hb => ?_⟩
  · have ha : "a.md".toList ∈ longSaved.paths := List.mem_cons_of_mem _ List.mem_cons_self
    have hb : "b.md".toList ∈ longSaved.paths :=
      List.mem_cons_of_mem _ (List.mem_cons_of_mem _ List.mem_cons_self)
    exact sameFile_pairAfter ha hb hnot
  · exact absurd hold (Settings.not_covers_nil q)
  · rw [entry?_pairAfter]
    split
    · exact ⟨_, rfl⟩
    · split
      · exact ⟨_, rfl⟩
      · exact ⟨b, hb⟩

/-- A report of a path that cannot be looked for changes nothing in the index. -/
theorem index_handle_of_error {sv : Service} {d : Disk} {paths old : List Text} {f : PathFault}
    (h : sv.settings.expandPaths d paths = .error f) :
    (sv.handle d ⟨.saved, paths, old⟩).1.index = sv.index := by
  show (sv.scan d .fileCreatedOrUpdated paths []).1.index = _
  unfold Service.scan Settings.scan Settings.scanPaths
  simp only [h]

theorem expandPaths_longSaved : vaultSettings.expandPaths pairAfter longSaved.paths =
    .error (.nameTooLong ("/w/".toList ++ List.replicate 256 'a')) := by
  decide +kernel

/-- Extensions of which the second one reaches into a directory. -/
def deepSettings : Settings := ⟨[['w']], [".md".toList, ".d/x.??".toList], [], {}, []⟩

/-- A disk with a directory that holds a note, or without it. -/
def deepDisk (there : Bool) : Disk :=
  { Disk.ofDirectories [] [['w']] [] with
    entries := .ofList (([['w']], .directory) :: if there then
      [([['w'], "foo.d".toList], .directory), ([['w'], "foo.d".toList, "x.MD".toList],
        .file (encodeUtf8 "#t".toList))] else []) }

/-- The report that the directory was created. -/
def deepCreated : WorkspaceEvent := ⟨.created, ["foo.d".toList], []⟩

theorem normalize_deepDisk :
    deepSettings.normalize (deepDisk true) "foo.d".toList = .ok (.ofPath [['w'], "foo.d".toList]) := by
  decide +kernel

theorem refuses_deepDisk (there : Bool) (name : PathName) (which : Refusal → Bool) :
    (deepDisk there).refuses name which = false := rfl

theorem entry?_deepDisk_false (q : Path) (b : List UInt8) :
    Disk.entry? (deepDisk false) q ≠ some (.file b) := by
  intro h
  have hkinds : ∀ x ∈ (deepDisk false).entries.toList, x.2 = .directory := by decide
  cases hkinds _ ((Disk.entry?_eq_some (Disk.ne_nil_of_entry?_file h)).mp h)

/-- The only file of the disk. -/
theorem entry?_deepDisk_true {q : Path} {b : List UInt8}
    (h : Disk.entry? (deepDisk true) q = some (.file b)) : q = [['w'], "foo.d".toList, "x.MD".toList] := by
  have hkinds : ∀ x ∈ (deepDisk true).entries.toList,
      x.2 = .directory ∨ x.1 = [['w'], "foo.d".toList, "x.MD".toList] := by decide
  rcases hkinds _ ((Disk.entry?_eq_some (Disk.ne_nil_of_entry?_file h)).mp h) with hdir | hpath
  · cases hdir
  · exact hpath

theorem reports_deepCreated : deepSettings.Reports (deepDisk false) (deepDisk true) deepCreated := by
  have hcovers : deepSettings.Covers (deepDisk true) deepCreated.paths
      [['w'], "foo.d".toList, "x.MD".toList] :=
    ⟨_, List.mem_singleton.mpr rfl, _, normalize_deepDisk, by decide⟩
  refine ⟨fun w hw => ?_, ⟨fun q _ hnot => ⟨fun b => ⟨fun h => ?_, fun h => ?_⟩, ?_⟩,
    fun q b hold _ => ?_, fun q b _ _ hb => ?_⟩⟩
  · obtain rfl := List.mem_singleton.mp hw
    exact ⟨_, some .directory, normalize_deepDisk, by decide, by decide +kernel⟩
  · rw [entry?_deepDisk_true h] at hnot
    exact absurd hcovers hnot
  · exact absurd h (entry?_deepDisk_false q b)
  · rw [refuses_deepDisk, refuses_deepDisk]
  · exact absurd hold (Settings.not_covers_nil q)
  · exact absurd hb (entry?_deepDisk_false q b)

/-- The whole listing of a disk and membership agree on its files. -/
def AgreesOnFiles (s : Settings) (d : Disk) : Prop :=
  ∃ l, s.listDocuments d [] = .ok l ∧ ∀ q b, d.entry? q = some (.file b) → s.root <+: q →
    (Path.toText q ∈ l ↔ s.isDocument (.ofPath q) = true)

/-- **What a report has to say, and discovery to name.** A name that is too long to be looked for leaves
    the index behind, although the report covers all that changed. And so does a directory with a document
    that is found from the root only, although the whole listing and membership agree. -/
theorem index_ne_rescan :
    (vaultSettings.Trackable pairBefore ∧ vaultSettings.Trackable pairAfter ∧
      vaultSettings.Inside pairAfter longSaved.paths ∧
      vaultSettings.Changed pairBefore pairAfter [] longSaved.paths ∧
      ¬∃ full, vaultSettings.scan pairAfter .workspace [] [] .empty = (full, .ok ()) ∧
        ∀ k, ((Service.scanAll { settings := vaultSettings } pairBefore).1.handle pairAfter
          longSaved).1.index.get? k = full.get? k) ∧
    (AgreesOnFiles deepSettings (deepDisk false) ∧ AgreesOnFiles deepSettings (deepDisk true) ∧
      deepSettings.Reports (deepDisk false) (deepDisk true) deepCreated ∧
      ¬∃ full, deepSettings.scan (deepDisk true) .workspace [] [] .empty = (full, .ok ()) ∧
        ∀ k, ((Service.scanAll { settings := deepSettings } (deepDisk false)).1.handle (deepDisk true)
          deepCreated).1.index.get? k = full.get? k) := by
  refine ⟨⟨trackable_pairBefore, trackable_pairAfter, inside_longSaved, changed_longSaved, ?_⟩,
    ⟨[], by decide +kernel, fun q b hb _ => absurd hb (entry?_deepDisk_false q b)⟩,
    ⟨["/w/foo.d/x.MD".toList], by decide +kernel, fun q b hb _ => ?_⟩, reports_deepCreated, ?_⟩
  · rintro ⟨full, hfull, hget⟩
    -- the note is indexed as it was before it was saved
    have hstale := hget "/w/a.md".toList
    have hsettings : (Service.scanAll { settings := vaultSettings } pairBefore).1.settings =
        vaultSettings := by cbv
    rw [longSaved, index_handle_of_error (hsettings ▸ expandPaths_longSaved)] at hstale
    have hwas : ((Service.scanAll { settings := vaultSettings } pairBefore).1.index.get?
        "/w/a.md".toList).map (·.occurrences.map (·.path)) = some [["a".toList]] := by cbv
    have hnow : ((vaultSettings.scan pairAfter .workspace [] [] .empty).1.get? "/w/a.md".toList).map
        (·.occurrences.map (·.path)) = some [["b".toList]] := by cbv
    rw [hfull] at hnow
    rw [hstale, hnow] at hwas
    exact absurd hwas (by decide)
  · rw [entry?_deepDisk_true hb]
    decide
  · rintro ⟨full, hfull, hget⟩
    -- the note is not indexed, and the full scan finds it
    have hmissed := hget "/w/foo.d/x.MD".toList
    have hnone : ((Service.scanAll { settings := deepSettings } (deepDisk false)).1.handle
        (deepDisk true) deepCreated).1.index.get? "/w/foo.d/x.MD".toList = none := by cbv
    have hnow : ((deepSettings.scan (deepDisk true) .workspace [] [] .empty).1.get?
        "/w/foo.d/x.MD".toList).isSome = true := by cbv
    rw [hfull, ← hmissed, hnone] at hnow
    cases hnow

end HashtagIndex
