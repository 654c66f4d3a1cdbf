import HashtagIndex.Proofs.MapViews
import HashtagIndex.Proofs.Outcomes
import HashtagIndex.Workspace.Service

/-!
# `Proofs.Scanning` — what an index holds after documents were read

What the index should hold for a document is a function of the disk, `recordOf`: its tags if it can be
read, and otherwise nothing. Reading documents one by one stores exactly that (`get?_fullIndex`), and it
fails only at a name that cannot be used at all.

## Contents
- `recordOf`, `scanFile_eq_ok`, `scanDocuments_eq_ok`: reading documents.
- `get?_ofRecords`, `fullIndex_eq_ok`, `get?_fullIndex`: rebuilding the index.
- `Settings.Usable`, `Settings.dropsKey`, `removePaths_eq`, `exists_removePaths_eq`, `scan_deleted`: dropping
  what is at or below some paths.
- `Service.index_scan`; `Service.InStep`: a service whose index is what a full scan gives.
-/

namespace HashtagIndex

/-! ## Reading documents -/

/-- What the index should hold for a document. -/
def recordOf (d : Disk) (file : Text) : Option Record :=
  (d.readDocument file).toOption.map fun text => ⟨file, parseTags text file⟩

theorem recordOf_eq_some {d : Disk} {file : Text} {r : Record} :
    recordOf d file = some r ↔ ∃ text, d.readDocument file = .ok text ∧ r = ⟨file, parseTags text file⟩ := by
  rw [recordOf]
  rcases d.readDocument file with f | text
  · simp [Except.toOption]
  · simp [Except.toOption, eq_comm]

/-- A name can be used for reading unless it holds a null character. -/
theorem readDocument_eq_path_iff {d : Disk} {file : Text} :
    (∃ f, d.readDocument file = .error (.path f)) ↔ '\x00' ∈ file := by
  rw [Disk.readDocument, Disk.readRaw]
  split
  · next h => exact ⟨fun _ => h, fun _ => ⟨_, rfl⟩⟩
  · next h =>
    refine ⟨fun ⟨f, hf⟩ => ?_, fun h' => absurd h' h⟩
    cases hopen : d.openFile (PathName.ofText file) with
    | error e =>
      rw [hopen] at hf
      cases hf
    | ok r =>
      cases hdecode : decodeUtf8 r.2 with
      | error e =>
        simp only [hopen, hdecode] at hf
        cases hf
      | ok text =>
        simp only [hopen, hdecode] at hf
        cases hf

theorem scanFile_eq_ok {d : Disk} {file : Text} {r : Option Record} :
    scanFile d file = .ok r ↔ '\x00' ∉ file ∧ r = recordOf d file := by
  rw [← readDocument_eq_path_iff (d := d), scanFile, recordOf]
  rcases d.readDocument file with (f | f) | text
  · simp
  · simp [Except.toOption, eq_comm]
  · simp [Except.toOption, eq_comm]

theorem scanDocuments_eq_ok {d : Disk} {files : List Text} {rs : List Record} :
    Settings.scanDocuments d files = .ok rs ↔
      (∀ file ∈ files, '\x00' ∉ file) ∧ rs = files.filterMap (recordOf d) := by
  induction files generalizing rs with
  | nil => simp [Settings.scanDocuments, eq_comm]
  | cons file rest ih =>
    rw [Settings.scanDocuments, bind_eq_ok, List.forall_mem_cons]
    simp only [scanFile_eq_ok, bind_eq_ok, ih]
    constructor
    · rintro ⟨_, ⟨hfile, rfl⟩, _, ⟨hrest, rfl⟩, hrs⟩
      refine ⟨⟨hfile, hrest⟩, ?_⟩
      rw [← Except.ok.inj hrs, List.filterMap_cons]
      cases recordOf d file <;> rfl
    · rintro ⟨⟨hfile, hrest⟩, rfl⟩
      refine ⟨_, ⟨hfile, rfl⟩, _, ⟨hrest, rfl⟩, ?_⟩
      rw [List.filterMap_cons]
      cases recordOf d file <;> rfl

/-! ## Rebuilding the index -/

theorem get?_upsert (ix : Index) (r : Record) (k : Text) :
    (ix.upsert r).get? k = if k = r.file then some r else ix.get? k :=
  OrderedMap.get?_insert _ _ _ _

theorem get?_foldl_upsert (d : Disk) (files : List Text) (ix : Index) (k : Text) :
    ((files.filterMap (recordOf d)).foldl Index.upsert ix).get? k =
      if k ∈ files then (recordOf d k).or (ix.get? k) else ix.get? k := by
  induction files generalizing ix with
  | nil => simp
  | cons file rest ih =>
    rw [List.filterMap_cons]
    cases hr : recordOf d file with
    | none =>
      rw [ih]
      by_cases hk : k = file
      · subst hk
        simp [hr]
      · simp [hk]
    | some r =>
      obtain ⟨text, -, rfl⟩ := recordOf_eq_some.mp hr
      rw [List.foldl_cons, ih, get?_upsert]
      by_cases hk : k = file
      · subst hk
        simp [hr]
      · simp [hk]

/-- **Rebuilding the index** stores what each document holds, and nothing else. -/
theorem get?_ofRecords (d : Disk) (files : List Text) (k : Text) :
    (Index.ofRecords (files.filterMap (recordOf d))).get? k =
      if k ∈ files then recordOf d k else none := by
  rw [Index.ofRecords, get?_foldl_upsert]
  have hempty : (OrderedMap.empty : Index).get? k = none := rfl
  rw [hempty, Option.or_none]

namespace Settings

theorem fullIndex_eq_ok {s : Settings} {d : Disk} {ix : Index} :
    s.fullIndex d = .ok ix ↔ ∃ files, s.listDocuments d [] = .ok files ∧
      (∀ file ∈ files, '\x00' ∉ file) ∧ ix = Index.ofRecords (files.filterMap (recordOf d)) := by
  rw [fullIndex, bind_eq_ok]
  simp only [bind_eq_ok, scanDocuments_eq_ok]
  constructor
  · rintro ⟨files, hfiles, _, ⟨hnul, rfl⟩, hix⟩
    exact ⟨files, hfiles, hnul, (Except.ok.inj hix).symm⟩
  · rintro ⟨files, hfiles, hnul, rfl⟩
    exact ⟨files, hfiles, _, ⟨hnul, rfl⟩, rfl⟩

/-- What a rebuilt index holds. -/
theorem get?_fullIndex {s : Settings} {d : Disk} {ix : Index} {files : List Text}
    (hix : s.fullIndex d = .ok ix) (hfiles : s.listDocuments d [] = .ok files) (k : Text) :
    ix.get? k = if k ∈ files then recordOf d k else none := by
  obtain ⟨files', hfiles', -, rfl⟩ := fullIndex_eq_ok.mp hix
  rw [hfiles] at hfiles'
  cases hfiles'
  exact get?_ofRecords d files k

/-! ## Dropping documents -/

/-- Written paths all of which can be used. -/
def Usable (s : Settings) (d : Disk) (written : List Text) : Prop :=
  ∀ w ∈ written, ∃ p, s.normalize d w = .ok p

/-- Whether a key is at or below one of some written paths. -/
def dropsKey (s : Settings) (d : Disk) (written : List Text) (key : Text) : Bool :=
  written.any fun w =>
    match s.normalize d w with
    | .ok p => atOrBelow p.toText key
    | .error _ => false

variable {s : Settings} {d : Disk} {written : List Text}

theorem dropsKey_eq_true {key : Text} : s.dropsKey d written key = true ↔
    ∃ w ∈ written, ∃ p, s.normalize d w = .ok p ∧ atOrBelow p.toText key = true := by
  rw [dropsKey, List.any_eq_true]
  apply exists_congr
  intro w
  cases s.normalize d w <;> simp

theorem dropsKey_cons {w : Text} {p : PathName} (hp : s.normalize d w = .ok p) (key : Text) :
    s.dropsKey d (w :: written) key = (atOrBelow p.toText key || s.dropsKey d written key) := by
  rw [dropsKey, List.any_cons, hp]
  rfl

/-- **Dropping what is at or below some paths**, one path after the other, leaves the rest as it stands. -/
theorem removePaths_eq (h : s.Usable d written) (ix : Index) :
    s.removePaths d ix written = (ix.filterKeys fun k => !s.dropsKey d written k, .ok ()) := by
  induction written generalizing ix with
  | nil =>
    show (ix, _) = (ix.filterKeys fun _ => true, _)
    rw [OrderedMap.filterKeys_true]
  | cons w rest ih =>
    obtain ⟨⟨p, hp⟩, hrest⟩ := List.forall_mem_cons.mp h
    rw [removePaths, hp]
    show s.removePaths d (ix.filterKeys fun k => !atOrBelow p.toText k) rest = _
    rw [ih hrest, OrderedMap.filterKeys_filterKeys]
    simp only [dropsKey_cons hp, Bool.not_or, Bool.and_comm]

/-- Dropping paths leaves some keys out and nothing else, also if it stops at a path that cannot be used. -/
theorem exists_removePaths_eq (s : Settings) (d : Disk) (written : List Text) (ix : Index) :
    ∃ test, (s.removePaths d ix written).1 = ix.filterKeys test := by
  induction written generalizing ix with
  | nil => exact ⟨fun _ => true, (OrderedMap.filterKeys_true ix).symm⟩
  | cons w rest ih =>
    unfold removePaths
    split
    · exact ⟨fun _ => true, (OrderedMap.filterKeys_true ix).symm⟩
    · obtain ⟨test, htest⟩ := ih (ix.filterKeys _)
      rw [htest, OrderedMap.filterKeys_filterKeys]
      exact ⟨_, rfl⟩

/-- A scan for deleted paths is one for a renaming without new paths. -/
theorem scan_deleted (s : Settings) (d : Disk) (paths old : List Text) (ix : Index) :
    s.scan d .fileDeleted paths old ix = s.scan d .fileRenamed [] paths ix := by
  unfold scan
  simp only
  rcases s.removePaths d ix paths with ⟨ix', f | u⟩
  · rfl
  · rfl

end Settings

/-! ## Services -/

theorem Service.settings_scan (sv : Service) (d : Disk) (reason : ScanReason)
    (changed old : List Text) : (sv.scan d reason changed old).1.settings = sv.settings := by
  unfold scan
  split <;> rfl

theorem Service.index_scan (sv : Service) (d : Disk) (reason : ScanReason) (changed old : List Text) :
    (sv.scan d reason changed old).1.index =
      (sv.settings.scan d reason changed old sv.index).1 := by
  unfold scan
  split <;> next heq => rw [heq]

/-- A service whose index is what a full scan of the disk gives. -/
def Service.InStep (sv : Service) (d : Disk) : Prop :=
  ∃ full, sv.settings.fullIndex d = .ok full ∧ ∀ k, sv.index.get? k = full.get? k

/-- What an index in step with the disk holds. -/
theorem Service.InStep.get? {sv : Service} {d : Disk} (h : sv.InStep d) :
    ∃ files, sv.settings.listDocuments d [] = .ok files ∧ (∀ file ∈ files, '\x00' ∉ file) ∧
      ∀ k, sv.index.get? k = if k ∈ files then recordOf d k else none := by
  obtain ⟨full, hfull, hindex⟩ := h
  obtain ⟨files, hfiles, hnul, -⟩ := Settings.fullIndex_eq_ok.mp hfull
  exact ⟨files, hfiles, hnul, fun k => (hindex k).trans (Settings.get?_fullIndex hfull hfiles k)⟩

/-- What an index in step with the disk holds for a document is what the document holds. -/
theorem Service.InStep.recordOf_eq {sv : Service} {d : Disk} (h : sv.InStep d) {k : Text} {r : Record}
    (hr : sv.index.get? k = some r) : recordOf d k = some r := by
  obtain ⟨files, -, -, hget⟩ := h.get?
  rw [hget] at hr
  split at hr
  · exact hr
  · cases hr

/-- An indexed document is one that was read. -/
theorem Service.InStep.exists_of_mem_keys {sv : Service} {d : Disk} (h : sv.InStep d) {k : Text}
    (hk : k ∈ sv.index.keys) : '\x00' ∉ k ∧ ∃ t, d.readDocument k = .ok t ∧
      sv.index.get? k = some ⟨k, parseTags t k⟩ := by
  obtain ⟨r, hr⟩ := OrderedMap.mem_keys_iff.mp hk
  obtain ⟨t, ht, rfl⟩ := recordOf_eq_some.mp (h.recordOf_eq hr)
  refine ⟨?_, t, ht, hr⟩
  intro hnul
  obtain ⟨f, hf⟩ := readDocument_eq_path_iff (d := d).mpr hnul
  cases ht.symm.trans hf

/-- A full scan that comes out well leaves the service in step. -/
theorem Service.scanAll_eq {sv : Service} {d : Disk} {full : Index}
    (h : sv.settings.fullIndex d = .ok full) :
    ∃ summary, sv.scanAll d = ({ sv with index := full, scanned := true }, .ok summary) := by
  have hscanned : (sv.scanned || ScanReason.workspace == ScanReason.workspace) = true :=
    Bool.or_true _
  rw [scanAll, scan, Settings.scan]
  simp only [h, hscanned]
  exact ⟨_, rfl⟩

end HashtagIndex
