import HashtagIndex.Proofs.Discovery
import HashtagIndex.Proofs.Grounds
import HashtagIndex.Proofs.Leading
import HashtagIndex.Proofs.Scanning

/-!
# `Proofs.Updating` — one scan for changed paths

The index *mirrors* a disk if it holds what each document of the workspace says, and nothing else. Where
discovery names the documents, this is what a full scan gives (`exists_fullIndex`). A scan for changed
paths first drops what the old paths cover and then reads again what the new ones cover. If the index
mirrored the disk before the change, and only files that are covered changed, it mirrors the disk
afterwards (`scan_of_changed`).

## Contents
- `Settings.DocumentAt`, `Settings.ListsDocuments`, `Mirrors`.
- `refresh_eq_ok`, `removePaths_eq_ok`, `expandPaths_eq_ok`: the parts of a scan.
- `Covers`, `Changed`, `scan_of_changed`.
-/

namespace HashtagIndex

/-! ## Documents of link-free trees -/

theorem nul_not_mem_toText {p : Path} (hp : ProperPath p) : '\x00' ∉ Path.toText p := by
  intro hnul
  rcases List.mem_cons.mp hnul with hslash | hnul
  · exact absurd hslash (by decide)
  · rcases exists_of_mem_joinSegments hnul with hslash | ⟨n, hn, hin⟩
    · exact absurd hslash (by decide)
    · exact (hp n hn).2.2.2.2 hin

namespace Disk

variable {d d' : Disk} {q : Path}

/-- What can be read at a path of proper names is a file there. -/
theorem LinkFree.exists_file_of_recordOf (hd : d.LinkFree) (hq : ProperPath q) {r : Record}
    (h : recordOf d (Path.toText q) = some r) : ∃ b, d.entry? q = some (.file b) := by
  obtain ⟨text, htext, -⟩ := recordOf_eq_some.mp h
  obtain ⟨⟨p, raw⟩, hraw, -⟩ := map_eq_ok.mp htext
  obtain ⟨bytes, hopen, -⟩ := readRaw_eq_ok hraw
  obtain ⟨hlocate, hentry⟩ := openFile_eq_ok hopen
  rw [ofText_toText hq] at hlocate
  obtain rfl := hd.locate?_eq_ok hq hlocate
  exact ⟨bytes, hentry⟩

/-- The same file, or none, at a path of two disks, and the same leave to read it. -/
structure SameFile (d d' : Disk) (q : Path) : Prop where
  file_iff : ∀ b, d'.entry? q = some (.file b) ↔ d.entry? q = some (.file b)
  refuses : d'.refuses (.ofPath q) (·.reading) = d.refuses (.ofPath q) (·.reading)

/-- The same file says the same, where the directories above it may be searched. -/
theorem SameFile.recordOf (h : d.SameFile d' q) (hd : d.IsTree) (hd' : d'.IsTree) (hpass : d.Passable q)
    (hpass' : d'.Passable q) {b : List UInt8} (hb : d.entry? q = some (.file b)) :
    recordOf d' (Path.toText q) = recordOf d (Path.toText q) := by
  have hb' := (h.file_iff b).mpr hb
  have hopen : d'.openFile (.ofPath q) = d.openFile (.ofPath q) := by
    have hwithin : ∀ base, (PathName.ofPath q).within base = .ofPath q := fun _ => rfl
    unfold openFile
    rw [h.refuses, hwithin, hwithin]
    simp only [PathName.ofPath]
    rw [hd.locate?_of_entry hb (Entry.file_ne_link b) hpass,
      hd'.locate?_of_entry hb' (Entry.file_ne_link b) hpass']
    by_cases hopenable : Openable q
    · rw [if_pos hopenable]
      simp only [hb, hb']
    · rw [if_neg hopenable]
  have hraw : d'.readRaw (Path.toText q) = d.readRaw (Path.toText q) := by
    simp only [readRaw, ofText_toText (hd.properPath hb), hopen]
  unfold HashtagIndex.recordOf readDocument
  rw [hraw]

end Disk

/-! ## The index of a workspace -/

namespace Settings

/-- A document of the workspace: a file at or below the root whose path name is that of a document. -/
structure DocumentAt (s : Settings) (d : Disk) (q : Path) : Prop where
  below : s.root <+: q
  file : ∃ b, d.entry? q = some (.file b)
  named : s.isDocument (.ofPath q) = true

/-- Discovery names the documents: the listing of the workspace is made of its documents, and that of
    a directory of those that stand there. -/
structure ListsDocuments (s : Settings) (d : Disk) : Prop where
  whole : ∃ l, s.listDocuments d [] = .ok l ∧ ∀ t, t ∈ l ↔ ∃ q, s.DocumentAt d q ∧ t = Path.toText q
  folder : ∀ p, s.root <+: p → d.entry? p = some .directory →
    ∃ l, s.listDocuments d (Path.toText p) = .ok l ∧
      ∀ t, t ∈ l ↔ ∃ q, s.DocumentAt d q ∧ p <+: q ∧ t = Path.toText q

/-- An index that holds what each document of the workspace says, and nothing else. -/
structure Mirrors (s : Settings) (d : Disk) (ix : Index) : Prop where
  present : ∀ q, s.DocumentAt d q → ix.get? (Path.toText q) = recordOf d (Path.toText q)
  absent : ∀ k, (∀ q, s.DocumentAt d q → k ≠ Path.toText q) → ix.get? k = none

variable {s : Settings} {d d' : Disk}

/-- A document that discovery names can be opened, so the directories above it may be searched. -/
theorem ListsDocuments.passable (h : s.ListsDocuments d) (hd : d.IsTree) (hlinks : d.LinkFree)
    (hroot : ProperPath s.root) {q : Path} (hq : s.DocumentAt d q) : d.Passable q := by
  obtain ⟨b, hb⟩ := hq.file
  obtain ⟨l, hl, hmem⟩ := h.whole
  have hlisted : Path.toText q ∈ l := (hmem _).mpr ⟨q, hq, rfl⟩
  rw [listDocuments_root] at hl
  rcases file_or_discover_of_mem_documentsAt hl hlisted with ⟨hfile, htext⟩ | hfound
  · -- the root is the document
    obtain ⟨f, -, hf, -⟩ := Disk.isFile_eq_ok_true.mp hfile
    obtain rfl : q = s.root := toText_inj (hd.properPath hb) hroot htext
    obtain rfl := hlinks.locate?_eq_ok hroot hf
    exact Disk.passable_of_locate? hf
  · obtain ⟨e, -, places, -, place, -, hfile, name, hname, htext⟩ := found_of_mem_discover hfound hlisted
    obtain ⟨f, c, hf, hc⟩ := Disk.isFile_eq_ok_true.mp hfile
    rw [hd.resolve_of_locate? hf] at hname
    obtain rfl := Except.ok.inj hname
    obtain rfl : q = f := toText_inj (hd.properPath hb) (hd.properPath hc) htext
    exact Disk.passable_of_locate? hf

/-- **A full scan** comes out well and mirrors the disk. -/
theorem exists_fullIndex (hd : d.IsTree) (hlists : s.ListsDocuments d) :
    ∃ full, s.fullIndex d = .ok full ∧ s.Mirrors d full := by
  obtain ⟨l, hl, hmem⟩ := hlists.whole
  have hnul : ∀ t ∈ l, '\x00' ∉ t := by
    intro t ht
    obtain ⟨q, hq, rfl⟩ := (hmem t).mp ht
    obtain ⟨b, hb⟩ := hq.file
    exact nul_not_mem_toText (hd.properPath hb)
  have hfull := fullIndex_eq_ok.mpr ⟨l, hl, hnul, rfl⟩
  refine ⟨_, hfull, ⟨fun q hq => ?_, fun k hk => ?_⟩⟩
  · rw [get?_fullIndex hfull hl, if_pos ((hmem _).mpr ⟨q, hq, rfl⟩)]
  · have hnot : k ∉ l := by
      intro hkl
      obtain ⟨q, hq, hkq⟩ := (hmem k).mp hkl
      exact hk q hq hkq
    rw [get?_fullIndex hfull hl, if_neg hnot]

/-- Two indexes that mirror one disk hold the same. -/
theorem Mirrors.get?_eq {ix ix' : Index} (h : s.Mirrors d ix) (h' : s.Mirrors d ix') (k : Text) :
    ix.get? k = ix'.get? k := by
  by_cases hk : ∃ q, s.DocumentAt d q ∧ k = Path.toText q
  · obtain ⟨q, hq, rfl⟩ := hk
    rw [h.present q hq, h'.present q hq]
  · have hnone : ∀ q, s.DocumentAt d q → k ≠ Path.toText q := fun q hq hkq => hk ⟨q, hq, hkq⟩
    rw [h.absent k hnone, h'.absent k hnone]

/-! ## Reading documents again -/

/-- The index with a document stored as it was found, or dropped. -/
def store (ix : Index) (file : Text) : Option Record → Index
  | none => ix.erase file
  | some r => ix.upsert r

theorem get?_store (d : Disk) (ix : Index) (file k : Text) :
    (store ix file (recordOf d file)).get? k = if k = file then recordOf d k else ix.get? k := by
  cases hr : recordOf d file with
  | none =>
    -- what cannot be read is dropped, and `recordOf` has nothing for it
    show (ix.erase file).get? k = _
    rw [OrderedMap.get?_erase]
    split
    · next hk => rw [hk, hr]
    · rfl
  | some r =>
    obtain ⟨text, -, rfl⟩ := recordOf_eq_some.mp hr
    show (ix.upsert _).get? k = _
    rw [get?_upsert]
    split
    · next hk => rw [hk, hr]
    · rfl

theorem refresh_cons {file : Text} (hnul : '\x00' ∉ file) (ix : Index) (rest : List Text) :
    refresh d ix (file :: rest) = refresh d (store ix file (recordOf d file)) rest := by
  have hscan : scanFile d file = .ok (recordOf d file) := scanFile_eq_ok.mpr ⟨hnul, rfl⟩
  rw [refresh, hscan]
  cases recordOf d file <;> rfl

/-- **Documents read again** are stored as they are now, or dropped. -/
theorem refresh_eq_ok {files : List Text} (hnul : ∀ file ∈ files, '\x00' ∉ file) (ix : Index) :
    ∃ ix', refresh d ix files = (ix', .ok ()) ∧
      ∀ k, ix'.get? k = if k ∈ files then recordOf d k else ix.get? k := by
  induction files generalizing ix with
  | nil => exact ⟨ix, rfl, fun k => by simp⟩
  | cons file rest ih =>
    obtain ⟨hfile, hrest⟩ := List.forall_mem_cons.mp hnul
    obtain ⟨ix', hix', hall⟩ := ih hrest (store ix file (recordOf d file))
    refine ⟨ix', (refresh_cons hfile ix rest).trans hix', fun k => ?_⟩
    rw [hall, get?_store]
    by_cases hk : k ∈ rest
    · simp [hk]
    · simp [hk]

/-! ## Paths at or below listed ones -/

/-- A path stands at or below one of some written paths. -/
def Covers (s : Settings) (d : Disk) (written : List Text) (q : Path) : Prop :=
  ∃ w ∈ written, ∃ p, s.normalize d w = .ok (.ofPath p) ∧ p <+: q

theorem not_covers_nil (q : Path) : ¬s.Covers d [] q := by
  rintro ⟨w, hw, -⟩
  exact List.not_mem_nil hw

/-- Written paths that lead inside the workspace. -/
def Inside (s : Settings) (d : Disk) (written : List Text) : Prop :=
  ∀ w ∈ written, ∃ p, s.normalize d w = .ok (.ofPath p) ∧ s.root <+: p

/-- A written path leads to a path of proper names. -/
theorem properPath_of_normalize (hd : d.LinkFree) (hroot : ProperPath s.root) {w : Text} {p : Path}
    (h : s.normalize d w = .ok (.ofPath p)) : ProperPath p := by
  obtain ⟨p', hp', hproper⟩ := hd.canonical_eq_ok hroot h
  cases hp'
  exact hproper

/-- **What old paths cover is dropped**, and nothing else. -/
theorem removePaths_eq_ok (hd : d.LinkFree) (hroot : ProperPath s.root) {old : List Text}
    (hold : s.Inside d old) (ix : Index) :
    ∃ ix', s.removePaths d ix old = (ix', .ok ()) ∧ (∀ k, ix.get? k = none → ix'.get? k = none) ∧
      ∀ q, ProperPath q → (s.Covers d old q → ix'.get? (Path.toText q) = none) ∧
        (¬s.Covers d old q → ix'.get? (Path.toText q) = ix.get? (Path.toText q)) := by
  have husable : s.Usable d old := by
    intro w hw
    obtain ⟨p, hp, -⟩ := hold w hw
    exact ⟨_, hp⟩
  have hcovers : ∀ q, ProperPath q → (s.dropsKey d old (Path.toText q) = true ↔ s.Covers d old q) := by
    intro q hq
    rw [dropsKey_eq_true]
    constructor
    · rintro ⟨w, hw, n, hn, hbelow⟩
      obtain ⟨p, hp, -⟩ := hold w hw
      obtain rfl := Except.ok.inj (hn.symm.trans hp)
      exact ⟨w, hw, p, hp, (atOrBelow_toText (properPath_of_normalize hd hroot hp) hq).mp hbelow⟩
    · rintro ⟨w, hw, p, hp, hpq⟩
      exact ⟨w, hw, _, hp, (atOrBelow_toText (properPath_of_normalize hd hroot hp) hq).mpr hpq⟩
  refine ⟨_, removePaths_eq husable ix, ?_, ?_⟩
  · intro k hk
    rw [OrderedMap.get?_filterKeys, hk, ite_self]
  · intro q hq
    rw [OrderedMap.get?_filterKeys, ← hcovers q hq]
    constructor
    · intro hdropped
      rw [hdropped]
      rfl
    · intro hkept
      rw [Bool.not_eq_true] at hkept
      rw [hkept]
      rfl

/-- Written paths that lead inside the workspace, to where something can be looked for. -/
def Scannable (s : Settings) (d : Disk) (written : List Text) : Prop :=
  ∀ w ∈ written, ∃ p x, s.normalize d w = .ok (.ofPath p) ∧ s.root <+: p ∧ d.look p = .ok x

/-- A text that scanning a path at or below `p` may read: one that names a document there, whether or not
    it exists. -/
structure Candidate (s : Settings) (q : Path) (t : Text) : Prop where
  text : t = Path.toText q
  proper : ProperPath q
  below : s.root <+: q
  named : s.isDocument (.ofPath q) = true

/-- What a changed path stands for: the documents at or below it, and nothing that is not at or below
    it. -/
theorem expandPath_eq_ok (htree : d.IsTree) (hd : d.LinkFree) (hroot : ProperPath s.root)
    (hlists : s.ListsDocuments d) {w : Text} {p : Path} {x : Option Entry}
    (hp : s.normalize d w = .ok (.ofPath p)) (hbelow : s.root <+: p) (hlook : d.look p = .ok x) :
    ∃ files, s.expandPath d w = .ok files ∧ (∀ t ∈ files, ∃ q, s.Candidate q t ∧ p <+: q) ∧
      ∀ q, s.DocumentAt d q → p <+: q → Path.toText q ∈ files := by
  have hproper := properPath_of_normalize hd hroot hp
  have hdir : d.isDirectory (PathName.ofPath p).parts = .ok (decide (x = some .directory)) := by
    unfold Disk.isDirectory PathName.ofPath
    rw [hlook]
    rfl
  unfold expandPath
  rw [hp]
  -- a directory stands for its listing, anything else for itself, if it is named like a document
  by_cases hx : x = some .directory
  · subst hx
    obtain ⟨l, hl, hmem⟩ := hlists.folder p hbelow (hd.look_eq_ok hproper hlook)
    refine ⟨l, ?_, fun t ht => ?_, fun q hq hpq => (hmem _).mpr ⟨q, hq, hpq, rfl⟩⟩
    · show (d.isDirectory (PathName.ofPath p).parts >>= _) = _
      rw [hdir]
      exact hl
    · obtain ⟨q, hq, hpq, rfl⟩ := (hmem t).mp ht
      obtain ⟨b, hb⟩ := hq.file
      exact ⟨q, ⟨rfl, htree.properPath hb, hq.below, hq.named⟩, hpq⟩
  · refine ⟨if s.isDocument (.ofPath p) then [Path.toText p] else [], ?_, fun t ht => ?_,
      fun q hq hpq => ?_⟩
    · show (d.isDirectory (PathName.ofPath p).parts >>= _) = _
      rw [hdir, decide_eq_false hx]
      rfl
    · split at ht
      · next hnamed => exact ⟨p, ⟨List.mem_singleton.mp ht, hproper, hbelow, hnamed⟩, List.prefix_rfl⟩
      · exact absurd ht List.not_mem_nil
    · -- nothing stands below what is no directory
      obtain ⟨b, hb⟩ := hq.file
      obtain ⟨r, rfl⟩ := hpq
      have hr : r = [] := by
        by_contra hr
        exact hx (htree.eq_of_look (htree.entry?_of_append hb hr) Entry.directory_ne_link hlook)
      rw [hr, List.append_nil] at hq ⊢
      rw [if_pos hq.named]
      exact List.mem_singleton.mpr rfl

/-- **What changed paths stand for**: the documents that they cover, and nothing that they do not
    cover. -/
theorem expandPaths_eq_ok (htree : d.IsTree) (hd : d.LinkFree) (hroot : ProperPath s.root)
    (hlists : s.ListsDocuments d) {new : List Text} (hnew : s.Scannable d new) :
    ∃ files, s.expandPaths d new = .ok files ∧
      (∀ t ∈ files, ∃ q, s.Candidate q t ∧ s.Covers d new q) ∧
      ∀ q, s.DocumentAt d q → s.Covers d new q → Path.toText q ∈ files := by
  have hone : ∀ w ∈ new, ∃ files, s.expandPath d w = .ok files := by
    intro w hw
    obtain ⟨p, x, hp, hbelow, hlook⟩ := hnew w hw
    obtain ⟨files, hfiles, -⟩ := expandPath_eq_ok htree hd hroot hlists hp hbelow hlook
    exact ⟨files, hfiles⟩
  obtain ⟨found, hfound, hall⟩ := exists_mapM_eq_ok hone
  refine ⟨found.flatten.eraseDups, bind_eq_ok.mpr ⟨found, hfound, rfl⟩, fun t ht => ?_,
    fun q hq hcovered => ?_⟩
  · rw [List.mem_eraseDups, List.mem_flatten] at ht
    obtain ⟨files, hmem, ht⟩ := ht
    obtain ⟨w, hw, hfiles⟩ := (hall files).mp hmem
    obtain ⟨p, x, hp, hbelow, hlook⟩ := hnew w hw
    obtain ⟨files', hfiles', hsound, -⟩ := expandPath_eq_ok htree hd hroot hlists hp hbelow hlook
    obtain rfl := Except.ok.inj (hfiles.symm.trans hfiles')
    obtain ⟨q, hq, hpq⟩ := hsound t ht
    exact ⟨q, hq, w, hw, p, hp, hpq⟩
  · obtain ⟨w, hw, p, hp, hpq⟩ := hcovered
    obtain ⟨p', x, hp', hbelow, hlook⟩ := hnew w hw
    cases hp.symm.trans hp'
    obtain ⟨files, hfiles, -, hcomplete⟩ := expandPath_eq_ok htree hd hroot hlists hp hbelow hlook
    rw [List.mem_eraseDups, List.mem_flatten]
    exact ⟨files, (hall files).mpr ⟨w, hw, hfiles⟩, hcomplete q hq hpq⟩

/-! ## A change and the scan for it -/

/-- What became of the files of a disk: those that neither list covers are the same, those that only the
    old one covers are gone, and none that only the new one covers is gone. What both cover may have
    become anything. -/
structure Changed (s : Settings) (d d' : Disk) (old new : List Text) : Prop where
  kept : ∀ q, ¬s.Covers d' old q → ¬s.Covers d' new q → d.SameFile d' q
  gone : ∀ q b, s.Covers d' old q → ¬s.Covers d' new q → d'.entry? q ≠ some (.file b)
  written : ∀ q b, ¬s.Covers d' old q → s.Covers d' new q → d.entry? q = some (.file b) →
    ∃ b', d'.entry? q = some (.file b')

/-- A document that was not listed as new is the file it was. -/
theorem Changed.of_documentAt {old new : List Text} (h : s.Changed d d' old new) {q : Path}
    (hq : s.DocumentAt d' q) (hnot : ¬s.Covers d' new q) :
    ¬s.Covers d' old q ∧ s.DocumentAt d q ∧ d.SameFile d' q := by
  obtain ⟨b, hb⟩ := hq.file
  have hnotold : ¬s.Covers d' old q := fun hcovered => h.gone q b hcovered hnot hb
  have hsame := h.kept q hnotold hnot
  exact ⟨hnotold, ⟨hq.below, ⟨b, (hsame.file_iff b).mp hb⟩, hq.named⟩, hsame⟩

/-- A document that was not listed as old is still there. -/
theorem Changed.documentAt {old new : List Text} (h : s.Changed d d' old new) {q : Path}
    (hq : s.DocumentAt d q) (hnotold : ¬s.Covers d' old q) : s.DocumentAt d' q := by
  obtain ⟨b, hb⟩ := hq.file
  refine ⟨hq.below, ?_, hq.named⟩
  by_cases hnew : s.Covers d' new q
  · exact h.written q b hnotold hnew hb
  · exact ⟨b, ((h.kept q hnotold hnew).file_iff b).mpr hb⟩

/-- **A scan for changed paths** keeps an index a mirror of the disk. -/
theorem scan_of_changed (hroot : ProperPath s.root) (htree : d.IsTree) (htree' : d'.IsTree)
    (hd : d.LinkFree) (hd' : d'.LinkFree) (hlists : s.ListsDocuments d) (hlists' : s.ListsDocuments d')
    {old new : List Text} (hold : s.Inside d' old) (hnew : s.Scannable d' new)
    (hchanged : s.Changed d d' old new) {ix : Index} (hix : s.Mirrors d ix) :
    ∃ ix', s.scan d' .fileRenamed new old ix = (ix', .ok ()) ∧ s.Mirrors d' ix' := by
  obtain ⟨kept, hkept, hnone, hget⟩ := removePaths_eq_ok hd' hroot hold ix
  obtain ⟨files, hfiles, hsound, hcomplete⟩ := expandPaths_eq_ok htree' hd' hroot hlists' hnew
  have hnul : ∀ file ∈ files, '\x00' ∉ file := by
    intro file hfile
    obtain ⟨q, hq, -⟩ := hsound file hfile
    rw [hq.text]
    exact nul_not_mem_toText hq.proper
  obtain ⟨ix', hix', hread⟩ := refresh_eq_ok (d := d') hnul kept
  refine ⟨ix', ?_, ⟨fun q hq => ?_, fun k hk => ?_⟩⟩
  · unfold scan scanPaths
    simp only [hkept, hfiles]
    exact hix'
  · -- a document of the new disk was read again, or it is the file it was
    rw [hread]
    by_cases hmem : Path.toText q ∈ files
    · rw [if_pos hmem]
    · obtain ⟨hnotold, hwas, hsame⟩ :=
        hchanged.of_documentAt hq fun hcovered => hmem (hcomplete q hq hcovered)
      obtain ⟨b, hb⟩ := hwas.file
      rw [if_neg hmem, (hget q (htree.properPath hb)).2 hnotold, hix.present q hwas,
        hsame.recordOf htree htree' (hlists.passable htree hd hroot hwas) (hlists'.passable htree' hd' hroot hq) hb]
  · -- what is not a document of the new disk was dropped, or never was in the index
    rw [hread]
    by_cases hmem : k ∈ files
    · rw [if_pos hmem]
      obtain ⟨q, hq, -⟩ := hsound k hmem
      rw [hq.text] at hk ⊢
      by_contra hsome
      obtain ⟨r, hr⟩ := Option.ne_none_iff_exists'.mp hsome
      exact hk q ⟨hq.below, hd'.exists_file_of_recordOf hq.proper hr, hq.named⟩ rfl
    · rw [if_neg hmem]
      by_cases hwas : ∃ q, s.DocumentAt d q ∧ k = Path.toText q
      · obtain ⟨q, hq, rfl⟩ := hwas
        obtain ⟨b, hb⟩ := hq.file
        refine (hget q (htree.properPath hb)).1 ?_
        by_contra hnotold
        exact hk q (hchanged.documentAt hq hnotold) rfl
      · exact hnone k (hix.absent k fun q hq hkq => hwas ⟨q, hq, hkq⟩)

end Settings

end HashtagIndex
