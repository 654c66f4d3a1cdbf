import HashtagIndex.Proofs.FailedScans
import HashtagIndex.Proofs.Listing

/-!
# `Proofs.CanonicalKeys` — one key for each file

Where links run in no circle, a path that is written in whatever way is normalized, if at all, to a path without
links and dots, and that path is normalized to itself (`canonicalText_of_normalize`, `normalize_normalize`). It is
where the components of the written path lead (`Spells.normalize_eq`), and what opening it arrives at
(`spells_of_locate?`), so all spellings of a file have one key.

Every key of an index is such a path, whatever was scanned (`Scanned.isKey`): a changed path was normalized, and
what discovery answers is named by its own path. Two keys that lead to one file are therefore the same
(`eq_of_leadsTo`), and an index holds no two records for it.

## Contents
- `CanonicalText`, `canonicalText_of_normalize`, `normalize_normalize`.
- `Settings.Spells`, `spells_of_locate?`, `Spells.normalize_eq`.
- `Disk.IsKey`, `eq_of_leadsTo`, `isKey_of_mem_documentsAt`, `isKey_of_mem_expandPath`: keys.
- `Settings.Scanned`, `isKey_or_mem_of_mem_keys_scan`, `Scanned.isKey`: scans of one disk.
- `KeysCanonical`, `OneRecordEach`, `keys_canonical`, and a note with three names.
-/

namespace HashtagIndex

/-! ## What a path is normalized to -/

/-- A text that spells a path as it stands on a disk: behind a slash, without empty components and dots, without
    a slash at its end unless it is the root, and no link is on the way. -/
structure CanonicalText (d : Disk) (t : Text) : Prop where
  anchored : t.head? = some '/'
  components : t ≠ ['/'] → ∀ n ∈ t.tail.splitOn '/', IsComponent n
  untrailed : t ≠ ['/'] → t.getLast? ≠ some '/'
  direct : d.Direct (pathParts t)

theorem canonicalText_toText {d : Disk} {p : Path} (hp : Components p) (hdirect : d.Direct p) :
    CanonicalText d (Path.toText p) := by
  have hroot : Path.toText p ≠ ['/'] → p ≠ [] := by
    rintro hne rfl
    exact hne rfl
  refine ⟨rfl, fun hne => ?_, fun hne => ?_, ?_⟩
  · show ∀ n ∈ (joinSegments p).splitOn '/', IsComponent n
    rw [joinSegments, List.splitOn_intercalate '/' (fun n hn => (hp n hn).2.2.2) (hroot hne)]
    exact hp
  · have hjoined : joinSegments p ≠ [] := by
      intro hnil
      exact hne (congrArg (List.cons '/') hnil)
    rw [Path.toText, ← List.singleton_append, List.getLast?_append_of_ne_nil _ hjoined]
    exact getLast?_joinSegments hp (hroot hne)
  · rw [Path.toText, pathParts_slash, pathParts_joinSegments hp]
    exact hdirect

/-- A text under which a document may be indexed: it spells a path without links. -/
def Disk.IsKey (d : Disk) (k : Text) : Prop := ∃ p, Components p ∧ d.Direct p ∧ k = Path.toText p

/-- **A key that leads to a file spells its path.** -/
theorem eq_of_leadsTo {d : Disk} (hd : d.IsTree) {k : Text} (hk : d.IsKey k) {f : Path} (h : d.LeadsTo k f) :
    k = Path.toText f := by
  obtain ⟨p, hp, hdirect, rfl⟩ := hk
  have hreal := PathName.real_ofPath hp
  have hlocate : d.locate? p = .ok f := by
    have hread : PathName.ofText (Path.toText p) = .ofPath p := hreal.ofText_toText
    rw [Disk.LeadsTo, hread, PathName.within, if_pos hreal.isAbsolute] at h
    exact h.2
  obtain ⟨⟨n, hlead⟩, -⟩ := hd.leads_of_locate? hlocate
  obtain ⟨-, rfl⟩ := hlead.unique (hdirect.leads_root hp)
  rfl

namespace Settings

variable {s : Settings} {d : Disk} {w k : Text} {f : Path}

/-- **A written path is normalized to a path without links and dots.** -/
theorem exists_of_normalize (hroot : Components s.root) (hd : d.Acyclic) {n : PathName}
    (h : s.normalize d w = .ok n) : ∃ p, n = .ofPath p ∧ Components p ∧ d.Direct p := by
  obtain ⟨parts, hparts, hresolve⟩ := Disk.exists_resolve_of_canonical (fun m hm => (hroot m hm).2.2.2) h
  exact hd.resolve_eq_ok hparts hresolve

theorem canonicalText_of_normalize (hroot : Components s.root) (hd : d.Acyclic) {n : PathName}
    (h : s.normalize d w = .ok n) : CanonicalText d n.toText := by
  obtain ⟨p, rfl, hp, hdirect⟩ := exists_of_normalize hroot hd h
  exact canonicalText_toText hp hdirect

/-- **What was normalized is normalized to itself.** -/
theorem normalize_normalize (hroot : Components s.root) (hd : d.ResolvesOnce) {n : PathName}
    (h : s.normalize d w = .ok n) : s.normalize d n.toText = .ok n := by
  obtain ⟨parts, hparts, hresolve⟩ := Disk.exists_resolve_of_canonical (fun m hm => (hroot m hm).2.2.2) h
  rw [normalize, Disk.canonical_toText (Disk.real_of_canonical hroot h)]
  exact hd parts n hparts hresolve

/-- A written path spells a real path: its components lead there, with the home directory in the place of a leading
    tilde, and from the root of the workspace unless it is anchored. -/
def Spells (s : Settings) (d : Disk) (w : Text) (f : Path) : Prop :=
  ∃ name, d.expandHome (.ofText w) = .ok name ∧ (∀ m ∈ (name.within s.root).parts, '\x00' ∉ m) ∧
    ∃ n, d.Leads n [] (name.within s.root).parts f

/-- A written path spells what opening it arrives at. -/
theorem spells_of_locate? (hd : d.IsTree) {name : PathName} (hname : d.expandHome (.ofText w) = .ok name)
    (h : d.locate? (name.within s.root).parts = .ok f) : s.Spells d w f := by
  obtain ⟨hlead, hnul⟩ := hd.leads_of_locate? h
  exact ⟨name, hname, hnul, hlead⟩

/-- **Every spelling is normalized to what it spells**, whether it can be opened or is too long for that. -/
theorem Spells.normalize_eq (h : s.Spells d w f) : s.normalize d w = .ok (.ofPath f) := by
  obtain ⟨name, hname, hnul, n, hlead⟩ := h
  exact bind_eq_ok.mpr ⟨name, hname, Disk.resolve_of_leads hlead hnul⟩

/-! ## Keys -/

/-- The documents at or below a path without links have keys. -/
theorem isKey_of_mem_documentsAt (hd : d.IsTree) {p : Path} (hp : Components p) (hdirect : d.Direct p)
    {docs : List Text} (h : s.documentsAt d (.ofPath p) = .ok docs) (hk : k ∈ docs) : d.IsKey k := by
  rcases file_or_discover_of_mem_documentsAt h hk with ⟨-, rfl⟩ | h
  · exact ⟨p, hp, hdirect, rfl⟩
  · obtain ⟨f, b, hb, rfl⟩ := exists_file_of_mem_discover hd h hk
    exact ⟨f, (hd.properPath hb).components, hd.direct hb (Entry.file_ne_link b), rfl⟩

/-- What a changed path stands for has keys. -/
theorem isKey_of_mem_expandPath (hroot : Components s.root) (hd : d.IsTree) (hacyclic : d.Acyclic)
    {docs : List Text} (h : s.expandPath d w = .ok docs) (hk : k ∈ docs) : d.IsKey k := by
  obtain ⟨n, hn, rfl | ⟨base, hbase, h⟩⟩ := self_or_documentsAt_of_mem_expandPath hroot h hk
  · obtain ⟨p, rfl, hp, hdirect⟩ := exists_of_normalize hroot hacyclic hn
    exact ⟨p, hp, hdirect, rfl⟩
  · obtain ⟨p, rfl, hp, hdirect⟩ := exists_of_normalize hroot hacyclic hbase
    exact isKey_of_mem_documentsAt hd hp hdirect h hk

/-! ## Scans of one disk -/

/-- An index that scans of a disk have made of an empty one, whether they came out well or failed. -/
inductive Scanned (s : Settings) (d : Disk) : Index → Prop
  | empty : Scanned s d .empty
  | scan {ix : Index} (reason : ScanReason) (changed old : List Text) (h : Scanned s d ix) :
      Scanned s d (s.scan d reason changed old ix).1

/-- **What a scan adds to an index are keys.** -/
theorem isKey_or_mem_of_mem_keys_scan (hroot : ProperPath s.root) (hdirect : d.Direct s.root) (hd : d.IsTree)
    (husable : d.TargetsUsable) (hacyclic : d.Acyclic) (reason : ScanReason) (changed old : List Text) {ix : Index}
    (hk : k ∈ (s.scan d reason changed old ix).1.keys) : k ∈ ix.keys ∨ d.IsKey k := by
  cases hout : (s.scan d reason changed old ix).2 with
  | error f =>
    -- a scan that fails adds nothing
    obtain ⟨dropped, hbreaks⟩ := exists_breaksOff hroot husable hout
    rw [scan_of_breaksOff hroot husable hbreaks, OrderedMap.keys_filterKeys] at hk
    exact .inl (List.mem_filter.mp hk).1
  | ok _ =>
    obtain ⟨r, hr⟩ := OrderedMap.mem_keys_iff.mp hk
    have hpaths : reason ∈ [.fileCreatedOrUpdated, .fileDeleted, .fileRenamed] → k ∈ ix.keys ∨ d.IsKey k := by
      intro hreason
      rw [scan_eq_renamed hreason] at hr hout
      have hold := usable_of_scan hroot husable hout
      obtain ⟨left, hscan, hafter⟩ :=
        scan_staged hroot.components husable hold (reason.toRead changed) ix
      rw [hscan] at hr
      by_cases hread : k ∈ s.readAgain d (reason.toRead changed)
      · obtain ⟨-, w, -, docs, hdocs, hmem⟩ := mem_readAgain_iff.mp hread
        exact .inr (isKey_of_mem_expandPath hroot.components hd hacyclic hdocs hmem)
      · by_cases hdropped : s.Drops d (reason.toDrop changed old) k
        · rw [hafter.dropped k hread hdropped] at hr
          cases hr
        · rw [hafter.kept k hread hdropped] at hr
          exact .inl (OrderedMap.mem_keys_iff.mpr ⟨r, hr⟩)
    cases reason with
    | justGet => exact .inl hk
    | fileCreatedOrUpdated => exact hpaths (by simp)
    | fileDeleted => exact hpaths (by simp)
    | fileRenamed => exact hpaths (by simp)
    | workspace =>
      unfold Settings.scan at hr
      simp only at hr
      split at hr
      · exact .inl (OrderedMap.mem_keys_iff.mpr ⟨r, hr⟩)
      · next full hfull =>
        obtain ⟨files, hfiles, -⟩ := fullIndex_eq_ok.mp hfull
        rw [get?_fullIndex hfull hfiles] at hr
        split at hr
        · next hmem =>
          rw [listDocuments_root] at hfiles
          exact .inr (isKey_of_mem_documentsAt hd hroot.components hdirect hfiles hmem)
        · cases hr

/-- **Every key of an index** that scans of one disk have made spells a path without links. -/
theorem Scanned.isKey {ix : Index} (h : s.Scanned d ix) (hroot : ProperPath s.root) (hdirect : d.Direct s.root)
    (hd : d.IsTree) (husable : d.TargetsUsable) (hacyclic : d.Acyclic) : ∀ k ∈ ix.keys, d.IsKey k := by
  induction h with
  | empty => exact fun k hk => absurd hk List.not_mem_nil
  | scan reason changed old _ ih =>
    intro k hk
    rcases isKey_or_mem_of_mem_keys_scan hroot hdirect hd husable hacyclic reason changed old hk with hk | hk
    · exact ih k hk
    · exact hk

/-- The root of accepted settings is a path without links. -/
theorem direct_root_of_ofArguments (hcwd : Components d.cwd) (hacyclic : d.Acyclic) (husable : d.TargetsUsable)
    {asName : Bool} {args : Json} (h : ofArguments d asName args = .ok s) :
    ProperPath s.root ∧ d.Direct s.root := by
  obtain ⟨written, name, hname, hroot⟩ := exists_canonical_of_ofArguments h
  obtain ⟨parts, hparts, hresolve⟩ := Disk.exists_resolve_of_canonical (fun m hm => (hcwd m hm).2.2.2) hname
  have hnul := Disk.noNul_of_resolve husable hresolve
  obtain ⟨p, rfl, hp, hdirect⟩ := hacyclic.resolve_eq_ok hparts hresolve
  rw [hroot]
  exact ⟨hp.properPath fun n hn hc => hnul (List.mem_append_right _ (mem_joinSegments hn hc)), hdirect⟩

end Settings

/-! ## One key for each file -/

section Canonical

variable {s : Settings} {d : Disk}

/-- Keys are canonical: what a written path is normalized to is spelled as it stands on the disk (`canonical`), is
    normalized to itself (`again`), and is the same for all spellings of one real path (`spellings`). What opening a
    written path arrives at is spelled by it (`opened`). -/
structure KeysCanonical (s : Settings) (d : Disk) : Prop where
  canonical : ∀ w n, s.normalize d w = .ok n → CanonicalText d n.toText
  again : ∀ w n, s.normalize d w = .ok n → s.normalize d n.toText = .ok n
  spellings : ∀ w w' f, s.Spells d w f → s.Spells d w' f →
    s.normalize d w = .ok (.ofPath f) ∧ s.normalize d w' = .ok (.ofPath f)
  opened : ∀ w name f, d.expandHome (.ofText w) = .ok name → d.locate? (name.within s.root).parts = .ok f →
    s.Spells d w f

/-- However a disk is scanned, no two keys of the index lead to one file. -/
def OneRecordEach (s : Settings) (d : Disk) : Prop := ∀ ix, s.Scanned d ix → ∀ k ∈ ix.keys, ∀ k' ∈ ix.keys, ∀ f,
  d.LeadsTo k f → d.LeadsTo k' f → k = k'

/-- **Index keys are canonical** where links run in no circle, for every accepted root; and on the disk that the
    root was accepted on, an index never holds two records for one file. -/
theorem keys_canonical {d₀ : Disk} (hcwd : Components d₀.cwd) {asName : Bool} {args : Json}
    (hs : Settings.ofArguments d₀ asName args = .ok s) (hd : d.IsTree) (husable : d.TargetsUsable)
    (hacyclic : d.Acyclic) : KeysCanonical s d ∧ (d = d₀ → OneRecordEach s d) := by
  have hroot := Settings.components_root_of_ofArguments hcwd hs
  refine ⟨⟨?_, ?_, ?_, ?_⟩, ?_⟩
  · exact fun w n => Settings.canonicalText_of_normalize hroot hacyclic
  · exact fun w n => Settings.normalize_normalize hroot (hacyclic.resolvesOnce husable)
  · exact fun w w' f h h' => ⟨h.normalize_eq, h'.normalize_eq⟩
  · exact fun w name f => Settings.spells_of_locate? hd
  · rintro rfl ix hix k hk k' hk' f hlead hlead'
    obtain ⟨hproper, hdirect⟩ := Settings.direct_root_of_ofArguments hcwd hacyclic husable hs
    have hkeys := hix.isKey hproper hdirect hd husable hacyclic
    rw [eq_of_leadsTo hd (hkeys k hk) hlead, eq_of_leadsTo hd (hkeys k' hk') hlead']

end Canonical

/-! ## A note with three names -/

/-- A disk with a note, a link to the directory above it, and a link that leads to the note through that one. -/
def aliasDisk : Disk :=
  { Disk.ofDirectories [] [] "/w/s/".toList with
    entries := .ofList [(["w".toList], .directory), (["w".toList, "n.md".toList], .file (encodeUtf8 "#n".toList)),
      (["w".toList, "s".toList], .directory), (["w".toList, "s".toList, "up".toList], .link "..".toList),
      (["w".toList, "a.md".toList], .link "/w/s/./up//n.md".toList)] }

/-- The arguments for a workspace of notes. -/
def aliasArguments : Json := .obj [("workspace_root", .str "/w/s/up")]

/-- The settings that the arguments stand for. -/
def aliasSettings : Settings :=
  ⟨["w".toList], [".md".toList], [".git".toList, "node_modules".toList], {}, "INFO".toList⟩

/-- The note has one key however it is spelled, and one record after it was scanned under two of its names. -/
theorem alias_canonical :
    aliasSettings.normalize aliasDisk "./a.md".toList = .ok (.ofPath ["w".toList, "n.md".toList]) ∧
      aliasSettings.normalize aliasDisk "~//up/s/../n.md".toList = .ok (.ofPath ["w".toList, "n.md".toList]) ∧
      aliasSettings.normalize aliasDisk "/w/n.md".toList = .ok (.ofPath ["w".toList, "n.md".toList]) ∧
      OneRecordEach aliasSettings aliasDisk := by
  have hs : Settings.ofArguments aliasDisk false aliasArguments = .ok aliasSettings := by cbv
  have htree : aliasDisk.IsTree := by decide
  have hacyclic : aliasDisk.Acyclic := htree.acyclic_of_locate? (by decide +kernel)
  obtain ⟨hkeys, hone⟩ := keys_canonical (by decide) hs htree (by decide) hacyclic
  have hlink : aliasSettings.Spells aliasDisk "./a.md".toList ["w".toList, "n.md".toList] :=
    hkeys.opened _ ⟨[], ["a.md".toList]⟩ _ (by cbv) (by cbv)
  have hhome : aliasSettings.Spells aliasDisk "~//up/s/../n.md".toList ["w".toList, "n.md".toList] :=
    hkeys.opened _ (.ofPath ["w".toList, "s".toList, "up".toList, "s".toList, "..".toList, "n.md".toList]) _
      (by cbv) (by cbv)
  obtain ⟨hfirst, hsecond⟩ := hkeys.spellings _ _ _ hlink hhome
  exact ⟨hfirst, hsecond, hkeys.again _ _ hfirst, hone rfl⟩

end HashtagIndex
