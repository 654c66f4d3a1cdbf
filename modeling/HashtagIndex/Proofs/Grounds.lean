import HashtagIndex.Proofs.Editing
import HashtagIndex.Proofs.LinkFree
import HashtagIndex.Proofs.TextOrder

/-!
# `Proofs.Grounds` — what is found at or below a place stays on its grounds

*Grounds* are some places and all that is at or below them. A disk is *enclosed* by grounds if no path
name on them leads away from them, to opening or to resolving: whatever links stand there lead to the
grounds.

A search goes down only (`search_beneath`), unless an extension spells out two dots, and what it finds is
named by its real path. So on an enclosed disk every document that a listing or a changed path on the
grounds stands for has the text of a real place on them (`standsOn_of_listDocuments`,
`standsOn_of_expandPaths`), and reading that text leads there (`StandsOn.onGrounds_of_leadsTo`).

## Contents
- `OnGrounds`, `Encloses`, `StandsOn`.
- `Beneath`, `Disk.select_beneath`, `Disk.search_beneath`: a search goes down.
- `exists_keepDocuments_iff`, `mem_keepDocuments_iff`: which places are kept.
- `found_of_mem_discover`, `exists_of_mem_discover`: what discovery answers was resolved.
- `file_or_discover_of_mem_documentsAt`, `self_or_documentsAt_of_mem_expandPath`: what a path stands for.
- `Settings.Level`, `standsOn_of_listDocuments`, `standsOn_of_expandPaths`.
-/

namespace HashtagIndex

/-! ## Grounds -/

/-- A path at or below one of some places. -/
def OnGrounds (gs : List Path) (p : Path) : Prop := ∃ b ∈ gs, b <+: p

instance (gs : List Path) (p : Path) : Decidable (OnGrounds gs p) :=
  inferInstanceAs (Decidable (∃ b ∈ gs, b <+: p))

variable {gs gs' : List Path} {d d' : Disk} {p : Path}

theorem OnGrounds.append (h : OnGrounds gs p) (r : List Text) : OnGrounds gs (p ++ r) := by
  obtain ⟨b, hb, hbelow⟩ := h
  exact ⟨b, hb, hbelow.trans (List.prefix_append p r)⟩

theorem OnGrounds.mono (h : OnGrounds gs p) (hsub : gs ⊆ gs') : OnGrounds gs' p := by
  obtain ⟨b, hb, hbelow⟩ := h
  exact ⟨b, hsub hb, hbelow⟩

/-- No path name on the grounds leads away from them: its links lead to the grounds. -/
structure Encloses (gs : List Path) (d : Disk) : Prop where
  tree : d.IsTree
  resolves : ∀ p n, ProperPath p → OnGrounds gs p → d.resolve p = .ok n → OnGrounds gs n.parts
  opens : ∀ p q, ProperPath p → OnGrounds gs p → d.locate? p = .ok q → OnGrounds gs q

/-- What files hold does not matter. -/
theorem Encloses.of_sameLayout (h : Encloses gs d) (hlayout : SameLayout d d') : Encloses gs d' := by
  refine ⟨hlayout.isTree h.tree, fun p n hp hon hn => ?_, fun p q hp hon hq => ?_⟩
  · rw [← d'.resolve_layout, hlayout, d.resolve_layout] at hn
    exact h.resolves p n hp hon hn
  · rw [hlayout.locate?] at hq
    exact h.opens p q hp hon hq

/-- A text that names a real place on the grounds. -/
def StandsOn (gs : List Path) (t : Text) : Prop :=
  ∃ n : PathName, n.Real ∧ OnGrounds gs n.parts ∧ t = n.toText

/-- Whether a text names a real place on the grounds can be told by reading it. -/
theorem standsOn_iff {t : Text} : StandsOn gs t ↔ (PathName.ofText t).Real ∧
    OnGrounds gs (PathName.ofText t).parts ∧ t = (PathName.ofText t).toText := by
  constructor
  · rintro ⟨n, hreal, hon, rfl⟩
    rw [hreal.ofText_toText]
    exact ⟨hreal, hon, rfl⟩
  · rintro ⟨hreal, hon, htext⟩
    exact ⟨_, hreal, hon, htext⟩

instance (gs : List Path) (t : Text) : Decidable (StandsOn gs t) := decidable_of_iff _ standsOn_iff.symm

theorem StandsOn.mono {t : Text} (h : StandsOn gs t) (hsub : gs ⊆ gs') : StandsOn gs' t := by
  obtain ⟨n, hreal, hon, rfl⟩ := h
  exact ⟨n, hreal, hon.mono hsub, rfl⟩

/-- What resolving components on the grounds answers stands on them. -/
theorem Encloses.onGrounds_of_resolve (hd : Encloses gs d) (hp : Components p) (hon : OnGrounds gs p)
    {n : PathName} (h : d.resolve p = .ok n) : n.Real ∧ OnGrounds gs n.parts :=
  ⟨Disk.real_of_resolve (fun m hm => (hp m hm).2.2.2) h,
    hd.resolves p n (hp.properPath (Disk.nul_not_mem_of_resolve h)) hon h⟩

/-- **Opening a name that stands on the grounds** leads to the grounds. -/
theorem StandsOn.onGrounds_of_leadsTo {t : Text} (h : StandsOn gs t) (hd : Encloses gs d)
    (hlead : d.LeadsTo t p) : OnGrounds gs p := by
  obtain ⟨n, hreal, hon, rfl⟩ := h
  obtain ⟨hnul, hlocate⟩ := hlead
  -- the parts of a text without null characters hold none either
  have hproper : ProperPath n.parts := by
    apply hreal.components.properPath
    intro m hm hc
    apply hnul
    rw [hreal.toText_eq]
    exact List.mem_append_right _ (mem_joinSegments hm hc)
  have hwithin : n.within d.cwd = n := by
    rw [PathName.within, if_pos hreal.isAbsolute]
  rw [hreal.ofText_toText, hwithin] at hlocate
  exact hd.opens _ _ hproper hon hlocate

/-! ## A search goes down -/

/-- A path that goes on from another one through components. -/
def Beneath (p q : List Text) : Prop := ∃ r, Components r ∧ q = p ++ r

theorem Beneath.refl (p : List Text) : Beneath p p := ⟨[], List.forall_mem_nil _, (List.append_nil p).symm⟩

theorem Beneath.trans {p q u : List Text} (h : Beneath p q) (h' : Beneath q u) : Beneath p u := by
  obtain ⟨r, hr, rfl⟩ := h
  obtain ⟨r', hr', rfl⟩ := h'
  exact ⟨r ++ r', hr.append hr', List.append_assoc _ _ _⟩

theorem Beneath.name (p : List Text) {n : Text} (hn : IsComponent n) : Beneath p (p ++ [n]) :=
  ⟨[n], List.forall_mem_singleton.mpr hn, rfl⟩

theorem chooseNames_subset {test : Text → Except PathFault Bool} {names chosen : List Text}
    (h : Disk.chooseNames test names = .ok chosen) : chosen ⊆ names := by
  induction names generalizing chosen with
  | nil =>
    obtain rfl := Except.ok.inj h
    exact List.Subset.refl _
  | cons n rest ih =>
    obtain ⟨accepted, -, h⟩ := bind_eq_ok.mp h
    obtain ⟨others, hothers, h⟩ := bind_eq_ok.mp h
    obtain rfl := Except.ok.inj h
    split
    · exact List.cons_subset_cons n (ih hothers)
    · exact List.subset_cons_of_subset n (ih hothers)

/-- What a search from each of several places finds was found from one of them. -/
theorem exists_of_mem_fromAll {go : List Text → Except PathFault (List (List Text))}
    {places found : List (List Text)} (h : Disk.fromAll go places = .ok found) {q : List Text}
    (hq : q ∈ found) : ∃ place ∈ places, ∃ l, go place = .ok l ∧ q ∈ l := by
  induction places generalizing found with
  | nil =>
    obtain rfl := Except.ok.inj h
    exact absurd hq List.not_mem_nil
  | cons place rest ih =>
    obtain ⟨l, hl, h⟩ := bind_eq_ok.mp h
    obtain ⟨others, hothers, h⟩ := bind_eq_ok.mp h
    obtain rfl := Except.ok.inj h
    rcases List.mem_append.mp hq with hq | hq
    · exact ⟨place, List.mem_cons_self, l, hl, hq⟩
    · obtain ⟨place', hplace', hl'⟩ := ih hothers hq
      exact ⟨place', List.mem_cons_of_mem _ hplace', hl'⟩

namespace Disk

theorem IsTree.isComponent_of_mem_namesIn (hd : d.IsTree) {place : List Text} {n : Text}
    (hn : n ∈ d.namesIn place) : IsComponent n := by
  unfold namesIn at hn
  split at hn
  · exact absurd hn List.not_mem_nil
  · next p _ =>
    obtain ⟨e, he⟩ := mem_childNames.mp hn
    exact (hd.properPath he).components n (by simp)

theorem IsTree.beneath_of_mem_chainsFrom (hd : d.IsTree) {place q : List Text}
    (hq : q ∈ d.chainsFrom place) : Beneath place q := by
  unfold chainsFrom at hq
  split at hq
  · exact absurd hq List.not_mem_nil
  · next p _ =>
    obtain ⟨r, hr, rfl⟩ := List.mem_map.mp hq
    refine ⟨r, ?_, rfl⟩
    rcases mem_directoriesBelow.mp hr with rfl | ⟨-, hr⟩
    · exact List.forall_mem_nil _
    · exact fun n hn => (hd.properPath hr).components n (List.mem_append_right _ hn)

/-- **The parts of a pattern go down**, if the names that they spell out do. -/
theorem IsTree.select_beneath (hd : d.IsTree) {parts : List SearchPart}
    (hparts : ∀ n, .named n ∈ parts → IsComponent n) {place : List Text} {found : List (List Text)}
    (h : d.select parts place = .ok found) {q : List Text} (hq : q ∈ found) : Beneath place q := by
  induction parts generalizing place found with
  | nil =>
    obtain rfl := Except.ok.inj h
    obtain rfl := List.mem_singleton.mp hq
    exact Beneath.refl _
  | cons part rest ih =>
    have hrest : ∀ {place found}, d.select rest place = .ok found → q ∈ found → Beneath place q :=
      ih fun n hn => hparts n (List.mem_cons_of_mem _ hn)
    cases part with
    | here =>
      obtain rfl := Except.ok.inj h
      obtain rfl := List.mem_singleton.mp hq
      exact Beneath.refl _
    | deep =>
      by_cases hdeep : ∃ r, rest = .deep :: r
      · obtain ⟨r, rfl⟩ := hdeep
        rw [select] at h
        exact hrest h hq
      · have hnot : ∀ r, rest = .deep :: r → False := fun r h => hdeep ⟨r, h⟩
        rw [select.eq_4 _ _ _ hnot] at h
        obtain ⟨place', hplace', l, hl, hq⟩ := exists_of_mem_fromAll h hq
        exact (hd.beneath_of_mem_chainsFrom hplace').trans (hrest hl hq)
    | named n =>
      -- a name at the end is asked for otherwise than one on the way
      have hasked : ∃ there, (if there = true then d.select rest (place ++ [n]) else .ok []) = .ok found := by
        rw [select] at h
        split at h
        · obtain ⟨there, -, h⟩ := bind_eq_ok.mp h
          exact ⟨there, h⟩
        · obtain ⟨there, -, h⟩ := bind_eq_ok.mp h
          exact ⟨there, h⟩
      obtain ⟨there, h⟩ := hasked
      split at h
      · exact (Beneath.name place (hparts n List.mem_cons_self)).trans (hrest h hq)
      · obtain rfl := Except.ok.inj h
        exact absurd hq List.not_mem_nil
    | fitting w =>
      obtain ⟨names, hnames, h⟩ := bind_eq_ok.mp h
      obtain ⟨place', hplace', l, hl, hq⟩ := exists_of_mem_fromAll h hq
      obtain ⟨n, hn, rfl⟩ := List.mem_map.mp hplace'
      have hname := hd.isComponent_of_mem_namesIn (chooseNames_subset hnames (List.mem_filter.mp hn).1)
      exact (Beneath.name place hname).trans (hrest hl hq)

/-- A name that a pattern spells out is one of its parts. -/
theorem mem_pathParts_of_searchParts {pattern : Text} {parts : List SearchPart}
    (h : searchParts pattern = .ok parts) {n : Text} (hn : .named n ∈ parts) : n ∈ pathParts pattern := by
  obtain ⟨read, hread, h⟩ := bind_eq_ok.mp h
  obtain rfl := Except.ok.inj h
  have hmem : .named n ∈ read := by
    split at hn
    · simpa using hn
    · exact hn
  obtain ⟨t, ht, hpart⟩ := exists_of_mem_mapM hread hmem
  -- only a name that stands for itself is read as one
  unfold SearchPart.ofText at hpart
  split at hpart
  · cases hpart
  · split at hpart
    · cases hpart
    · split at hpart
      · cases hpart
      · cases hpart
        exact ht

/-- **A search goes down** from where it starts, unless its pattern spells out two dots. -/
theorem IsTree.search_beneath (hd : d.IsTree) {pattern : Text}
    (hpattern : ['.', '.'] ∉ pathParts pattern) {base : Path} {found : List (List Text)}
    (h : d.search base pattern = .ok found) {q : List Text} (hq : q ∈ found) : Beneath base q := by
  obtain ⟨parts, hparts, h⟩ := bind_eq_ok.mp h
  obtain ⟨there, -, h⟩ := bind_eq_ok.mp h
  split at h
  · refine hd.select_beneath (fun n hn => ?_) h hq
    have hmem : n ∈ pathParts pattern := by
      rcases List.mem_cons.mp hn with heq | hn
      · cases heq
      · exact mem_pathParts_of_searchParts hparts hn
    have hkept := List.of_mem_filter hmem
    simp only [decide_eq_true_eq] at hkept
    exact ⟨hkept.1, hkept.2, fun h => hpattern (h ▸ hmem), slash_not_mem_of_mem_pathParts hmem⟩
  · obtain rfl := Except.ok.inj h
    exact absurd hq List.not_mem_nil

end Disk

/-! ## Documents -/

namespace Settings

variable {s : Settings}

/-- **Of the places found, the files outside excluded directories are kept**, by the resolved names. -/
theorem mem_keepDocuments_iff {found : List (List Text)} {docs : List Text}
    (h : s.keepDocuments d found = .ok docs) {t : Text} : t ∈ docs ↔ ∃ q ∈ found, d.isFile q = .ok true ∧
      s.isExcluded (.ofPath q) = false ∧ ∃ name, d.resolve q = .ok name ∧ t = name.toText := by
  induction found generalizing docs with
  | nil =>
    obtain rfl := Except.ok.inj h
    simp
  | cons q rest ih =>
    obtain ⟨file, hfile, h⟩ := bind_eq_ok.mp h
    obtain ⟨others, hothers, h⟩ := bind_eq_ok.mp h
    rw [List.exists_mem_cons_iff, ← ih hothers, hfile]
    cases file with
    | false =>
      obtain rfl := Except.ok.inj h
      simp
    | true =>
      cases hexcluded : s.isExcluded (.ofPath q) with
      | true =>
        rw [hexcluded] at h
        obtain rfl := Except.ok.inj h
        simp
      | false =>
        rw [hexcluded] at h
        obtain ⟨name, hname, h⟩ := bind_eq_ok.mp h
        obtain rfl := Except.ok.inj h
        simp [hname]

/-- A place that can be looked up, and resolved if it is that of a file outside excluded directories. -/
def Keepable (s : Settings) (d : Disk) (q : List Text) : Prop :=
  ∃ file, d.isFile q = .ok file ∧ (file = true → s.isExcluded (.ofPath q) = false → ∃ name, d.resolve q = .ok name)

/-- **Places are sorted out** if each of them can be looked up, and resolved where it is kept. -/
theorem exists_keepDocuments_iff {found : List (List Text)} :
    (∃ docs, s.keepDocuments d found = .ok docs) ↔ ∀ q ∈ found, s.Keepable d q := by
  induction found with
  | nil => exact iff_of_true ⟨[], rfl⟩ (List.forall_mem_nil _)
  | cons q rest ih =>
    rw [List.forall_mem_cons, ← ih]
    constructor
    · rintro ⟨docs, h⟩
      obtain ⟨file, hfile, h⟩ := bind_eq_ok.mp h
      obtain ⟨others, hothers, h⟩ := bind_eq_ok.mp h
      refine ⟨⟨file, hfile, ?_⟩, others, hothers⟩
      rintro rfl hincluded
      rw [hincluded] at h
      obtain ⟨name, hname, -⟩ := bind_eq_ok.mp h
      exact ⟨name, hname⟩
    · rintro ⟨⟨file, hfile, hname⟩, others, hothers⟩
      rw [keepDocuments, hfile, hothers]
      show ∃ docs, (if (file && !s.isExcluded (.ofPath q)) = true then
        (d.resolve q >>= fun p => .ok (p.toText :: others)) else .ok others) = .ok docs
      split
      · next hkept =>
        rw [Bool.and_eq_true, Bool.not_eq_true'] at hkept
        obtain ⟨name, hname⟩ := hname hkept.1 hkept.2
        exact ⟨_, bind_eq_ok.mpr ⟨name, hname, rfl⟩⟩
      · exact ⟨others, rfl⟩

/-- What discovery answers was found for an extension, is a file, and was resolved. -/
theorem found_of_mem_discover {base : Path} {docs : List Text} (h : s.discover d base = .ok docs) {t : Text}
    (ht : t ∈ docs) : ∃ e ∈ s.extensions, ∃ places, d.search base ('*' :: e) = .ok places ∧
      ∃ q ∈ places, d.isFile q = .ok true ∧ ∃ n, d.resolve q = .ok n ∧ t = n.toText := by
  obtain ⟨found, hfound, h⟩ := bind_eq_ok.mp h
  obtain rfl := Except.ok.inj h
  rw [Text.mem_sortDistinct, List.mem_flatten] at ht
  obtain ⟨docs, hdocs, ht⟩ := ht
  obtain ⟨e, he, hone⟩ := exists_of_mem_mapM hfound hdocs
  obtain ⟨places, hplaces, hkept⟩ := bind_eq_ok.mp hone
  obtain ⟨q, hq, hfile, -, hresolved⟩ := (mem_keepDocuments_iff hkept).mp ht
  exact ⟨e, he, places, hplaces, q, hq, hfile, hresolved⟩

/-- A document at or below a place is the file that stands there, or is discovered below. -/
theorem file_or_discover_of_mem_documentsAt {base : PathName} {docs : List Text}
    (h : s.documentsAt d base = .ok docs) {t : Text} (ht : t ∈ docs) :
    (d.isFile base.parts = .ok true ∧ t = base.toText) ∨ s.discover d base.parts = .ok docs := by
  obtain ⟨found, -, h⟩ := bind_eq_ok.mp h
  obtain ⟨file, hfile, h⟩ := bind_eq_ok.mp h
  split at h
  · obtain rfl := Except.ok.inj h
    exact absurd ht List.not_mem_nil
  · split at h
    · next htrue =>
      obtain rfl := Except.ok.inj h
      split at ht
      · exact .inl ⟨htrue ▸ hfile, List.mem_singleton.mp ht⟩
      · exact absurd ht List.not_mem_nil
    · exact .inr h

/-- What a changed path stands for is what it is normalized to, or is found there. A folder is normalized once
    more, by the text of its real place. -/
theorem self_or_documentsAt_of_mem_expandPath (hroot : Components s.root) {w : Text} {docs : List Text}
    (h : s.expandPath d w = .ok docs) {t : Text} (ht : t ∈ docs) : ∃ n, s.normalize d w = .ok n ∧
      (t = n.toText ∨ ∃ base, s.normalize d n.toText = .ok base ∧ s.documentsAt d base = .ok docs) := by
  obtain ⟨n, hn, h⟩ := bind_eq_ok.mp h
  obtain ⟨folder, -, h⟩ := bind_eq_ok.mp h
  refine ⟨n, hn, ?_⟩
  split at h
  · rw [listDocuments, if_neg (Disk.real_of_canonical hroot hn).toText_ne_nil] at h
    exact .inr (bind_eq_ok.mp h)
  · obtain rfl := Except.ok.inj h
    split at ht
    · exact .inl (List.mem_singleton.mp ht)
    · exact absurd ht List.not_mem_nil

/-- Settings that discovery does not climb with: the root is made of components, and no extension spells
    out two dots. -/
structure Level (s : Settings) : Prop where
  root : Components s.root
  extensions : ∀ e ∈ s.extensions, ['.', '.'] ∉ pathParts ('*' :: e)

/-- **What discovery answers** was resolved from a place beneath the directory where it started. -/
theorem exists_of_mem_discover (hs : s.Level) (hd : d.IsTree) {base : Path} {docs : List Text}
    (h : s.discover d base = .ok docs) {t : Text} (ht : t ∈ docs) :
    ∃ q, Beneath base q ∧ ∃ n, d.resolve q = .ok n ∧ t = n.toText := by
  obtain ⟨e, he, places, hplaces, q, hq, -, hresolved⟩ := found_of_mem_discover h ht
  exact ⟨q, hd.search_beneath (hs.extensions e he) hplaces hq, hresolved⟩

/-- The documents at or below a real place on the grounds stand on them. -/
theorem standsOn_of_documentsAt (hs : s.Level) (hd : Encloses gs d) {base : PathName} (hbase : base.Real)
    (hon : OnGrounds gs base.parts) {docs : List Text} (h : s.documentsAt d base = .ok docs) {t : Text}
    (ht : t ∈ docs) : StandsOn gs t := by
  rcases file_or_discover_of_mem_documentsAt h ht with ⟨-, rfl⟩ | h
  · exact ⟨base, hbase, hon, rfl⟩
  · obtain ⟨q, ⟨r, hr, rfl⟩, n, hn, rfl⟩ := exists_of_mem_discover hs hd.tree h ht
    obtain ⟨hreal, hon'⟩ := hd.onGrounds_of_resolve (hbase.components.append hr) (hon.append r) hn
    exact ⟨n, hreal, hon', rfl⟩

/-- **The documents of a workspace on the grounds** stand on them. -/
theorem standsOn_of_listDocuments (hs : s.Level) (hd : Encloses gs d) (hroot : OnGrounds gs s.root)
    {docs : List Text} (h : s.listDocuments d [] = .ok docs) {t : Text} (ht : t ∈ docs) :
    StandsOn gs t := by
  rw [listDocuments, if_pos rfl] at h
  exact standsOn_of_documentsAt hs hd (PathName.real_ofPath hs.root) hroot h ht

/-- Written paths that lead to the grounds, or nowhere. -/
def LeadOnto (s : Settings) (gs : List Path) (d : Disk) (written : List Text) : Prop :=
  ∀ w ∈ written, ∀ n, s.normalize d w = .ok n → OnGrounds gs n.parts

/-- What one changed path stands for stands on the grounds if the path leads to them. -/
theorem standsOn_of_expandPath (hs : s.Level) (hd : Encloses gs d) {w : Text}
    (hw : ∀ n, s.normalize d w = .ok n → OnGrounds gs n.parts) {docs : List Text}
    (h : s.expandPath d w = .ok docs) {t : Text} (ht : t ∈ docs) : StandsOn gs t := by
  obtain ⟨n, hn, rfl | ⟨base, hbase, h⟩⟩ := self_or_documentsAt_of_mem_expandPath hs.root h ht
  · exact ⟨n, Disk.real_of_canonical hs.root hn, hw n hn, rfl⟩
  · have hreal : n.Real := Disk.real_of_canonical hs.root hn
    rw [normalize, Disk.canonical_toText hreal] at hbase
    obtain ⟨hreal', hon'⟩ := hd.onGrounds_of_resolve hreal.components (hw n hn) hbase
    exact standsOn_of_documentsAt hs hd hreal' hon' h ht

/-- **What changed paths stand for** stands on the grounds if the paths lead to them. -/
theorem standsOn_of_expandPaths (hs : s.Level) (hd : Encloses gs d) {written : List Text}
    (hwritten : s.LeadOnto gs d written) {docs : List Text} (h : s.expandPaths d written = .ok docs)
    {t : Text} (ht : t ∈ docs) : StandsOn gs t := by
  obtain ⟨found, hfound, h⟩ := bind_eq_ok.mp h
  obtain rfl := Except.ok.inj h
  rw [List.mem_eraseDups, List.mem_flatten] at ht
  obtain ⟨docs, hdocs, ht⟩ := ht
  obtain ⟨w, hw, hone⟩ := exists_of_mem_mapM hfound hdocs
  exact standsOn_of_expandPath hs hd (hwritten w hw) hone ht

end Settings

end HashtagIndex
