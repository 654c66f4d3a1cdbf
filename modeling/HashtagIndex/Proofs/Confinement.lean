import HashtagIndex.Proofs.LinkTargets
import HashtagIndex.Proofs.Renaming

/-!
# `Proofs.Confinement` — a service stays on its grounds

A service does not check whether a path that it is told of stands in its workspace. What it reads and
writes is therefore confined not to the root, but to *grounds* that have the root, the places that reported
paths lead to, and the places that links lead to. `Served` are the services that requests lead to, each
request on a disk of its own, together with grounds that enclose all these disks.

The invariant is one about the keys of the index: each of them is the text of a real place on the grounds
(`Served.confined_index`). Every request keeps it, because a scan takes its keys from listings and from
changed paths, and a rename ends with a scan. Since a rename opens no other files than those of keys, it
leaves everything off the grounds as it is (`get?_rename`), and it cannot tell apart two disks that differ
off the grounds only (`AgreesOn.rename`).

## Contents
- `Settings.standsOn_scan`: the keys after a scan.
- `AgreesOn`, `AgreesOn.applyEdits`, `AgreesOn.planEdits`, `AgreesOn.scanAll`, `AgreesOn.rename`: what is
  not read.
- `get?_rename`: what is not written.
- `Served`, `Served.confined`.
- A service that is told of a file next to its workspace, and what leads out of a workspace.
-/

namespace HashtagIndex

variable {gs gs' : List Path} {d d₂ : Disk} {s : Settings} {sv : Service}

/-- An index whose documents stand on the grounds. -/
def Index.StandsOn (gs : List Path) (ix : Index) : Prop := ∀ k ∈ ix.keys, HashtagIndex.StandsOn gs k

/-! ## The keys after a scan -/

theorem Index.StandsOn.upsert {ix : Index} (h : ix.StandsOn gs) {r : Record}
    (hr : HashtagIndex.StandsOn gs r.file) : (ix.upsert r).StandsOn gs := by
  intro k hk
  rw [Index.upsert, OrderedMap.keys_insert] at hk
  split at hk
  · exact h k hk
  · rcases List.mem_append.mp hk with hk | hk
    · exact h k hk
    · rw [List.mem_singleton.mp hk]
      exact hr

theorem Index.StandsOn.filterKeys {ix : Index} (h : ix.StandsOn gs) (test : Text → Bool) :
    Index.StandsOn gs (ix.filterKeys test) := by
  intro k hk
  rw [OrderedMap.keys_filterKeys] at hk
  exact h k (List.mem_filter.mp hk).1

namespace Settings

/-- Reading documents on the grounds again, as far as that succeeds. -/
theorem standsOn_refresh {ix : Index} (h : ix.StandsOn gs) {files : List Text}
    (hfiles : ∀ file ∈ files, StandsOn gs file) : (refresh d ix files).1.StandsOn gs := by
  induction files generalizing ix with
  | nil => exact h
  | cons file rest ih =>
    obtain ⟨hfile, hrest⟩ := List.forall_mem_cons.mp hfiles
    unfold refresh
    split
    · exact h
    · exact ih (h.filterKeys _) hrest
    · next r hscan =>
      apply ih (h.upsert ?_) hrest
      obtain ⟨text, -, rfl⟩ := recordOf_eq_some.mp (scanFile_eq_ok.mp hscan).2.symm
      exact hfile

/-- Dropping what stands at or below changed paths, as far as they can be resolved. -/
theorem standsOn_removePaths {ix : Index} (h : ix.StandsOn gs) (written : List Text) :
    (s.removePaths d ix written).1.StandsOn gs := by
  obtain ⟨test, htest⟩ := s.exists_removePaths_eq d written ix
  rw [htest]
  exact h.filterKeys test

theorem standsOn_scanPaths (hs : s.Level) (hd : Encloses gs d) {written : List Text}
    (hwritten : s.LeadOnto gs d written) {ix : Index} (h : ix.StandsOn gs) :
    (s.scanPaths d written ix).1.StandsOn gs := by
  unfold scanPaths
  split
  · exact h
  · next files hfiles => exact standsOn_refresh h fun _ => standsOn_of_expandPaths hs hd hwritten hfiles

theorem standsOn_fullIndex (hs : s.Level) (hd : Encloses gs d) (hroot : OnGrounds gs s.root) {full : Index}
    (h : s.fullIndex d = .ok full) : full.StandsOn gs := by
  intro k hk
  obtain ⟨files, hfiles, -, -⟩ := fullIndex_eq_ok.mp h
  obtain ⟨r, hr⟩ := OrderedMap.mem_keys_iff.mp hk
  rw [get?_fullIndex h hfiles] at hr
  split at hr
  · next hmem => exact standsOn_of_listDocuments hs hd hroot hfiles hmem
  · cases hr

/-- **The keys after a scan** stand on the grounds, whether the scan succeeds or not, if the paths that it
    reads from lead to the grounds. A scan for deleted paths only drops keys. -/
theorem standsOn_scan (hs : s.Level) {reason : ScanReason} (hd : reason ≠ .fileDeleted → Encloses gs d)
    (hroot : OnGrounds gs s.root) {changed : List Text}
    (hchanged : reason = .fileCreatedOrUpdated ∨ reason = .fileRenamed → s.LeadOnto gs d changed)
    (old : List Text) {ix : Index} (h : ix.StandsOn gs) :
    (s.scan d reason changed old ix).1.StandsOn gs := by
  unfold Settings.scan
  cases reason with
  | justGet => exact h
  | workspace =>
    simp only
    split
    · exact h
    · next full hfull => exact standsOn_fullIndex hs (hd nofun) hroot hfull
  | fileCreatedOrUpdated => exact standsOn_scanPaths hs (hd nofun) (hchanged (.inl rfl)) h
  | fileDeleted => exact standsOn_removePaths h changed
  | fileRenamed =>
    have hleft := standsOn_removePaths (s := s) (d := d) h old
    simp only
    split
    · next ix' f hremoved =>
      rw [hremoved] at hleft
      exact hleft
    · next ix' hremoved =>
      rw [hremoved] at hleft
      exact standsOn_scanPaths hs (hd nofun) (hchanged (.inr rfl)) hleft

end Settings

/-! ## What is not read -/

/-- Two disks that differ at most in what files off the grounds hold. -/
structure AgreesOn (gs : List Path) (d d₂ : Disk) : Prop where
  layout : SameLayout d d₂
  get? : ∀ p, OnGrounds gs p → d₂.entries.get? p = d.entries.get? p

namespace AgreesOn

variable (h : AgreesOn gs d d₂)
include h

theorem entry? {p : Path} (hp : OnGrounds gs p) : d₂.entry? p = d.entry? p := by
  unfold Disk.entry?
  rw [h.get? p hp]

/-- A document on the grounds reads the same. -/
theorem readRaw (hd : Encloses gs d) {k : Text} (hk : StandsOn gs k) : d₂.readRaw k = d.readRaw k := by
  by_cases hnul : '\x00' ∈ k
  · rw [Disk.readRaw, Disk.readRaw, if_pos hnul, if_pos hnul]
  · have hopen : d₂.openFile (.ofText k) = d.openFile (.ofText k) := by
      unfold Disk.openFile
      rw [h.layout.refuses, h.layout.locate?, h.layout.cwd]
      cases hlead : d.locate? ((PathName.ofText k).within d.cwd).parts with
      | error e => rfl
      | ok p =>
        simp only
        rw [h.entry? (hk.onGrounds_of_leadsTo hd ⟨hnul, hlead⟩)]
    unfold Disk.readRaw
    simp only [hopen]

theorem readDocument (hd : Encloses gs d) {k : Text} (hk : StandsOn gs k) :
    d₂.readDocument k = d.readDocument k := by
  unfold Disk.readDocument
  rw [h.readRaw hd hk]

/-- Disks that agree on the grounds still do after the same file there was overwritten. -/
theorem put {p : Path} {old old₂ : List UInt8} (hold : d.entry? p = some (.file old))
    (hold₂ : d₂.entry? p = some (.file old₂)) (new : List UInt8) :
    AgreesOn gs (d.put p (.file new)) (d₂.put p (.file new)) := by
  refine ⟨?_, fun q hq => ?_⟩
  · unfold SameLayout
    rw [Disk.layout_put hold₂, Disk.layout_put hold]
    exact h.layout
  · rw [Disk.get?_put, Disk.get?_put, h.get? q hq]

/-- Writing the same file does the same, as far as there is room. -/
theorem overwrite {p : Path} {old old₂ : List UInt8} (hold : d.entry? p = some (.file old))
    (hold₂ : d₂.entry? p = some (.file old₂)) (name : PathName) (bytes : List UInt8) :
    AgreesOn gs (d.overwrite name p bytes).1 (d₂.overwrite name p bytes).1 ∧
      (d₂.overwrite name p bytes).2 = (d.overwrite name p bytes).2 := by
  have hfits : d₂.fits name bytes = d.fits name bytes := by rw [Disk.fits, Disk.fits, h.layout.room?]
  unfold Disk.overwrite
  rw [h.layout.refuses, h.layout.room?, hfits]
  split
  · exact ⟨h, rfl⟩
  split
  · exact ⟨h.put hold hold₂ _, rfl⟩
  · exact ⟨h.put hold hold₂ _, rfl⟩

/-- **One edit** on the grounds does the same, and is answered alike. -/
theorem replaceLine (hd : Encloses gs d) {file : Text} (hfile : StandsOn gs file) (line : Int)
    (expected text : Text) :
    AgreesOn gs (d.replaceLine file line expected text).1 (d₂.replaceLine file line expected text).1 ∧
      (d₂.replaceLine file line expected text).2 = (d.replaceLine file line expected text).2 := by
  have hreads := h.readRaw hd hfile
  unfold Disk.replaceLine
  rw [hreads]
  cases hread : d.readRaw file with
  | error f => exact ⟨h, rfl⟩
  | ok r =>
    obtain ⟨p, raw⟩ := r
    rw [hread] at hreads
    obtain ⟨bytes, hbytes, -⟩ := Disk.file_of_readRaw hread
    obtain ⟨bytes₂, hbytes₂, -⟩ := Disk.file_of_readRaw hreads
    simp only
    -- from here on both disks are asked the same
    split
    · exact ⟨h, rfl⟩
    split
    · exact ⟨h, rfl⟩
    obtain ⟨hagree, hsame⟩ := h.overwrite hbytes hbytes₂ (.ofText file)
      (encodeUtf8 (renderLines (Disk.setLine (rawLines raw) line text)))
    exact ⟨hagree, by rw [hsame]⟩

/-- **Edits** of documents on the grounds do the same, and as many of them are skipped. -/
theorem applyEdits (hd : Encloses gs d) {es : List Edit} (hes : ∀ e ∈ es, StandsOn gs e.file) :
    AgreesOn gs (applyEdits d es).1 (applyEdits d₂ es).1 ∧
      (HashtagIndex.applyEdits d₂ es).2 = (HashtagIndex.applyEdits d es).2 := by
  induction es generalizing d d₂ with
  | nil => exact ⟨h, rfl⟩
  | cons e es ih =>
    obtain ⟨hfile, hrest⟩ := List.forall_mem_cons.mp hes
    obtain ⟨hagree, hsame⟩ := h.replaceLine hd hfile e.line e.old e.new
    have hencloses := hd.of_sameLayout (sameLayout_replaceLine d e.file e.line e.old e.new)
    simp only [HashtagIndex.applyEdits]
    generalize d.replaceLine e.file e.line e.old e.new = r at hagree hsame hencloses
    generalize d₂.replaceLine e.file e.line e.old e.new = r₂ at hagree hsame
    obtain ⟨d', r⟩ := r
    obtain ⟨d₂', r₂⟩ := r₂
    obtain rfl : r₂ = r := hsame
    obtain ⟨hagree', hsame'⟩ := ih hagree hencloses hrest
    -- the work goes on, or both stop
    rcases r₂ with ((f | f) | _) | _
    · exact ⟨hagree, rfl⟩
    · exact ⟨hagree', by simp only [hsame']⟩
    · exact ⟨hagree, rfl⟩
    · exact ⟨hagree', by simp only [hsame']⟩

/-- **A plan** for an index on the grounds is the same. -/
theorem planEdits (hd : Encloses gs d) {ix : Index} (hix : ix.StandsOn gs) (path : TagPath) (name : Text) :
    planEdits d₂ ix path name = planEdits d ix path name := by
  unfold HashtagIndex.planEdits
  have hfiles : ∀ file ∈ Text.sort ix.keys,
      planFile d₂ (writtenTag path) (writtenTag (renamedPath path name)) file (occurrencesOf ix path file) =
        planFile d (writtenTag path) (writtenTag (renamedPath path name)) file
          (occurrencesOf ix path file) := by
    intro file hfile
    unfold planFile
    rw [h.readDocument hd (hix file (Text.mem_sort.mp hfile))]
  simp only [mapM_congr hfiles]

/-- Carrying a rename out does the same. -/
theorem carryOut (hd : Encloses gs d) (hix : sv.index.StandsOn gs) (path : TagPath) (name : Text) :
    AgreesOn gs (sv.carryOut d path name).1 (sv.carryOut d₂ path name).1 ∧
      (sv.carryOut d₂ path name).2 = (sv.carryOut d path name).2 := by
  have hplan : planRename d₂ sv.index path name = planRename d sv.index path name := by
    unfold planRename
    rw [h.planEdits hd hix]
  unfold Service.carryOut
  rw [hplan]
  cases hedits : planRename d sv.index path name with
  | error f => exact ⟨h, rfl⟩
  | ok edits =>
    have hes : ∀ e ∈ edits, StandsOn gs e.file := fun e he => hix _ (mem_keys_of_mem_planRename hedits he)
    obtain ⟨hagree, hsame⟩ := h.applyEdits hd hes
    simp only [applyPlan]
    exact ⟨hagree, by rw [hsame]⟩

/-- **A full scan** of a workspace on the grounds finds the same. -/
theorem fullIndex (hs : s.Level) (hd : Encloses gs d) (hroot : OnGrounds gs s.root) :
    s.fullIndex d₂ = s.fullIndex d := by
  unfold Settings.fullIndex
  rw [h.layout.listDocuments]
  cases hfiles : s.listDocuments d [] with
  | error f => rfl
  | ok files =>
    have hrecords : Settings.scanDocuments d₂ files = Settings.scanDocuments d files := by
      have hstand : ∀ file ∈ files, StandsOn gs file := fun file =>
        Settings.standsOn_of_listDocuments hs hd hroot hfiles
      clear hfiles
      induction files with
      | nil => rfl
      | cons file rest ih =>
        obtain ⟨hfile, hrest⟩ := List.forall_mem_cons.mp hstand
        unfold Settings.scanDocuments scanFile
        rw [h.readDocument hd hfile, ih hrest]
    show (Settings.scanDocuments d₂ files >>= _) = (Settings.scanDocuments d files >>= _)
    rw [hrecords]

theorem scanAll (hs : sv.settings.Level) (hd : Encloses gs d) (hroot : OnGrounds gs sv.settings.root) :
    sv.scanAll d₂ = sv.scanAll d := by
  unfold Service.scanAll Service.scan Settings.scan
  simp only [h.fullIndex hs hd hroot]

/-- **A rename does not read off the grounds**: what it makes of the service, what it answers, and what it
    leaves on the grounds is the same on disks that agree there. -/
theorem rename (hs : sv.settings.Level) (hd : Encloses gs d) (hroot : OnGrounds gs sv.settings.root)
    (hix : sv.index.StandsOn gs) (tag name : Text) :
    (sv.rename d₂ tag name).1.service = (sv.rename d tag name).1.service ∧
      (sv.rename d₂ tag name).2 = (sv.rename d tag name).2 ∧
      AgreesOn gs (sv.rename d tag name).1.disk (sv.rename d₂ tag name).1.disk := by
  rcases sv.rename_cases tag name with ⟨r, hrename⟩ | hrename
  · rw [hrename, hrename]
    exact ⟨rfl, rfl, h⟩
  · obtain ⟨hagree, hsame⟩ := h.carryOut hd hix (splitTag tag) name
    have hencloses := hd.of_sameLayout (Service.sameLayout_carryOut sv d (splitTag tag) name)
    have hscan := hagree.scanAll hs hencloses hroot
    rw [hrename, hrename, hscan, hsame]
    exact ⟨rfl, rfl, hagree⟩

end AgreesOn

/-! ## What is not written -/

/-- **A rename does not write off the grounds.** -/
theorem get?_rename (hd : Encloses gs d) (hix : sv.index.StandsOn gs) (tag name : Text) {p : Path}
    (hp : ¬OnGrounds gs p) : (sv.rename d tag name).1.disk.entries.get? p = d.entries.get? p := by
  have hcarry : (sv.carryOut d (splitTag tag) name).1.entries.get? p = d.entries.get? p := by
    unfold Service.carryOut
    split
    · rfl
    · next edits hedits =>
      unfold applyPlan
      apply get?_applyEdits
      intro e he hlead
      exact hp ((hix _ (mem_keys_of_mem_planRename hedits he)).onGrounds_of_leadsTo hd hlead)
  rcases sv.rename_cases tag name with ⟨r, hrename⟩ | hrename
  · rw [hrename]
  · rw [hrename]
    exact hcarry

/-! ## Services and their grounds -/

/-- The paths from which a report makes a service read documents. -/
def WorkspaceEvent.listed (e : WorkspaceEvent) : List Text :=
  match e.kind with
  | .saved => e.paths
  | .created => e.paths
  | .renamed => e.paths
  | _ => []

/-- The services that requests lead to, from an empty index on, and grounds for them. Each request meets a
    disk of its own. The grounds begin with the root, and they may be widened at any time. They have to
    enclose the disks of the requests that read documents, which are all but reports of deleted paths, and
    the paths that are reported as saved, created or renamed have to lead to them. -/
inductive Served (s : Settings) : List Path → Service → Prop
  | start {sv : Service} (hs : sv.settings = s) (hindex : sv.index = .empty) : Served s [s.root] sv
  | widen {gs gs' : List Path} {sv : Service} (h : Served s gs sv) (hsub : gs ⊆ gs') : Served s gs' sv
  | scanAll {gs : List Path} {sv : Service} (d : Disk) (h : Served s gs sv) (hd : Encloses gs d) :
      Served s gs (sv.scanAll d).1
  | handle {gs : List Path} {sv : Service} (d : Disk) (e : WorkspaceEvent) (h : Served s gs sv)
      (hd : e.kind ≠ .deleted → Encloses gs d) (hlisted : s.LeadOnto gs d e.listed) :
      Served s gs (sv.handle d e).1
  | rename {gs : List Path} {sv : Service} (d : Disk) (tag name : Text) (h : Served s gs sv)
      (hd : Encloses gs d) : Served s gs (sv.rename d tag name).1.service
  | setSorting {gs : List Path} {sv : Service} (key : Option SortKey) (order : Option SortOrder)
      (h : Served s gs sv) : Served s gs (sv.setSorting key order)

namespace Service

/-- A service with given settings whose root and documents stand on the grounds. -/
structure Confined (sv : Service) (s : Settings) (gs : List Path) : Prop where
  settings : sv.settings = s
  root : OnGrounds gs s.root
  index : sv.index.StandsOn gs

/-- **A scan** keeps a service on its grounds. -/
theorem Confined.scan (h : sv.Confined s gs) (hs : s.Level) {reason : ScanReason}
    (hd : reason ≠ .fileDeleted → Encloses gs d) {changed : List Text}
    (hchanged : reason = .fileCreatedOrUpdated ∨ reason = .fileRenamed → s.LeadOnto gs d changed)
    (old : List Text) : (sv.scan d reason changed old).1.Confined s gs := by
  refine ⟨(settings_scan _ _ _ _ _).trans h.settings, h.root, ?_⟩
  rw [index_scan, h.settings]
  exact Settings.standsOn_scan hs hd h.root hchanged old h.index

/-- A scan of the workspace reads from no listed paths. -/
theorem Confined.scanAll (h : sv.Confined s gs) (hs : s.Level) (hd : Encloses gs d) :
    (sv.scanAll d).1.Confined s gs := by
  apply h.scan hs (fun _ => hd)
  intro hreason
  rcases hreason with hreason | hreason <;> cases hreason

/-- **A rename** keeps a service on its grounds: it ends with a scan of the workspace. -/
theorem Confined.rename (h : sv.Confined s gs) (hs : s.Level) (hd : Encloses gs d) (tag name : Text) :
    (sv.rename d tag name).1.service.Confined s gs := by
  rcases sv.rename_cases tag name with ⟨r, hrename⟩ | hrename
  · rw [hrename]
    exact h
  · rw [hrename]
    exact h.scanAll hs (hd.of_sameLayout (sameLayout_carryOut sv d (splitTag tag) name))

end Service

namespace Served

/-- **Every request keeps a service on its grounds.** -/
theorem confined_index (hs : s.Level) (h : Served s gs sv) : sv.Confined s gs := by
  induction h with
  | start hsettings hindex =>
    refine ⟨hsettings, ⟨s.root, List.mem_singleton.mpr rfl, List.prefix_rfl⟩, ?_⟩
    rw [hindex]
    exact fun k hk => absurd hk List.not_mem_nil
  | widen _ hsub ih => exact ⟨ih.settings, ih.root.mono hsub, fun k hk => (ih.index k hk).mono hsub⟩
  | scanAll d _ hd ih => exact ih.scanAll hs hd
  | handle d e _ hd hlisted ih =>
    obtain ⟨kind, paths, oldPaths⟩ := e
    apply ih.scan hs
    · intro hreason
      apply hd
      rintro rfl
      exact hreason rfl
    · intro hreason
      -- only these three kinds make the service read listed documents
      cases kind with
      | saved => exact hlisted
      | created => exact hlisted
      | renamed => exact hlisted
      | deleted => rcases hreason with h | h <;> cases h
      | configurationChanged => rcases hreason with h | h <;> cases h
      | refresh => rcases hreason with h | h <;> cases h
  | rename d tag name _ hd ih => exact ih.rename hs hd tag name
  | setSorting key order _ ih => exact ⟨ih.settings, ih.root, ih.index⟩

/-- **A service stays on its grounds.** After any requests every key of the index is the text of a real
    place at or below the root, a reported path, or a place that a link leads to. A rename then leaves every
    file elsewhere as it is, and what it does and answers does not depend on what such a file holds. -/
theorem confined (hs : s.Level) (h : Served s gs sv) :
    (∀ k ∈ sv.index.keys, StandsOn gs k) ∧
    ∀ d, Encloses gs d → ∀ tag name,
      (∀ p, ¬OnGrounds gs p →
        (sv.rename d tag name).1.disk.entries.get? p = d.entries.get? p) ∧
      ∀ d₂, AgreesOn gs d d₂ →
        (sv.rename d₂ tag name).1.service = (sv.rename d tag name).1.service ∧
        (sv.rename d₂ tag name).2 = (sv.rename d tag name).2 ∧
        AgreesOn gs (sv.rename d tag name).1.disk (sv.rename d₂ tag name).1.disk := by
  obtain ⟨hsettings, hroot, hindex⟩ := h.confined_index hs
  refine ⟨hindex, fun d hd tag name => ⟨fun p hp => ?_, fun d₂ hagree => ?_⟩⟩
  · exact get?_rename hd hindex tag name hp
  · exact hagree.rename (hsettings ▸ hs) hd (hsettings ▸ hroot) hindex tag name

end Served

/-! ## A workspace with neighbours -/

/-- A disk with a workspace, a note next to it, and more. -/
def neighbourDisk (more : List (Path × Entry)) : Disk :=
  { Disk.ofDirectories [] [['w']] [] with
    entries := .ofList ([([['w']], .directory), (["n.md".toList], .file (encodeUtf8 "#t".toList))] ++ more) }

/-- Settings for the workspace, with an extension. -/
def neighbourSettings (extension : Text) : Settings := ⟨[['w']], [extension], [], {}, []⟩

/-- The report that the neighbouring note was created. -/
def neighbourCreated : WorkspaceEvent := ⟨.created, ["../n.md".toList], []⟩

/-- A note in the workspace, a link there to a shared one, and a private one elsewhere. -/
def streetDisk : Disk :=
  neighbourDisk [([['w'], "a.md".toList], .file (encodeUtf8 "#t".toList)),
    ([['w'], "l.md".toList], .link "/s.md".toList), (["s.md".toList], .file (encodeUtf8 "#t".toList)),
    (["p.md".toList], .file (encodeUtf8 "#t".toList))]

/-- The workspace, the place that the link leads to, and the reported one. -/
def streetGrounds : List Path := [[['w']], ["s.md".toList], ["n.md".toList]]

theorem encloses_streetDisk : Encloses streetGrounds streetDisk := by
  have hstay : streetDisk.LinksStay streetGrounds := by decide
  exact hstay.encloses (by decide)

theorem level_neighbourSettings : (neighbourSettings ".md".toList).Level := ⟨by decide, by decide⟩

theorem leadOnto_neighbourCreated :
    (neighbourSettings ".md".toList).LeadOnto streetGrounds streetDisk neighbourCreated.listed := by
  intro w hw n hn
  obtain rfl := List.mem_singleton.mp hw
  have hnormal : (neighbourSettings ".md".toList).normalize streetDisk "../n.md".toList =
      .ok (.ofPath ["n.md".toList]) := by cbv
  rw [hnormal] at hn
  cases hn
  decide

/-- A service that has scanned the workspace and is told of the neighbouring note has three documents. A
    rename changes them, and leaves the private note alone without having read it. -/
theorem street_confined :
    ∃ sv, Served (neighbourSettings ".md".toList) streetGrounds sv ∧
      sv.index.keys = ["/s.md".toList, "/w/a.md".toList, "/n.md".toList] ∧
      (∀ k ∈ sv.index.keys, StandsOn streetGrounds k) ∧
      (sv.rename streetDisk "#t".toList "u".toList).1.disk.entries.get? ["p.md".toList] =
        streetDisk.entries.get? ["p.md".toList] ∧
      ∀ d₂, AgreesOn streetGrounds streetDisk d₂ →
        (sv.rename d₂ "#t".toList "u".toList).2 = (sv.rename streetDisk "#t".toList "u".toList).2 := by
  have hstart : Served (neighbourSettings ".md".toList) [[['w']]]
      { settings := neighbourSettings ".md".toList } := .start rfl rfl
  have hwide : Served (neighbourSettings ".md".toList) streetGrounds _ := hstart.widen (by decide)
  have hscanned := Served.scanAll streetDisk hwide encloses_streetDisk
  have htold := Served.handle streetDisk neighbourCreated hscanned (fun _ => encloses_streetDisk)
    leadOnto_neighbourCreated
  obtain ⟨hkeys, hrename⟩ := Served.confined level_neighbourSettings htold
  obtain ⟨hleft, hsame⟩ := hrename streetDisk encloses_streetDisk "#t".toList "u".toList
  exact ⟨_, htold, by cbv, hkeys, hleft _ (by decide), fun d₂ hagree => (hsame d₂ hagree).2.1⟩

/-! ## What leads out of a workspace -/

/-- A service that has indexed a document outside its root, and rewrites it when a tag is renamed. -/
def LeavesRoot (sv : Service) (d : Disk) : Prop :=
  "/n.md".toList ∈ sv.index.keys ∧ ¬StandsOn [sv.settings.root] "/n.md".toList ∧
    d.entries.get? ["n.md".toList] = some (.file (encodeUtf8 "#t".toList)) ∧
    (sv.rename d "#t".toList "u".toList).1.disk.entries.get? ["n.md".toList] =
      some (.file (encodeUtf8 "#u".toList))

/-- A disk with a link in the workspace to the neighbouring note. -/
def linkedDisk : Disk := neighbourDisk [([['w'], "l.md".toList], .link "/n.md".toList)]

/-- A disk with a directory in the workspace. -/
def folderDisk : Disk := neighbourDisk [([['w'], "f.d".toList], .directory)]

/-- **What leads out of a workspace**: a reported path, a link, and an extension that spells out two dots. -/
theorem leavesRoot_neighbours :
    LeavesRoot ((Service.scanAll { settings := neighbourSettings ".md".toList } (neighbourDisk [])).1.handle
        (neighbourDisk []) neighbourCreated).1 (neighbourDisk []) ∧
    LeavesRoot (Service.scanAll { settings := neighbourSettings ".md".toList } linkedDisk).1 linkedDisk ∧
    LeavesRoot (Service.scanAll { settings := neighbourSettings ".d/../../n.md".toList } folderDisk).1
      folderDisk := by
  refine ⟨⟨?_, ?_, ?_, ?_⟩, ⟨?_, ?_, ?_, ?_⟩, ⟨?_, ?_, ?_, ?_⟩⟩
  all_goals decide +kernel

end HashtagIndex
