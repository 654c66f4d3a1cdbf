import HashtagIndex.Disk.Document
import HashtagIndex.Proofs.MapViews
import HashtagIndex.Workspace.Documents

/-!
# `Proofs.Layout` — what does not depend on what files hold

The *layout* of a disk is the disk with every file emptied. Opening looks into a file only when the way
is done, and resolving, listing and searching never do: on a disk and on its layout they give the same
(`locate?_layout`, `canonical_layout`, `select_layout`), and so does discovery (`listDocuments_layout`).
Overwriting a file that is there keeps the layout (`layout_put`), hence keeps all of them.

## Contents
- `Disk.layout`, `Disk.entry?_layout`, `Disk.layout_put`.
- Opening, resolving, listing and searching on a layout.
- `SameLayout`: disks with one layout, what they have in common, and when they are equal.
-/

namespace HashtagIndex

/-- An entry without what a file holds. -/
def Entry.emptied : Entry → Entry
  | .file _ => .file []
  | e => e

namespace Disk

/-- The disk with every file emptied. -/
def layout (d : Disk) : Disk := { d with entries := d.entries.mapValues Entry.emptied }

variable (d : Disk)

theorem entry?_layout (p : Path) : d.layout.entry? p = ( d.entry? p).map Entry.emptied := by
  unfold entry?
  split
  · rfl
  · exact OrderedMap.get?_mapValues _ _ _

/-- Overwriting a file that is there keeps the layout. -/
theorem layout_put {d : Disk} {p : Path} {old : List UInt8} (h : d.entry? p = some (.file old))
    (new : List UInt8) : (d.put p (.file new)).layout = d.layout := by
  unfold entry? at h
  split at h
  · cases h
  · have hentries : (d.entries.insert p (.file new)).mapValues Entry.emptied =
        d.entries.mapValues Entry.emptied := OrderedMap.mapValues_insert h rfl
    simp only [layout, put, hentries]

/-! ## Opening -/

theorem entry?_layout_eq_directory (p : Path) :
    d.layout.entry? p = some .directory ↔ d.entry? p = some .directory := by
  rw [entry?_layout]
  rcases d.entry? p with _ | _ | b | t <;> simp [Entry.emptied]

theorem entry?_layout_eq_file (p : Path) :
    d.layout.entry? p = some (.file []) ↔ ∃ b, d.entry? p = some (.file b) := by
  rw [entry?_layout]
  rcases d.entry? p with _ | _ | b | t <;> simp [Entry.emptied]

theorem advance_layout (place : Path) (names : List Text) :
    d.layout.advance place names = d.advance place names := by
  induction names generalizing place with
  | nil => rfl
  | cons name rest ih =>
    have hbarred : d.layout.barred place = d.barred place := rfl
    rw [advance, advance]
    simp only [ne_eq, entry?_layout_eq_directory, hbarred, ih]
    rw [entry?_layout]
    rcases d.entry? (place ++ [name]) with _ | _ | b | t <;> rfl

theorem walk?_layout (links : Nat) (place : Path) (names : List Text) :
    d.layout.walk? links place names = d.walk? links place names := by
  induction links generalizing place names with
  | zero => rw [walk?, walk?, advance_layout]
  | succ n ih =>
    rw [walk?, walk?, advance_layout]
    simp only [ih]

theorem locate?_layout (parts : List Text) : d.layout.locate? parts = d.locate? parts := by
  rw [locate?, locate?, walk?_layout]

theorem look_layout (parts : List Text) :
    d.layout.look parts = Option.map Entry.emptied <$> d.look parts := by
  rw [look, look, locate?_layout]
  rcases d.locate? parts with e | p
  · cases e <;> rfl
  · show Except.ok ( d.layout.entry? p) = _
    rw [entry?_layout]
    rfl

theorem exists?_layout (parts : List Text) : d.layout.exists? parts = d.exists? parts := by
  rw [exists?, exists?, look_layout]
  rcases d.look parts with f | _ | e <;> rfl

theorem isDirectory_layout (parts : List Text) : d.layout.isDirectory parts = d.isDirectory parts := by
  rw [isDirectory, isDirectory, look_layout]
  rcases d.look parts with f | _ | _ | b | t <;> rfl

theorem isFile_layout (parts : List Text) : d.layout.isFile parts = d.isFile parts := by
  rw [isFile, isFile, look_layout]
  rcases d.look parts with f | _ | _ | b | t <;> rfl

/-! ## Resolving -/

theorem followAll_layout (enter : MetLinks → Path → List Text → MetLinks × Resolution)
    (met : MetLinks) (place : Path) (names : List Text) :
    d.layout.followAll enter met place names = d.followAll enter met place names := by
  induction names generalizing met place with
  | nil => rfl
  | cons name rest ih =>
    rw [followAll, followAll]
    simp only [ih, entry?_layout]
    rcases d.entry? (place ++ [name]) with _ | _ | b | t <;> rfl

theorem follow_layout (depth : Nat) (met : MetLinks) (place : Path) (names : List Text) :
    d.layout.follow depth met place names = d.follow depth met place names := by
  induction depth generalizing met place names with
  | zero => rfl
  | succ n ih =>
    have hsame : d.layout.follow n = d.follow n := by
      funext met place names
      exact ih met place names
    rw [follow, follow, hsame, followAll_layout]

theorem settle_layout (parts : List Text) : d.layout.settle parts = d.settle parts := by
  have hsize : d.layout.entries.size = d.entries.size := List.length_map _
  rw [settle, settle, hsize, follow_layout]

theorem resolve_layout (parts : List Text) : d.layout.resolve parts = d.resolve parts := by
  simp only [resolve, settle_layout, locate?_layout]

theorem canonical_layout (base : Path) (written : Text) :
    d.layout.canonical base written = d.canonical base written := by
  simp only [canonical, resolve_layout]
  rfl

/-! ## Listing and searching -/

theorem childNames_layout (p : Path) : d.layout.childNames p = d.childNames p := by
  have hkeys : d.layout.entries.keys = d.entries.keys := by
    simp only [OrderedMap.keys, layout, OrderedMap.mapValues, List.map_map]
    rfl
  rw [childNames, childNames, hkeys]

theorem directoriesBelow_layout (p : Path) : d.layout.directoriesBelow p = d.directoriesBelow p := by
  rw [directoriesBelow, directoriesBelow]
  congr 1
  simp only [OrderedMap.toList, layout, OrderedMap.mapValues, List.filterMap_map]
  congr 1
  funext e
  rcases e with ⟨k, _ | b | t⟩ <;> simp [Entry.emptied]

theorem namesIn_layout (parts : List Text) : d.layout.namesIn parts = d.namesIn parts := by
  simp only [namesIn, locate?_layout, childNames_layout]

theorem chainsFrom_layout (parts : List Text) : d.layout.chainsFrom parts = d.chainsFrom parts := by
  simp only [chainsFrom, locate?_layout, directoriesBelow_layout]

theorem leadsOn_layout (place : List Text) (name : Text) :
    d.layout.leadsOn place name = d.leadsOn place name := by
  simp only [leadsOn, locate?_layout, isDirectory_layout]
  rcases d.locate? place with e | p
  · rfl
  · simp only [entry?_layout]
    rcases d.entry? (p ++ [name]) with _ | _ | b | t <;> rfl

theorem select_layout (parts : List SearchPart) : d.layout.select parts = d.select parts := by
  induction parts with
  | nil => rfl
  | cons part rest ih =>
    funext place
    cases part with
    | here => rfl
    | deep =>
      by_cases hdeep : ∃ r, rest = .deep :: r
      · obtain ⟨r, rfl⟩ := hdeep
        rw [select, select, ih]
      · have hnot : ∀ r, rest = .deep :: r → False := fun r h => hdeep ⟨r, h⟩
        rw [select.eq_4 _ _ _ hnot, select.eq_4 _ _ _ hnot, chainsFrom_layout, ih]
    | named n =>
      rw [select, select, ih]
      simp only [exists?_layout, isDirectory_layout]
    | fitting w =>
      rw [select, select, ih]
      simp only [namesIn_layout, leadsOn_layout]

theorem search_layout (base : Path) (pattern : Text) :
    d.layout.search base pattern = d.search base pattern := by
  simp only [search, isDirectory_layout, select_layout]

end Disk

namespace Settings

variable (s : Settings) (d : Disk)

theorem keepDocuments_layout (found : List (List Text)) :
    s.keepDocuments d.layout found = s.keepDocuments d found := by
  induction found with
  | nil => rfl
  | cons parts rest ih => simp only [keepDocuments, Disk.isFile_layout, ih, Disk.resolve_layout]

theorem discover_layout (base : Path) : s.discover d.layout base = s.discover d base := by
  have hone : s.discoverOne d.layout base = s.discoverOne d base := by
    funext extension
    simp only [discoverOne, Disk.search_layout, keepDocuments_layout]
  rw [discover, discover, hone]

theorem documentsAt_layout (base : PathName) : s.documentsAt d.layout base = s.documentsAt d base := by
  simp only [documentsAt, Disk.exists?_layout, Disk.isFile_layout, discover_layout]

/-- **Discovery does not look into files.** -/
theorem listDocuments_layout (folder : Text) :
    s.listDocuments d.layout folder = s.listDocuments d folder := by
  simp only [listDocuments, documentsAt_layout, normalize, Disk.canonical_layout]

end Settings

/-! ## Disks with one layout -/

/-- Disks that differ at most in what their files hold. -/
def SameLayout (d d' : Disk) : Prop := d'.layout = d.layout

namespace SameLayout

variable {d d' d'' : Disk}

theorem refl (d : Disk) : SameLayout d d := rfl

theorem trans (h : SameLayout d d') (h' : SameLayout d' d'') : SameLayout d d'' := Eq.trans h' h

theorem locate? (h : SameLayout d d') (parts : List Text) : d'.locate? parts = d.locate? parts := by
  rw [← d'.locate?_layout, h, d.locate?_layout]

theorem listDocuments (h : SameLayout d d') (s : Settings) (folder : Text) :
    s.listDocuments d' folder = s.listDocuments d folder := by
  rw [← s.listDocuments_layout d', h, s.listDocuments_layout]

theorem cwd (h : SameLayout d d') : d'.cwd = d.cwd := by
  have hcwd : d'.layout.cwd = d.layout.cwd := by rw [h]
  exact hcwd

theorem refuses (h : SameLayout d d') (name : PathName) (which : Refusal → Bool) :
    d'.refuses name which = d.refuses name which := by
  have hrefusals : d'.layout.refusals = d.layout.refusals := by rw [h]
  replace hrefusals : d'.refusals = d.refusals := hrefusals
  rw [Disk.refuses, Disk.refuses, hrefusals, h.cwd]

theorem room? (h : SameLayout d d') (name : PathName) : d'.room? name = d.room? name := by
  have hrefusals : d'.layout.refusals = d.layout.refusals := by rw [h]
  replace hrefusals : d'.refusals = d.refusals := hrefusals
  rw [Disk.room?, Disk.room?, hrefusals, h.cwd]

/-- Disks with one layout whose files hold the same are equal. -/
theorem eq_of_get? (h : SameLayout d d') (hget : ∀ p, d'.entries.get? p = d.entries.get? p) : d' = d := by
  obtain ⟨entries, refusals, cwd, home, homes⟩ := d
  obtain ⟨entries', refusals', cwd', home', homes'⟩ := d'
  have hmap : entries'.mapValues Entry.emptied = entries.mapValues Entry.emptied :=
    congrArg Disk.entries h
  have hkeys : entries'.keys = entries.keys := by
    have hboth := congrArg OrderedMap.keys hmap
    rwa [OrderedMap.keys_mapValues, OrderedMap.keys_mapValues] at hboth
  have hrefusals : refusals' = refusals := congrArg Disk.refusals h
  have hcwd : cwd' = cwd := congrArg Disk.cwd h
  have hhome : home' = home := congrArg Disk.home h
  have hhomes : homes' = homes := congrArg Disk.homes h
  have hentries : entries' = entries := OrderedMap.eq_of_keys_of_get? hkeys hget
  rw [hentries, hrefusals, hcwd, hhome, hhomes]

end SameLayout

end HashtagIndex
