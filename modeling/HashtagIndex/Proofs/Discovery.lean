import HashtagIndex.Proofs.Outcomes
import HashtagIndex.Proofs.RealPaths
import HashtagIndex.Proofs.TextOrder
import Mathlib

/-!
# `Proofs.Discovery` — discovery and membership name the same documents, where they do

Discovery finds a document by fitting its name to a pattern for each extension; membership takes the
extension of the name in small letters and looks it up. Where no link is named like a document, discovery
finds exactly the files whose names fit, outside excluded directories, at or below the place where it
starts (`discover_eq_ok`). The two therefore agree on a whole workspace, and a listing of a folder is the
part of the whole listing that stands there, exactly if the two tests agree on the name of every file that
is not excluded. They do not agree on names in capital letters, on names that are nothing but an
extension, and on extensions with two dots.

## Contents
- `Searchable`, `Settings.Fits`: extensions that can be searched for, and the names that fit.
- `Disk.search_eq_ok`, `keepDocuments_eq_ok`, `discover_eq_ok`: what discovery finds.
- `documentsAt_file`, `documentsAt_directory`, `listDocuments_of_normalize`: listings.
- `DiscoveryAgrees`, and when it holds; a vault of notes.
-/

namespace HashtagIndex

/-- Whether an entry is a file. -/
def Entry.isFile : Entry → Bool
  | .file _ => true
  | _ => false

/-! ## Searching for an extension -/

/-- An extension that a pattern for the end of a name can be made of. -/
def Searchable (e : Text) : Prop := e.head? = some '.' ∧ '/' ∉ e ∧ hasDoubleStar e = false

instance (e : Text) : Decidable (Searchable e) := inferInstanceAs (Decidable (_ ∧ _))

/-- The pattern for the end of a name. -/
def endPattern (e : Text) : Wildcard := Wildcard.ofText ('*' :: e)

theorem searchParts_of_searchable {e : Text} (he : Searchable e) :
    searchParts ('*' :: e) = .ok [.fitting (endPattern e)] := by
  obtain ⟨hdot, hslash, hstars⟩ := he
  obtain ⟨e, rfl⟩ := List.head?_eq_some_iff.mp hdot
  have hparts : pathParts ('*' :: '.' :: e) = ['*' :: '.' :: e] := by
    have hno : '/' ∉ '*' :: '.' :: e := by simpa using hslash
    rw [pathParts, List.splitOn_eq_singleton hno]
    simp
  have hpart : SearchPart.ofText ('*' :: '.' :: e) = .ok (.fitting (endPattern ('.' :: e))) := by
    have hstars' : hasDoubleStar ('*' :: '.' :: e) = false := by
      rw [hasDoubleStar]
      · exact hstars
      · simp
    rw [SearchPart.ofText, if_neg (by simp), hstars', if_neg (by simp), if_pos (by simp [isPattern])]
    rfl
  have hlast : ('*' :: '.' :: e).getLast? ≠ some '/' := by
    intro h
    have := List.mem_of_getLast? h
    simp only [List.mem_cons] at this hslash
    rcases this with h | h
    · cases h
    · exact hslash h
  rw [searchParts, hparts, List.mapM_cons, hpart, List.mapM_nil]
  show Except.ok (if ('*' :: '.' :: e).getLast? = some '/' then _ else _) = _
  rw [if_neg hlast]

namespace Disk

variable (d : Disk)

theorem chooseNames_true (names : List Text) :
    chooseNames (fun _ => .ok true) names = .ok names := by
  induction names with
  | nil => rfl
  | cons n rest ih =>
    rw [chooseNames, ih]
    rfl

theorem fromAll_of_eq_ok {go : List Text → Except PathFault (List (List Text))}
    {f : List Text → List (List Text)} {places : List (List Text)}
    (h : ∀ place ∈ places, go place = .ok (f place)) : fromAll go places = .ok (places.flatMap f) := by
  induction places with
  | nil => rfl
  | cons place rest ih =>
    rw [fromAll, h place (by simp), ih fun q hq => h q (List.mem_cons_of_mem _ hq)]
    rfl

theorem select_fitting (w : Wildcard) (place : List Text) :
    d.select [.fitting w] place = .ok (((d.namesIn place).filter w.fits).map fun n => place ++ [n]) := by
  rw [select]
  simp only [List.isEmpty_nil, if_true, chooseNames_true]
  show fromAll (d.select []) _ = _
  rw [fromAll_of_eq_ok (f := fun q => [q]) fun q _ => by rw [select], List.flatMap_singleton']

/-- A search for an extension goes through the directories at and below its start and takes the names
    that fit. -/
theorem search_eq_ok {base : Path} (hbase : d.isDirectory base = .ok true) {e : Text}
    (he : Searchable e) :
    d.search base ('*' :: e) = .ok ((d.chainsFrom base).flatMap fun place =>
      ((d.namesIn place).filter (endPattern e).fits).map fun n => place ++ [n]) := by
  have hnot : ∀ r, [SearchPart.fitting (endPattern e)] = .deep :: r → False := nofun
  have hselect : d.search base ('*' :: e) = d.select [.deep, .fitting (endPattern e)] base := by
    rw [search, searchParts_of_searchable he]
    show (d.isDirectory base >>= _) = _
    rw [hbase]
    rfl
  rw [hselect, select.eq_4 _ _ _ hnot]
  exact fromAll_of_eq_ok fun place _ => d.select_fitting _ place

variable {d}

/-- **What a search for an extension finds**: the entries below the directory, reached through
    directories only, whose names fit. -/
theorem WellFormed.mem_search (hd : d.WellFormed) {base : Path}
    (hbase : d.entry? base = some .directory) {e : Text} {q : Path} :
    (q ∈ (d.chainsFrom base).flatMap fun place =>
        ((d.namesIn place).filter (endPattern e).fits).map fun n => place ++ [n]) ↔
      ∃ r n, q = base ++ r ++ [n] ∧ (∃ x, d.entry? q = some x) ∧ (endPattern e).fits n = true := by
  have hchains : d.chainsFrom base = (d.directoriesBelow base).map (base ++ ·) := by
    rw [chainsFrom, hd.locate?_of_entry hbase Entry.directory_ne_link]
  simp only [hchains, List.mem_flatMap, List.mem_map, List.mem_filter]
  constructor
  · rintro ⟨_, ⟨r, hr, rfl⟩, n, ⟨hn, hfits⟩, rfl⟩
    have hreal : d.entry? (base ++ r) = some .directory := by
      rcases mem_directoriesBelow.mp hr with rfl | ⟨-, hr⟩
      · rwa [List.append_nil]
      · exact hr
    rw [namesIn, hd.locate?_of_entry hreal Entry.directory_ne_link] at hn
    exact ⟨r, n, rfl, mem_childNames.mp hn, hfits⟩
  · rintro ⟨r, n, rfl, ⟨x, hx⟩, hfits⟩
    -- what is found stands in a directory
    have hreal := hd.tree.entry?_of_append hx (by simp)
    refine ⟨base ++ r, ⟨r, mem_directoriesBelow.mpr ?_, rfl⟩, n, ⟨?_, hfits⟩, rfl⟩
    · by_cases hr : r = []
      · exact Or.inl hr
      · exact Or.inr ⟨hr, hreal⟩
    · rw [namesIn, hd.locate?_of_entry hreal Entry.directory_ne_link]
      exact mem_childNames.mpr ⟨x, hx⟩

end Disk

namespace Settings

variable {s : Settings} {d : Disk}

/-- Whether a name is like that of a document to discovery: it ends in one of the extensions, taken as
    patterns. -/
def Fits (s : Settings) (n : Text) : Prop := ∃ e ∈ s.extensions, (endPattern e).fits n = true

instance (s : Settings) (n : Text) : Decidable (s.Fits n) := inferInstanceAs (Decidable (∃ e ∈ _, _))

/-- Whether a name is like that of a document to membership: its extension in small letters is one of the
    extensions. -/
def Named (s : Settings) (n : Text) : Prop := (extensionOf n).lower ∈ s.extensions

instance (s : Settings) (n : Text) : Decidable (s.Named n) := inferInstanceAs (Decidable (_ ∈ _))

theorem isDocument_iff {p : PathName} :
    s.isDocument p = true ↔ s.Named p.name ∧ s.isExcluded p = false := by
  simp [isDocument, Named]

/-- Of places at which something other than a link stands, the files outside excluded directories are
    kept, each under its own path. -/
theorem keepDocuments_eq_ok (hd : d.WellFormed) {found : List (List Text)}
    (hfound : ∀ q ∈ found, ∃ x, d.entry? q = some x ∧ ∀ t, x ≠ .link t) :
    ∃ docs, s.keepDocuments d found = .ok docs ∧ ∀ t, t ∈ docs ↔
      ∃ q ∈ found, (∃ b, d.entry? q = some (.file b)) ∧ s.isExcluded (.ofPath q) = false ∧
        t = Path.toText q := by
  induction found with
  | nil => exact ⟨[], rfl, by simp⟩
  | cons q rest ih =>
    obtain ⟨docs, hdocs, hmem⟩ := ih fun u hu => hfound u (List.mem_cons_of_mem _ hu)
    obtain ⟨x, hx, hlink⟩ := hfound q (by simp)
    have hfile : d.isFile q = .ok x.isFile := by
      rw [Disk.isFile, hd.look_of_entry hx hlink]
      cases x <;> rfl
    rw [keepDocuments, hfile, hdocs]
    simp only [List.exists_mem_cons_iff, ← hmem, hx]
    -- a directory is passed over, and a file that an excluded directory hides
    cases x with
    | link t => exact absurd rfl (hlink t)
    | directory => exact ⟨docs, rfl, fun t => by simp⟩
    | file b =>
      by_cases hexcluded : s.isExcluded (.ofPath q) = true
      · refine ⟨docs, ?_, fun t => by simp [hexcluded]⟩
        show (if (true && !s.isExcluded (.ofPath q)) = true then _ else _) = _
        rw [hexcluded]
        rfl
      · refine ⟨Path.toText q :: docs, ?_, fun t => by simp [hexcluded]⟩
        show (if (true && !s.isExcluded (.ofPath q)) = true then
          (d.resolve q >>= fun p => .ok (p.toText :: docs)) else _) = _
        rw [if_pos (by simpa using hexcluded), hd.resolve_of_entry hx hlink]
        rfl

/-- No link below a directory is named like a document. -/
def NoLinkFits (s : Settings) (d : Disk) (base : Path) : Prop :=
  ∀ r n t, d.entry? (base ++ r ++ [n]) = some (.link t) → ¬s.Fits n

theorem discoverOne_eq_ok (hd : d.WellFormed) {base : Path} (hbase : d.entry? base = some .directory)
    (hlinks : s.NoLinkFits d base) {e : Text} (he : e ∈ s.extensions) (hsearch : Searchable e) :
    ∃ docs, s.discoverOne d base e = .ok docs ∧ ∀ t, t ∈ docs ↔
      ∃ r n, (∃ b, d.entry? (base ++ r ++ [n]) = some (.file b)) ∧
        s.isExcluded (.ofPath (base ++ r ++ [n])) = false ∧ (endPattern e).fits n = true ∧
        t = Path.toText (base ++ r ++ [n]) := by
  have hdir : d.isDirectory base = .ok true := by
    rw [Disk.isDirectory, hd.look_of_entry hbase Entry.directory_ne_link]
    rfl
  have hfound := fun q => hd.mem_search (e := e) (q := q) hbase
  obtain ⟨docs, hdocs, hmem⟩ := keepDocuments_eq_ok (s := s) hd fun q hq => by
    obtain ⟨r, n, rfl, ⟨x, hx⟩, hfits⟩ := (hfound q).mp hq
    refine ⟨x, hx, ?_⟩
    rintro t rfl
    exact hlinks r n t hx ⟨e, he, hfits⟩
  refine ⟨docs, bind_eq_ok.mpr ⟨_, d.search_eq_ok hdir hsearch, hdocs⟩, fun t => ?_⟩
  rw [hmem]
  constructor
  · rintro ⟨q, hq, hfile, hexcluded, rfl⟩
    obtain ⟨r, n, rfl, -, hfits⟩ := (hfound q).mp hq
    exact ⟨r, n, hfile, hexcluded, hfits, rfl⟩
  · rintro ⟨r, n, ⟨b, hb⟩, hexcluded, hfits, rfl⟩
    exact ⟨_, (hfound _).mpr ⟨r, n, rfl, ⟨_, hb⟩, hfits⟩, ⟨b, hb⟩, hexcluded, rfl⟩

/-- What is found is found for one of the extensions. -/
theorem discover_of_discoverOne {base : Path} {holds : Text → Text → Prop}
    (hone : ∀ e ∈ s.extensions, ∃ docs, s.discoverOne d base e = .ok docs ∧ ∀ t, t ∈ docs ↔ holds e t) :
    ∃ docs, s.discover d base = .ok (Text.sortDistinct docs) ∧ ∀ t, t ∈ docs ↔ ∃ e ∈ s.extensions, holds e t := by
  obtain ⟨found, hfound, hall⟩ := exists_mapM_eq_ok fun e he => (hone e he).imp fun _ h => h.1
  refine ⟨found.flatten, bind_eq_ok.mpr ⟨found, hfound, rfl⟩, fun t => ?_⟩
  rw [List.mem_flatten]
  constructor
  · rintro ⟨docs, hdocs, ht⟩
    obtain ⟨e, he, hok⟩ := (hall docs).mp hdocs
    obtain ⟨docs', hok', hmem⟩ := hone e he
    obtain rfl := Except.ok.inj (hok.symm.trans hok')
    exact ⟨e, he, (hmem t).mp ht⟩
  · rintro ⟨e, he, ht⟩
    obtain ⟨docs, hok, hmem⟩ := hone e he
    exact ⟨docs, (hall docs).mpr ⟨e, he, hok⟩, (hmem t).mpr ht⟩

/-- **What discovery finds**: the files below the directory, outside excluded directories, whose names
    fit. -/
theorem discover_eq_ok (hd : d.WellFormed) {base : Path} (hbase : d.entry? base = some .directory)
    (hlinks : s.NoLinkFits d base) (hsearch : ∀ e ∈ s.extensions, Searchable e) :
    ∃ docs, s.discover d base = .ok (Text.sortDistinct docs) ∧ ∀ t, t ∈ docs ↔
      ∃ r n, (∃ b, d.entry? (base ++ r ++ [n]) = some (.file b)) ∧
        s.isExcluded (.ofPath (base ++ r ++ [n])) = false ∧ s.Fits n ∧
        t = Path.toText (base ++ r ++ [n]) := by
  obtain ⟨docs, hdocs, hmem⟩ :=
    discover_of_discoverOne fun e he => discoverOne_eq_ok hd hbase hlinks he (hsearch e he)
  refine ⟨docs, hdocs, fun t => ?_⟩
  rw [hmem]
  constructor
  · rintro ⟨e, he, r, n, hfile, hexcluded, hfits, rfl⟩
    exact ⟨r, n, hfile, hexcluded, ⟨e, he, hfits⟩, rfl⟩
  · rintro ⟨r, n, hfile, hexcluded, ⟨e, he, hfits⟩, rfl⟩
    exact ⟨e, he, r, n, hfile, hexcluded, hfits, rfl⟩

/-! ## Listings -/

/-- The documents at or below a path: the files there that are not excluded and named like a document to
    discovery, or to membership if the path is that of a file. -/
theorem documentsAt_file (hd : d.WellFormed) {p : Path} {b : List UInt8}
    (hp : d.entry? p = some (.file b)) :
    s.documentsAt d (.ofPath p) = .ok (if s.isDocument (.ofPath p) then [Path.toText p] else []) := by
  have hlook := hd.look_of_entry hp (Entry.file_ne_link b)
  have hexists : d.exists? (PathName.ofPath p).parts = .ok true := by
    rw [Disk.exists?, PathName.ofPath, hlook]
    rfl
  have hfile : d.isFile (PathName.ofPath p).parts = .ok true := by
    rw [Disk.isFile, PathName.ofPath, hlook]
    rfl
  rw [documentsAt, hexists, hfile]
  rfl

theorem documentsAt_directory (hd : d.WellFormed) {p : Path} (hp : d.entry? p = some .directory) :
    s.documentsAt d (.ofPath p) = s.discover d p := by
  have hlook := hd.look_of_entry hp Entry.directory_ne_link
  have hexists : d.exists? (PathName.ofPath p).parts = .ok true := by
    rw [Disk.exists?, PathName.ofPath, hlook]
    rfl
  have hfile : d.isFile (PathName.ofPath p).parts = .ok false := by
    rw [Disk.isFile, PathName.ofPath, hlook]
    rfl
  rw [documentsAt, hexists, hfile]
  rfl

/-- The listing of a path at or below the root that resolving leads to. -/
theorem listDocuments_of_normalize (hd : d.WellFormed) {folder : Text} {p : Path} {x : Entry}
    (hfolder : s.normalize d folder = .ok (.ofPath p)) (hx : d.entry? p = some x)
    (hlink : ∀ t, x ≠ .link t) (hbelow : s.root <+: p) :
    s.listDocuments d folder = s.documentsAt d (.ofPath p) := by
  by_cases hempty : folder = []
  · -- the empty path stands for the root, and resolving it leads there
    subst hempty
    obtain ⟨y, hy, hylink⟩ : ∃ y, d.entry? s.root = some y ∧ ∀ t, y ≠ .link t := by
      obtain ⟨r, rfl⟩ := hbelow
      by_cases hr : r = []
      · subst hr
        rw [List.append_nil] at hx
        exact ⟨x, hx, hlink⟩
      · exact ⟨_, hd.tree.entry?_of_append hx hr, Entry.directory_ne_link⟩
    have hroot : s.normalize d [] = d.resolve s.root := by
      show d.resolve (s.root ++ []) = _
      rw [List.append_nil]
    rw [hroot, hd.resolve_of_entry hy hylink] at hfolder
    rw [listDocuments, if_pos rfl, Except.ok.inj hfolder]
  · rw [listDocuments, if_neg hempty, hfolder]
    rfl

/-- The whole listing. -/
theorem listDocuments_root (s : Settings) (d : Disk) :
    s.listDocuments d [] = s.documentsAt d (.ofPath s.root) := by
  rw [listDocuments, if_pos rfl]

end Settings

/-! ## Agreement -/

/-- **Discovery and membership name the same documents**: a file below the root is listed exactly if it is
    a document by its name, and the listing of a folder or file at or below the root is the part of the
    whole listing that stands there. -/
structure DiscoveryAgrees (s : Settings) (d : Disk) : Prop where
  documents : ∀ r n b, d.entry? (s.root ++ r ++ [n]) = some (.file b) →
    ((∃ l, s.listDocuments d [] = .ok l ∧ Path.toText (s.root ++ r ++ [n]) ∈ l) ↔
      s.isDocument (.ofPath (s.root ++ r ++ [n])) = true)
  folders : ∀ folder p x, s.normalize d folder = .ok (.ofPath p) → d.entry? p = some x →
    (∀ t, x ≠ .link t) → s.root <+: p → ∃ l, s.listDocuments d [] = .ok l ∧
      s.listDocuments d folder = .ok (l.filter (atOrBelow (Path.toText p)))

section Agreement

variable {s : Settings} {d : Disk}

/-- A file is listed if it is found by its name. -/
theorem mem_listing_iff (hd : d.WellFormed) (hsearch : ∀ e ∈ s.extensions, Searchable e)
    (hlinks : s.NoLinkFits d s.root) {r : List Text} {n : Text} {b : List UInt8}
    (hfile : d.entry? (s.root ++ r ++ [n]) = some (.file b)) :
    (∃ l, s.listDocuments d [] = .ok l ∧ Path.toText (s.root ++ r ++ [n]) ∈ l) ↔
      s.isExcluded (.ofPath (s.root ++ r ++ [n])) = false ∧ s.Fits n := by
  have hroot : d.entry? s.root = some .directory := by
    rw [List.append_assoc] at hfile
    exact hd.tree.entry?_of_append hfile (by simp)
  obtain ⟨docs, hdocs, hmem⟩ := Settings.discover_eq_ok hd hroot hlinks hsearch
  rw [Settings.listDocuments_root, Settings.documentsAt_directory hd hroot, hdocs]
  constructor
  · rintro ⟨l, hl, ht⟩
    obtain rfl := Except.ok.inj hl
    obtain ⟨r', n', ⟨b', hb'⟩, hexcluded, hfits, htext⟩ := (hmem _).mp (Text.mem_sortDistinct.mp ht)
    -- paths with one text are one path
    have hpath := toText_inj (hd.tree.properPath hfile) (hd.tree.properPath hb') htext
    have hn : n = n' := by
      have := congrArg List.getLast? hpath
      simpa using this
    rw [hpath, hn]
    exact ⟨hexcluded, hfits⟩
  · rintro ⟨hexcluded, hfits⟩
    exact ⟨_, rfl, Text.mem_sortDistinct.mpr ((hmem _).mpr ⟨r, n, ⟨b, hfile⟩, hexcluded, hfits, rfl⟩)⟩

/-- The name of a path that ends with a component is that component. -/
theorem name_ofPath_concat (p : Path) (n : Text) : (PathName.ofPath (p ++ [n])).name = n := by
  simp [PathName.name, PathName.ofPath]

/-- The listing of a directory below another one is the part of the other listing that stands there. -/
theorem discover_below (hd : d.WellFormed) (hsearch : ∀ e ∈ s.extensions, Searchable e) {base : Path}
    (hlinks : s.NoLinkFits d base) {q : List Text} (hbase : d.entry? base = some .directory)
    (hq : d.entry? (base ++ q) = some .directory) :
    ∃ l, s.discover d base = .ok l ∧
      s.discover d (base ++ q) = .ok (l.filter (atOrBelow (Path.toText (base ++ q)))) := by
  have hlinks' : s.NoLinkFits d (base ++ q) := fun r n t ht =>
    hlinks (q ++ r) n t (by rwa [← List.append_assoc])
  obtain ⟨docs, hdocs, hmem⟩ := Settings.discover_eq_ok hd hbase hlinks hsearch
  obtain ⟨docs', hdocs', hmem'⟩ := Settings.discover_eq_ok hd hq hlinks' hsearch
  refine ⟨_, hdocs, hdocs'.trans (congrArg _ ?_)⟩
  refine Text.eq_of_mem_iff (Text.pairwise_sortDistinct _)
    ((Text.pairwise_sortDistinct _).sublist List.filter_sublist) (Text.nodup_sortDistinct _)
    ((Text.nodup_sortDistinct _).sublist List.filter_sublist) fun t => ?_
  rw [List.mem_filter, Text.mem_sortDistinct, Text.mem_sortDistinct, hmem, hmem']
  constructor
  · rintro ⟨r, n, ⟨b, hb⟩, hexcluded, hfits, rfl⟩
    have hassoc : base ++ q ++ r ++ [n] = base ++ (q ++ r) ++ [n] := by simp
    refine ⟨⟨q ++ r, n, ⟨b, hassoc ▸ hb⟩, hassoc ▸ hexcluded, hfits, by rw [hassoc]⟩, ?_⟩
    rw [atOrBelow_toText (hd.tree.properPath hq) (hd.tree.properPath hb), List.append_assoc (base ++ q)]
    exact List.prefix_append _ _
  · rintro ⟨⟨r, n, ⟨b, hb⟩, hexcluded, hfits, rfl⟩, hbelow⟩
    rw [atOrBelow_toText (hd.tree.properPath hq) (hd.tree.properPath hb), List.append_assoc base,
      List.prefix_append_right_inj] at hbelow
    -- the file is not the directory itself, so it stands in a directory at or below it
    obtain ⟨r', hr'⟩ : q <+: r := by
      rcases List.prefix_concat_iff.mp hbelow with rfl | h
      · rw [List.append_assoc, hq] at hb
        cases hb
      · exact h
    subst hr'
    rw [← List.append_assoc base] at hb hexcluded ⊢
    exact ⟨r', n, ⟨b, hb⟩, hexcluded, hfits, rfl⟩

/-- The listing of a file is the part of the whole listing that stands there, if the two tests agree on
    it. -/
theorem filter_listing_of_file (hd : d.WellFormed) {l : List Text} {p : Path} {b : List UInt8}
    (hfile : d.entry? p = some (.file b)) (hsorted : l.Nodup)
    (hl : ∀ t ∈ l, ∃ q c, d.entry? q = some (.file c) ∧ t = Path.toText q)
    (hagree : Path.toText p ∈ l ↔ s.isDocument (.ofPath p) = true) :
    (if s.isDocument (.ofPath p) then [Path.toText p] else []) =
      l.filter (atOrBelow (Path.toText p)) := by
  -- nothing stands below a file
  have honly : ∀ t ∈ l, atOrBelow (Path.toText p) t = (t == Path.toText p) := by
    intro t ht
    obtain ⟨q, c, hq, rfl⟩ := hl t ht
    have hp := hd.tree.properPath hfile
    rw [Bool.eq_iff_iff, atOrBelow_toText hp (hd.tree.properPath hq), beq_iff_eq]
    constructor
    · rintro ⟨r, rfl⟩
      by_cases hr : r = []
      · rw [hr, List.append_nil]
      · rw [hd.tree.entry?_of_append hq hr] at hfile
        cases hfile
    · intro h
      obtain rfl := toText_inj (hd.tree.properPath hq) hp h
      exact List.prefix_rfl
  rw [List.filter_congr honly, List.filter_beq, hsorted.count]
  simp only [hagree]
  split <;> rfl

/-- The listing of a place at or below the root is the part of the whole listing that stands there, if
    the two tests agree on the files below the root. -/
theorem listing_below (hd : d.WellFormed) (hsearch : ∀ e ∈ s.extensions, Searchable e)
    (hlinks : s.NoLinkFits d s.root)
    (hagree : ∀ r n b, d.entry? (s.root ++ r ++ [n]) = some (.file b) →
      (s.isExcluded (.ofPath (s.root ++ r ++ [n])) = false ∧ s.Fits n ↔
        s.isDocument (.ofPath (s.root ++ r ++ [n])) = true))
    {q : List Text} {x : Entry} (hx : d.entry? (s.root ++ q) = some x) (hlink : ∀ t, x ≠ .link t) :
    ∃ l, s.listDocuments d [] = .ok l ∧ s.documentsAt d (.ofPath (s.root ++ q)) =
      .ok (l.filter (atOrBelow (Path.toText (s.root ++ q)))) := by
  cases x with
  | link t => exact absurd rfl (hlink t)
  | directory =>
    have hroot : d.entry? s.root = some .directory := by
      by_cases hq : q = []
      · rwa [hq, List.append_nil] at hx
      · exact hd.tree.entry?_of_append hx hq
    rw [Settings.listDocuments_root, Settings.documentsAt_directory hd hroot,
      Settings.documentsAt_directory hd hx]
    exact discover_below hd hsearch hlinks hroot hx
  | file b =>
    rw [Settings.documentsAt_file hd hx]
    by_cases hq : q = []
    · -- the root is a file, and the whole listing is that of the file
      rw [hq, List.append_nil] at hx ⊢
      rw [Settings.listDocuments_root, Settings.documentsAt_file hd hx]
      refine ⟨_, rfl, congrArg _ ?_⟩
      split <;> simp [atOrBelow]
    · obtain ⟨r, n, rfl⟩ : ∃ r n, q = r ++ [n] := ⟨_, _, (List.dropLast_append_getLast hq).symm⟩
      have hroot := hd.tree.entry?_of_append hx hq
      rw [← List.append_assoc] at hx ⊢
      obtain ⟨docs, hdocs, hmem⟩ := Settings.discover_eq_ok hd hroot hlinks hsearch
      have hlisting : s.listDocuments d [] = .ok (Text.sortDistinct docs) := by
        rw [Settings.listDocuments_root, Settings.documentsAt_directory hd hroot, hdocs]
      refine ⟨_, hlisting, congrArg _ ?_⟩
      refine filter_listing_of_file hd hx (Text.nodup_sortDistinct _) (fun t ht => ?_) ?_
      · obtain ⟨r', n', ⟨c, hc⟩, -, -, rfl⟩ := (hmem t).mp (Text.mem_sortDistinct.mp ht)
        exact ⟨_, c, hc, rfl⟩
      · rw [← hagree r n b hx, ← mem_listing_iff hd hsearch hlinks hx, hlisting]
        simp

/-- **When discovery and membership agree.** On a well-formed disk on which no link below the root is
    named like a document, and for extensions that can be searched for: exactly if the two tests agree on
    the name of every file below the root that no excluded directory hides. -/
theorem discoveryAgrees_iff (hd : d.WellFormed) (hsearch : ∀ e ∈ s.extensions, Searchable e)
    (hlinks : s.NoLinkFits d s.root) :
    DiscoveryAgrees s d ↔ ∀ r n b, d.entry? (s.root ++ r ++ [n]) = some (.file b) →
      s.isExcluded (.ofPath (s.root ++ r ++ [n])) = false → (s.Fits n ↔ s.Named n) := by
  constructor
  · intro h r n b hfile hexcluded
    have hagree := h.documents r n b hfile
    rw [mem_listing_iff hd hsearch hlinks hfile, Settings.isDocument_iff, name_ofPath_concat] at hagree
    simp only [hexcluded, true_and, and_true] at hagree
    exact hagree
  · intro hnames
    have hagree : ∀ r n b, d.entry? (s.root ++ r ++ [n]) = some (.file b) →
        (s.isExcluded (.ofPath (s.root ++ r ++ [n])) = false ∧ s.Fits n ↔
          s.isDocument (.ofPath (s.root ++ r ++ [n])) = true) := by
      intro r n b hfile
      rw [Settings.isDocument_iff, name_ofPath_concat, and_comm]
      exact and_congr_left fun hexcluded => hnames r n b hfile hexcluded
    constructor
    · intro r n b hfile
      exact (mem_listing_iff hd hsearch hlinks hfile).trans (hagree r n b hfile)
    · intro folder p x hfolder hx hlink hbelow
      rw [Settings.listDocuments_of_normalize hd hfolder hx hlink hbelow]
      obtain ⟨q, rfl⟩ := hbelow
      exact listing_below hd hsearch hlinks hagree hx hlink

/-- The tests of names agree on the files below the root if they do on all entries that are no
    directories. -/
theorem fits_iff_named_of_entries (h : ∀ x ∈ d.entries.toList, x.2 ≠ .directory →
      s.isExcluded (.ofPath x.1) = false →
        (s.Fits (PathName.ofPath x.1).name ↔ s.Named (PathName.ofPath x.1).name))
    (r : List Text) (n : Text) (b : List UInt8) (hb : d.entry? (s.root ++ r ++ [n]) = some (.file b))
    (hexcluded : s.isExcluded (.ofPath (s.root ++ r ++ [n])) = false) : s.Fits n ↔ s.Named n := by
  have hname := h _ ((Disk.entry?_eq_some (by simp)).mp hb) nofun hexcluded
  rwa [name_ofPath_concat] at hname

end Agreement

/-! ## A vault of notes -/

/-- A workspace of Markdown notes. -/
def vaultSettings : Settings := ⟨[['w']], [".md".toList], [".git".toList], {}, []⟩

/-- A disk with notes at two depths, a file that is no note, and one in an excluded directory. -/
def vaultDisk : Disk :=
  { Disk.ofDirectories [] [['w']] [] with
    entries := .ofList [([['w']], .directory), ([['w'], "a.md".toList], .file []),
      ([['w'], "s".toList], .directory), ([['w'], "s".toList, "b.md".toList], .file []),
      ([['w'], "s".toList, "c.txt".toList], .file []), ([['w'], ".git".toList], .directory),
      ([['w'], ".git".toList, "d.MD".toList], .file [])] }

/-- Discovery and membership agree on the notes; the file in the excluded directory does not count. -/
theorem discoveryAgrees_vault : DiscoveryAgrees vaultSettings vaultDisk := by
  have hkinds : ∀ x ∈ vaultDisk.entries.toList, x.2 = .directory ∨ x.2 = .file [] := by decide
  have hnames := fits_iff_named_of_entries (s := vaultSettings) (d := vaultDisk) (by decide +kernel)
  refine (discoveryAgrees_iff (by decide) (by decide) ?_).mpr hnames
  intro r n t ht
  have hkind := hkinds _ ((Disk.entry?_eq_some (by simp)).mp ht)
  simp at hkind

/-- A disk with a note whose name is in capital letters. -/
def capitalDisk : Disk :=
  { Disk.ofDirectories [] [['w']] [] with
    entries := .ofList [([['w']], .directory), ([['w'], "A.MD".toList], .file [])] }

/-- The note in capital letters is a document by its name, and is not listed. -/
theorem not_discoveryAgrees_capital : ¬DiscoveryAgrees vaultSettings capitalDisk := by
  intro h
  have hlist : vaultSettings.listDocuments capitalDisk [] = .ok [] := by cbv
  obtain ⟨l, hl, hmem⟩ := (h.documents [] "A.MD".toList [] (by decide)).mpr (by decide)
  rw [hlist] at hl
  obtain rfl := Except.ok.inj hl
  exact List.not_mem_nil hmem

end HashtagIndex
