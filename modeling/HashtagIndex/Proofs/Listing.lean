import HashtagIndex.Proofs.Configuring
import HashtagIndex.Proofs.Discovery
import HashtagIndex.Proofs.Scanning

/-!
# `Proofs.Listing` — each document of a workspace once, in order

On any disk whose entries form a tree, links and loops of links among them, the listing of a workspace is strictly
increasing and says exactly what it should: the resolved names of the entries beneath the root that are files or
lead to files, end in one of the extensions, and stand in no excluded directory (`lists_documents`). Entries that
several extensions find, and files that several entries lead to, are listed once. A scan of the workspace then
stores the documents that can be read, whatever the index held before.

Entries beneath the root are reached by their names behind that of the root. Opening such a name goes on from where
opening the root arrives (`walk?_append`), through directories, and so fails only because the name is too long or a
directory may not be searched (`IsTree.locate?_of_look`). What it arrives at is what resolving settles at.

Two workspaces are left aside. Where the root is a file, the listing holds the root, if it is a document. Where the
root, or an entry that is named like a document, cannot be looked up, because a name on the way is too long or a
directory there may not be searched, there is no listing.

## Contents
- `Wildcard.fits_endPattern_iff`: an extension without wildcards fits what ends in it.
- `advance_append`, `walk?_append`, `IsTree.eq_of_locate?_append`, `IsTree.locate?_of_look`: opening further.
- `exists_keepDocuments`, `exists_file_of_mem_discover`: what is kept.
- `Settings.Finds`, `Settings.Lookable`, `mem_search_iff`, `exists_discover`: what is found.
- `ExactListing`, `lists_documents`, and a workspace with links.
-/

namespace HashtagIndex

/-! ## Extensions without wildcards -/

theorem isPattern_cons {c : Char} {e : Text} :
    isPattern (c :: e) = false ↔ (c ≠ '*' ∧ c ≠ '?' ∧ c ≠ '[') ∧ isPattern e = false := by
  simp [isPattern, and_assoc]

theorem hasDoubleStar_of_isPattern {e : Text} (he : isPattern e = false) : hasDoubleStar e = false := by
  induction e with
  | nil => rfl
  | cons c e ih =>
    obtain ⟨⟨hstar, -, -⟩, he⟩ := isPattern_cons.mp he
    rw [hasDoubleStar]
    · exact ih he
    · exact fun r hc => absurd hc hstar

namespace Wildcard

theorem ofText_of_isPattern {e : Text} (he : isPattern e = false) : Wildcard.ofText e = e.map .char := by
  induction e with
  | nil => rw [Wildcard.ofText, List.map_nil]
  | cons c e ih =>
    obtain ⟨⟨hstar, hany, hlist⟩, he⟩ := isPattern_cons.mp he
    rw [Wildcard.ofText]
    · rw [if_neg hlist, ih he, List.map_cons]
    · exact hstar
    · exact hany

/-- Characters fit themselves. -/
theorem fits_chars {e n : Text} : fits (e.map .char) n = true ↔ n = e := by
  induction e generalizing n with
  | nil => rw [List.map_nil, fits_nil, List.isEmpty_iff]
  | cons c e ih =>
    cases n with
    | nil => simp [fits_cons_nil]
    | cons c' n =>
      have hchar : Piece.char c ≠ .star := Piece.noConfusion
      rw [List.map_cons, fits_cons_cons hchar, Bool.and_eq_true, ih]
      show (c == c') = true ∧ n = e ↔ _
      rw [beq_iff_eq, List.cons.injEq, eq_comm]

/-- A star fits whatever stands in front of what the rest fits. -/
theorem fits_star {ps : Wildcard} {n : Text} : fits (.star :: ps) n = true ↔ ∃ u, u <:+ n ∧ fits ps u = true := by
  induction n with
  | nil => simp [fits_cons_nil]
  | cons c n ih =>
    rw [fits_star_cons, Bool.or_eq_true, ih]
    constructor
    · rintro (h | ⟨u, hu, h⟩)
      · exact ⟨_, List.suffix_rfl, h⟩
      · exact ⟨u, hu.trans (List.suffix_cons c n), h⟩
    · rintro ⟨u, hu, h⟩
      rcases List.suffix_cons_iff.mp hu with rfl | hu
      · exact .inl h
      · exact .inr ⟨u, hu, h⟩

/-- **An extension without wildcards fits the names that end in it.** -/
theorem fits_endPattern_iff {e n : Text} (he : isPattern e = false) :
    fits (endPattern e) n = true ↔ e <:+ n := by
  have hpattern : endPattern e = .star :: e.map .char := by
    rw [endPattern, Wildcard.ofText, ofText_of_isPattern he]
  rw [hpattern, fits_star]
  constructor
  · rintro ⟨u, hu, h⟩
    rwa [← fits_chars.mp h]
  · exact fun h => ⟨e, h, fits_chars.mpr rfl⟩

end Wildcard

/-! ## Opening further -/

theorem octetCount_cons (c : Char) (t : Text) : Text.octetCount (c :: t) = c.utf8Size + t.octetCount := by
  have hfold : ∀ n : Nat, t.foldl (fun n c => n + c.utf8Size) n = n + t.octetCount := by
    unfold Text.octetCount
    induction t with
    | nil => exact fun n => rfl
    | cons c t ih =>
      intro n
      rw [List.foldl_cons, List.foldl_cons, ih, ih (0 + c.utf8Size)]
      omega
  rw [Text.octetCount, List.foldl_cons, hfold, Nat.zero_add]

theorem octetCount_append (t u : Text) : Text.octetCount (t ++ u) = t.octetCount + u.octetCount := by
  induction t with
  | nil =>
    rw [List.nil_append]
    exact (Nat.zero_add _).symm
  | cons c t ih => rw [List.cons_append, octetCount_cons, octetCount_cons, ih, Nat.add_assoc]

/-- A path is no longer than one that goes on from it. -/
theorem octetCount_toText_le (p r : Path) : (Path.toText p).octetCount ≤ (Path.toText (p ++ r)).octetCount := by
  by_cases hp : p = []
  · subst hp
    rw [List.nil_append, Path.toText, Path.toText, octetCount_cons, octetCount_cons]
    exact Nat.add_le_add_left (Nat.zero_le _) _
  · by_cases hr : r = []
    · rw [hr, List.append_nil]
    · rw [Path.toText, Path.toText, joinSegments_append hp hr, octetCount_cons, octetCount_cons, octetCount_append]
      omega

namespace Disk

variable {d : Disk} {place p q : Path} {names rest r : List Text} {base : List Text} {n : Text}

/-- Taking further components goes on from where the first ones lead. -/
theorem advance_append : d.advance place (names ++ rest) =
    match d.advance place names with
    | .error e => .error e
    | .ok (.arrived q) => d.advance q rest
    | .ok (.atLink dir t behind) => .ok (.atLink dir t (behind ++ rest)) := by
  induction names generalizing place with
  | nil => rfl
  | cons name names ih =>
    rw [List.cons_append, advance, advance]
    split
    · rfl
    split
    · rfl
    split
    · rfl
    split
    · exact ih
    split
    · exact ih
    split
    · rfl
    · rfl
    · exact ih

/-- **Opening a name that goes on** goes on from where the name leads, with the links that are left. -/
theorem walk?_append {links : Nat} (h : d.walk? links place names = .ok q) :
    ∃ left, ∀ rest, d.walk? links place (names ++ rest) = d.walk? left q rest := by
  induction links generalizing place names with
  | zero =>
    unfold walk? at h
    split at h
    · cases h
    · next q' hstage =>
      obtain rfl := Except.ok.inj h
      refine ⟨0, fun rest => ?_⟩
      rw [walk?, advance_append, hstage, walk?]
    · cases h
  | succ links ih =>
    unfold walk? at h
    split at h
    · cases h
    · next q' hstage =>
      obtain rfl := Except.ok.inj h
      refine ⟨links + 1, fun rest => ?_⟩
      rw [walk?, advance_append, hstage, walk?]
    · next dir t behind hstage =>
      obtain ⟨left, hleft⟩ := ih h
      refine ⟨left, fun rest => ?_⟩
      rw [walk?, advance_append, hstage, ← hleft]
      simp only [List.append_assoc]

namespace IsTree

variable (hd : d.IsTree)
include hd

/-- **Names behind one that can be opened** lead through directories to what stands there, or nowhere else. -/
theorem eq_of_locate?_append (hbase : d.locate? base = .ok p) {e : Entry} (he : d.entry? (p ++ r) = some e)
    (hlink : ∀ t, e ≠ .link t) (h : d.locate? (base ++ r) = .ok q) : q = p ++ r := by
  obtain ⟨⟨n, hlead⟩, -⟩ := hd.leads_of_locate? hbase
  obtain ⟨⟨m, hlead'⟩, -⟩ := hd.leads_of_locate? h
  have hr : Components r := fun n hn => (hd.properPath he).components n (List.mem_append_right _ hn)
  exact (hlead'.unique (hlead.append ((hd.direct he hlink).leads hr))).2

/-- Where a name can be looked up, the directory in front of its end can be opened: otherwise a name on the way would
    be too long, or a directory there would not be open to a search. -/
theorem locate?_of_look (hbase : d.locate? base = .ok p) (hdir : d.entry? (p ++ r) = some .directory)
    {x : Option Entry} (hlook : d.look (base ++ r ++ [n]) = .ok x) : d.locate? (base ++ r) = .ok (p ++ r) := by
  have hwhole : (Path.toText (base ++ r ++ [n])).octetCount ≤ mostPathOctets := by
    by_contra hlong
    rw [look, locate?, if_pos (by omega)] at hlook
    cases hlook
  unfold locate? at hbase
  split at hbase
  · cases hbase
  obtain ⟨left, hleft⟩ := walk?_append hbase
  have hlooked : d.locate? (base ++ r ++ [n]) = d.walk? left p (r ++ [n]) := by
    rw [locate?, if_neg (by omega), List.append_assoc, hleft]
  rw [locate?, if_neg (Nat.not_lt.mpr (le_trans (octetCount_toText_le _ _) hwhole)), hleft]
  rw [walk?, advance_append] at hlooked
  rw [walk?]
  rcases hd.advance_of_entry hdir Entry.directory_ne_link with ⟨-, h⟩ | ⟨-, h⟩ | ⟨-, h⟩
  · rw [h]
  · rw [look, hlooked, h] at hlook
    cases hlook
  · rw [look, hlooked, h] at hlook
    cases hlook

end IsTree

/-- What opening finds is no link. -/
theorem IsTree.ne_link_of_look (hd : d.IsTree) {parts : List Text} {e : Entry} (h : d.look parts = .ok (some e))
    (t : Text) : e ≠ .link t := by
  obtain ⟨p, hp, he⟩ := look_eq_ok_some.mp h
  obtain ⟨⟨n, hlead⟩, -⟩ := hd.leads_of_locate? hp
  rintro rfl
  exact hlead.direct direct_nil p List.prefix_rfl t he

theorem exists_isFile {parts : List Text} {x : Option Entry} (h : d.look parts = .ok x) :
    ∃ file, d.isFile parts = .ok file := by
  rw [isFile, h]
  exact ⟨_, rfl⟩

end Disk

namespace Settings

variable {s : Settings} {d : Disk}

/-! ## What is kept -/

/-- Places that can be looked up can be kept: a file that can be opened can be resolved. -/
theorem exists_keepDocuments (hd : d.IsTree) {found : List (List Text)}
    (hfound : ∀ q ∈ found, ∃ x, d.look q = .ok x) : ∃ docs, s.keepDocuments d found = .ok docs := by
  refine exists_keepDocuments_iff.mpr fun q hq => ?_
  obtain ⟨x, hx⟩ := hfound q hq
  obtain ⟨file, hfile⟩ := Disk.exists_isFile hx
  refine ⟨file, hfile, ?_⟩
  rintro rfl -
  obtain ⟨f, b, hf, -⟩ := Disk.isFile_eq_ok_true.mp hfile
  exact ⟨_, hd.resolve_of_locate? hf⟩

/-- A document that discovery answers is a file, and is named by its own path. -/
theorem exists_file_of_mem_discover (hd : d.IsTree) {base : Path} {docs : List Text}
    (h : s.discover d base = .ok docs) {t : Text} (ht : t ∈ docs) :
    ∃ f b, d.entry? f = some (.file b) ∧ t = Path.toText f := by
  obtain ⟨e, -, places, -, q, -, hfile, name, hname, rfl⟩ := found_of_mem_discover h ht
  obtain ⟨f, b, hf, hb⟩ := Disk.isFile_eq_ok_true.mp hfile
  rw [hd.resolve_of_locate? hf] at hname
  obtain rfl := Except.ok.inj hname
  exact ⟨f, b, hb, rfl⟩

/-! ## What is found -/

/-- An entry beneath the root of the workspace: something stands in a directory that `r` leads to from where
    opening the root arrives, under the name `n`. No link is on the way, because what stands above an entry is a
    directory. -/
def Beneath (s : Settings) (d : Disk) (r : List Text) (n : Text) : Prop :=
  ∃ top e, d.locate? s.root = .ok top ∧ d.entry? (top ++ r ++ [n]) = some e

/-- A document of the workspace: an entry beneath the root that is a file or leads to one, whose name ends in one of
    the extensions, and which stands in no excluded directory. -/
structure Finds (s : Settings) (d : Disk) (r : List Text) (n : Text) : Prop where
  beneath : s.Beneath d r n
  file : d.isFile (s.root ++ r ++ [n]) = .ok true
  named : ∃ e ∈ s.extensions, e <:+ n
  included : ∀ m ∈ r, m ∉ s.excluded

/-- A workspace that can be looked up: neither its root nor an entry that is named like a document is out of
    reach. -/
structure Lookable (s : Settings) (d : Disk) : Prop where
  root : ∃ x, d.look s.root = .ok x
  entries : ∀ r n, s.Beneath d r n → (∃ e ∈ s.extensions, e <:+ n) → ∃ x, d.look (s.root ++ r ++ [n]) = .ok x

theorem isExcluded_below (r : List Text) (n : Text) :
    s.isExcluded (.ofPath (s.root ++ r ++ [n])) = false ↔ ∀ m ∈ r, m ∉ s.excluded := by
  have hbelow : (PathName.ofPath (s.root ++ r ++ [n])).below? s.root = some (r ++ [n]) := by
    have hprefix : s.root.isPrefixOf (s.root ++ r ++ [n]) = true :=
      List.isPrefixOf_iff_prefix.mpr ⟨r ++ [n], by simp⟩
    rw [PathName.below?, PathName.ofPath, if_pos ⟨rfl, hprefix⟩, List.append_assoc, List.drop_left]
  rw [isExcluded, hbelow, Option.getD_some, List.dropLast_concat, List.any_eq_false]
  simp

/-- **What the search for an extension finds beneath the root**: the entries whose names end in it. -/
theorem mem_search_iff (hd : d.IsTree) (hlookable : s.Lookable d) {e : Text} (he : e ∈ s.extensions)
    (hplain : isPattern e = false) {top : Path} (htop : d.locate? s.root = .ok top)
    (hdir : d.entry? top = some .directory) {q : List Text} :
    (q ∈ (d.chainsFrom s.root).flatMap fun place =>
        ((d.namesIn place).filter (endPattern e).fits).map fun n => place ++ [n]) ↔
      ∃ r n, q = s.root ++ r ++ [n] ∧ s.Beneath d r n ∧ e <:+ n := by
  have hchains : d.chainsFrom s.root = (d.directoriesBelow top).map (s.root ++ ·) := by
    rw [Disk.chainsFrom, htop]
  simp only [hchains, List.mem_flatMap, List.mem_map, List.mem_filter]
  constructor
  · rintro ⟨_, ⟨r, hr, rfl⟩, n, ⟨hn, hfits⟩, rfl⟩
    have hreal : d.entry? (top ++ r) = some .directory := by
      rcases Disk.mem_directoriesBelow.mp hr with rfl | ⟨-, hr⟩
      · rwa [List.append_nil]
      · exact hr
    refine ⟨r, n, rfl, ?_, (Wildcard.fits_endPattern_iff hplain).mp hfits⟩
    unfold Disk.namesIn at hn
    split at hn
    · exact absurd hn List.not_mem_nil
    · next p hp =>
      rw [hd.eq_of_locate?_append htop hreal Entry.directory_ne_link hp] at hn
      obtain ⟨entry, hentry⟩ := Disk.mem_childNames.mp hn
      exact ⟨top, entry, htop, hentry⟩
  · rintro ⟨r, n, rfl, hbeneath, hends⟩
    obtain ⟨x, hx⟩ := hlookable.entries r n hbeneath ⟨e, he, hends⟩
    obtain ⟨top', entry, htop', hentry⟩ := hbeneath
    obtain rfl := Except.ok.inj (htop.symm.trans htop')
    have hreal : d.entry? (top ++ r) = some .directory := hd.entry?_of_append hentry (by simp)
    refine ⟨s.root ++ r, ⟨r, Disk.mem_directoriesBelow.mpr ?_, rfl⟩, n, ⟨?_, ?_⟩, rfl⟩
    · by_cases hr : r = []
      · exact .inl hr
      · exact .inr ⟨hr, hreal⟩
    · rw [Disk.namesIn, hd.locate?_of_look htop hreal hx]
      exact Disk.mem_childNames.mpr ⟨entry, hentry⟩
    · exact (Wildcard.fits_endPattern_iff hplain).mpr hends

/-- What is found for one extension. -/
theorem exists_discoverOne (hd : d.IsTree) (hlookable : s.Lookable d) {e : Text} (he : e ∈ s.extensions)
    (hsearch : Searchable e) (hplain : isPattern e = false) (hroot : d.isDirectory s.root = .ok true) :
    ∃ docs, s.discoverOne d s.root e = .ok docs ∧ ∀ t, t ∈ docs ↔ ∃ r n, (s.Beneath d r n ∧ e <:+ n) ∧
      d.isFile (s.root ++ r ++ [n]) = .ok true ∧ (∀ m ∈ r, m ∉ s.excluded) ∧
      ∃ name, d.resolve (s.root ++ r ++ [n]) = .ok name ∧ t = name.toText := by
  obtain ⟨top, htop, hdir⟩ := Disk.isDirectory_eq_ok_true.mp hroot
  have hfound := fun q => mem_search_iff hd hlookable he hplain htop hdir (q := q)
  obtain ⟨docs, hdocs⟩ := exists_keepDocuments (s := s) hd fun q hq => by
    obtain ⟨r, n, rfl, hbeneath, hends⟩ := (hfound q).mp hq
    exact hlookable.entries r n hbeneath ⟨e, he, hends⟩
  refine ⟨docs, bind_eq_ok.mpr ⟨_, d.search_eq_ok hroot hsearch, hdocs⟩, fun t => ?_⟩
  rw [mem_keepDocuments_iff hdocs]
  constructor
  · rintro ⟨q, hq, hfile, hexcluded, hname⟩
    obtain ⟨r, n, rfl, hbeneath, hends⟩ := (hfound q).mp hq
    exact ⟨r, n, ⟨hbeneath, hends⟩, hfile, (isExcluded_below r n).mp hexcluded, hname⟩
  · rintro ⟨r, n, ⟨hbeneath, hends⟩, hfile, hincluded, hname⟩
    exact ⟨_, (hfound _).mpr ⟨r, n, rfl, hbeneath, hends⟩, hfile, (isExcluded_below r n).mpr hincluded, hname⟩

/-- **What discovery finds beneath the root**: the documents of the workspace, by their resolved names. -/
theorem exists_discover (hd : d.IsTree) (hlookable : s.Lookable d) (hsearch : ∀ e ∈ s.extensions, Searchable e)
    (hplain : ∀ e ∈ s.extensions, isPattern e = false) (hroot : d.isDirectory s.root = .ok true) :
    ∃ docs, s.discover d s.root = .ok (Text.sortDistinct docs) ∧ ∀ t, t ∈ docs ↔
      ∃ r n name, s.Finds d r n ∧ d.resolve (s.root ++ r ++ [n]) = .ok name ∧ t = name.toText := by
  obtain ⟨docs, hdocs, hmem⟩ := discover_of_discoverOne fun e he =>
    exists_discoverOne hd hlookable he (hsearch e he) (hplain e he) hroot
  refine ⟨docs, hdocs, fun t => ?_⟩
  rw [hmem]
  constructor
  · rintro ⟨e, he, r, n, ⟨hbeneath, hends⟩, hfile, hincluded, name, hname, rfl⟩
    exact ⟨r, n, name, ⟨hbeneath, hfile, ⟨e, he, hends⟩, hincluded⟩, hname, rfl⟩
  · rintro ⟨r, n, name, hfinds, hname, rfl⟩
    obtain ⟨e, he, hends⟩ := hfinds.named
    exact ⟨e, he, r, n, ⟨hfinds.beneath, hends⟩, hfinds.file, hfinds.included, name, hname, rfl⟩

/-- Where the root is no directory, nothing stands beneath it. -/
theorem isDirectory_root_of_beneath (hd : d.IsTree) {r : List Text} {n : Text} (h : s.Beneath d r n) :
    d.isDirectory s.root = .ok true := by
  obtain ⟨top, e, htop, he⟩ := h
  rw [List.append_assoc] at he
  exact Disk.isDirectory_eq_ok_true.mpr ⟨top, htop, hd.entry?_of_append he (by simp)⟩

end Settings

/-! ## The listing of a workspace -/

section Listing

variable {s : Settings} {d : Disk}

/-- A listing and what a scan of the workspace makes of it. If the root is no file, the listing is strictly
    increasing (`increasing`) and holds the resolved names of the documents of the workspace, and nothing else
    (`mem_iff`). If it is a file, the listing holds the root if it is a document (`file`). A scan stores the documents
    that can be read, as they are, and nothing else, whatever was indexed before (`scanned`). -/
structure ExactListing (s : Settings) (d : Disk) (l : List Text) : Prop where
  increasing : d.isFile s.root = .ok false → l.Pairwise fun t u => t.le u = true ∧ t ≠ u
  mem_iff : d.isFile s.root = .ok false → ∀ t, t ∈ l ↔
    ∃ r n name, s.Finds d r n ∧ d.resolve (s.root ++ r ++ [n]) = .ok name ∧ t = name.toText
  file : d.isFile s.root = .ok true →
    l = if s.isDocument (.ofPath s.root) then [Path.toText s.root] else []
  scanned : ∀ changed old ix, ∃ full, s.scan d .workspace changed old ix = (full, .ok ()) ∧ ∀ k r,
    full.get? k = some r ↔ k ∈ l ∧ ∃ text, d.readDocument k = .ok text ∧ r = ⟨k, parseTags text k⟩

/-- What the listing of a workspace holds, whether its root is a file or not. -/
theorem exists_listDocuments (hd : d.IsTree) (hlookable : s.Lookable d)
    (hsearch : ∀ e ∈ s.extensions, Searchable e) (hplain : ∀ e ∈ s.extensions, isPattern e = false) :
    ∃ l, s.listDocuments d [] = .ok l ∧
      (d.isFile s.root = .ok false → (l.Pairwise fun t u => t.le u = true ∧ t ≠ u) ∧ ∀ t, t ∈ l ↔
        ∃ r n name, s.Finds d r n ∧ d.resolve (s.root ++ r ++ [n]) = .ok name ∧ t = name.toText) ∧
      (d.isFile s.root = .ok true →
        l = if s.isDocument (.ofPath s.root) then [Path.toText s.root] else []) := by
  obtain ⟨x, hx⟩ := hlookable.root
  have hexists : d.exists? (PathName.ofPath s.root).parts = .ok x.isSome := by
    rw [Disk.exists?, PathName.ofPath, hx]
    rfl
  -- what opening finds at the root is nothing, a directory or a file
  cases x with
  | none =>
    have hfile : d.isFile s.root = .ok false := by rw [Disk.isFile, hx]; rfl
    refine ⟨[], ?_, fun _ => ⟨.nil, fun t => ?_⟩, fun h => ?_⟩
    · rw [Settings.listDocuments_root, Settings.documentsAt, hexists, PathName.ofPath, hfile]
      rfl
    · refine ⟨fun ht => absurd ht List.not_mem_nil, ?_⟩
      rintro ⟨r, n, name, hfinds, -⟩
      have hroot := Settings.isDirectory_root_of_beneath hd hfinds.beneath
      rw [Disk.isDirectory, hx] at hroot
      cases hroot
    · rw [hfile] at h
      cases h
  | some e =>
    cases e with
    | link t => exact absurd rfl (hd.ne_link_of_look hx t)
    | file b =>
      have hfile : d.isFile s.root = .ok true := by rw [Disk.isFile, hx]; rfl
      refine ⟨_, ?_, fun h => ?_, fun _ => rfl⟩
      · rw [Settings.listDocuments_root, Settings.documentsAt, hexists, PathName.ofPath, hfile]
        rfl
      · rw [hfile] at h
        cases h
    | directory =>
      have hfile : d.isFile s.root = .ok false := by rw [Disk.isFile, hx]; rfl
      have hroot : d.isDirectory s.root = .ok true := by rw [Disk.isDirectory, hx]; rfl
      obtain ⟨docs, hdocs, hmem⟩ := Settings.exists_discover hd hlookable hsearch hplain hroot
      refine ⟨Text.sortDistinct docs, ?_, fun _ => ⟨?_, fun t => ?_⟩, fun h => ?_⟩
      · rw [Settings.listDocuments_root, Settings.documentsAt, hexists, PathName.ofPath, hfile]
        exact hdocs
      · exact (Text.pairwise_sortDistinct docs).and (Text.nodup_sortDistinct docs)
      · rw [Text.mem_sortDistinct, hmem]
      · rw [hfile] at h
        cases h

/-- The names of listed documents hold no null character. -/
theorem nul_not_mem_of_listDocuments (hd : d.IsTree) {l : List Text} (h : s.listDocuments d [] = .ok l) {t : Text}
    (ht : t ∈ l) : '\x00' ∉ t := by
  rw [Settings.listDocuments_root] at h
  rcases Settings.file_or_discover_of_mem_documentsAt h ht with ⟨hfile, rfl⟩ | h
  · -- the root can be opened
    obtain ⟨f, b, hf, -⟩ := Disk.isFile_eq_ok_true.mp hfile
    exact noNul_slash (noNul_joinSegments (hd.leads_of_locate? hf).2)
  · obtain ⟨f, b, hb, rfl⟩ := Settings.exists_file_of_mem_discover hd h ht
    exact noNul_slash (noNul_joinSegments fun n hn => (hd.properPath hb n hn).2.2.2.2)

/-- **Each document of a workspace is listed once, in order**, and a scan stores those that can be read. -/
theorem lists_documents {d₀ : Disk} {asName : Bool} {args : Json}
    (hs : Settings.ofArguments d₀ asName args = .ok s)
    (hplain : ∀ e ∈ s.extensions, isPattern e = false ∧ '/' ∉ e) (hd : d.IsTree) (hlookable : s.Lookable d) :
    ∃ l, s.listDocuments d [] = .ok l ∧ ExactListing s d l := by
  have hnormal := Settings.normal_of_ofArguments hs
  have hsearch : ∀ e ∈ s.extensions, Searchable e := fun e he =>
    ⟨(hnormal.dotted e he).dot, (hplain e he).2, hasDoubleStar_of_isPattern (hplain e he).1⟩
  obtain ⟨l, hl, hdirectory, hfile⟩ := exists_listDocuments hd hlookable hsearch fun e he => (hplain e he).1
  refine ⟨l, hl, fun h => (hdirectory h).1, fun h => (hdirectory h).2, hfile, fun changed old ix => ?_⟩
  have hnul : ∀ t ∈ l, '\x00' ∉ t := fun t => nul_not_mem_of_listDocuments hd hl
  have hfull := Settings.fullIndex_eq_ok.mpr ⟨l, hl, hnul, rfl⟩
  refine ⟨_, by rw [Settings.scan, hfull], fun k r => ?_⟩
  rw [Settings.get?_fullIndex hfull hl, ← recordOf_eq_some]
  by_cases hk : k ∈ l
  · simp [hk]
  · simp [hk]

end Listing

/-! ## A workspace with links -/

/-- A workspace can be looked up if its root leads to itself and every entry of the disk can be looked up. -/
theorem lookable_of_entries {s : Settings} {d : Disk} (hroot : d.locate? s.root = .ok s.root)
    (h : ∀ x ∈ d.entries.toList, (d.look x.1).isOk = true) : s.Lookable d := by
  refine ⟨⟨_, by rw [Disk.look, hroot]⟩, ?_⟩
  rintro r n ⟨top, e, htop, he⟩ -
  obtain rfl := Except.ok.inj (hroot.symm.trans htop)
  have hok := h _ ((Disk.entry?_eq_some (by simp)).mp he)
  simp only at hok
  cases hlook : d.look (s.root ++ r ++ [n]) with
  | error f =>
    rw [hlook] at hok
    cases hok
  | ok x => exact ⟨x, rfl⟩

/-- A disk with a note that two extensions fit and a link leads to, a note in a hidden directory, one in an excluded
    directory, a link to a directory, and a link that leads to itself. -/
def tangledDisk : Disk :=
  { Disk.ofDirectories [] [] "/".toList with
    entries := .ofList [(["w".toList], .directory),
      (["w".toList, "n.b.md".toList], .file (encodeUtf8 "#n".toList)), (["w".toList, "s".toList], .directory),
      (["w".toList, "s".toList, "l.md".toList], .link "../n.b.md".toList), (["w".toList, ".h".toList], .directory),
      (["w".toList, ".h".toList, "c.md".toList], .file []), (["w".toList, ".git".toList], .directory),
      (["w".toList, ".git".toList, "x.md".toList], .file []), (["w".toList, "d.md".toList], .link "s".toList),
      (["w".toList, "o.md".toList], .link "o.md".toList)] }

/-- The arguments for a workspace of notes, some of which have a longer extension. -/
def tangledArguments (root : String) : Json :=
  .obj [("workspace_root", .str root), ("file_extensions", .str "md,.B.md")]

/-- The settings that the arguments stand for. -/
def tangledSettings (root : Path) : Settings :=
  ⟨root, [".md".toList, ".b.md".toList], [".git".toList, "node_modules".toList], {}, "INFO".toList⟩

/-- The two notes are listed once each, and a scan stores them in place of what was indexed before. -/
theorem tangled_listed : ∃ l, (tangledSettings ["w".toList]).listDocuments tangledDisk [] = .ok l ∧
    l = ["/w/.h/c.md".toList, "/w/n.b.md".toList] ∧ ExactListing (tangledSettings ["w".toList]) tangledDisk l := by
  have hs : Settings.ofArguments tangledDisk true (tangledArguments "w") = .ok (tangledSettings ["w".toList]) := by
    cbv
  have hroot : tangledDisk.locate? (tangledSettings ["w".toList]).root = .ok ["w".toList] := by cbv
  have hlookable := lookable_of_entries hroot (by decide +kernel)
  obtain ⟨l, hl, hlists⟩ := lists_documents hs (by decide) (by decide) hlookable
  have hlisting : (tangledSettings ["w".toList]).listDocuments tangledDisk [] =
      .ok ["/w/.h/c.md".toList, "/w/n.b.md".toList] := by cbv
  exact ⟨l, hl, Except.ok.inj (hl.symm.trans hlisting), hlists⟩

/-- A listing that holds what stands beneath the root, whatever the root is. -/
def ListsBeneath (s : Settings) (d : Disk) : Prop := ∃ l, s.listDocuments d [] = .ok l ∧
  ∀ t, t ∈ l ↔ ∃ r n name, s.Finds d r n ∧ d.resolve (s.root ++ r ++ [n]) = .ok name ∧ t = name.toText

/-- A disk with a note, and a link to a name that is too long. -/
def remoteDisk : Disk :=
  { Disk.ofDirectories [] [] "/".toList with
    entries := .ofList [(["w".toList], .directory), (["w".toList, "a.md".toList], .file []),
      (["w".toList, "x.md".toList], .link (List.replicate 300 'a'))] }

set_option maxRecDepth 4000 in
/-- **A root that is a file is listed**, although nothing stands beneath it, and where a link is named like a document
    and leads to a name that is too long, there is no listing. -/
theorem not_listsBeneath :
    (Settings.ofArguments remoteDisk true (tangledArguments "w/a.md") =
        .ok (tangledSettings ["w".toList, "a.md".toList]) ∧
      ¬ListsBeneath (tangledSettings ["w".toList, "a.md".toList]) remoteDisk) ∧
    Settings.ofArguments remoteDisk true (tangledArguments "w") = .ok (tangledSettings ["w".toList]) ∧
      ¬ListsBeneath (tangledSettings ["w".toList]) remoteDisk := by
  have htree : remoteDisk.IsTree := by decide
  refine ⟨⟨by cbv, ?_⟩, by cbv, ?_⟩
  · rintro ⟨l, hl, hmem⟩
    have hlisting : (tangledSettings ["w".toList, "a.md".toList]).listDocuments remoteDisk [] =
        .ok ["/w/a.md".toList] := by cbv
    obtain rfl := Except.ok.inj (hl.symm.trans hlisting)
    obtain ⟨r, n, name, hfinds, -⟩ := (hmem "/w/a.md".toList).mp List.mem_cons_self
    have hroot := Settings.isDirectory_root_of_beneath htree hfinds.beneath
    have hfile : remoteDisk.isDirectory ["w".toList, "a.md".toList] = .ok false := by cbv
    cases hroot.symm.trans hfile
  · rintro ⟨l, hl, -⟩
    have hlisting : ∃ f, (tangledSettings ["w".toList]).listDocuments remoteDisk [] = .error f := ⟨_, by cbv⟩
    obtain ⟨f, hf⟩ := hlisting
    cases hl.symm.trans hf

end HashtagIndex
