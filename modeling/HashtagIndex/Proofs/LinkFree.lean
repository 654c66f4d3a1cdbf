import HashtagIndex.Proofs.Layout
import HashtagIndex.Proofs.Resolving

/-!
# `Proofs.LinkFree` — disks without links

Without links a written path means one thing, whatever stands on the disk: resolving folds its dots and
arrives at a path of proper names (`canonical_eq_ok`), and opening that path arrives there or nowhere
(`LinkFree.locate?_eq_ok`). So what opening finds is what the disk has at the path itself.

## Contents
- `Disk.LinkFree`.
- `LinkFree.resolve_eq_ok`, `LinkFree.canonical_eq_ok`: resolving.
- `LinkFree.locate?_eq_ok`, `LinkFree.look_eq_ok`: opening.
- `SameLayout.isTree`, `SameLayout.linkFree`: these properties are properties of the layout.
-/

namespace HashtagIndex

/-- Whether an entry is a link. -/
def Entry.isLink : Entry → Bool
  | .link _ => true
  | _ => false

theorem Entry.isLink_emptied (e : Entry) : e.emptied.isLink = e.isLink := by
  cases e <;> rfl

/-- A disk without links. -/
def Disk.LinkFree (d : Disk) : Prop := ∀ x ∈ d.entries.toList, x.2.isLink = false

instance (d : Disk) : Decidable d.LinkFree := inferInstanceAs (Decidable (∀ x ∈ _, _))

namespace Disk

variable {d : Disk}

namespace LinkFree

variable (hd : d.LinkFree)
include hd

theorem entry?_ne_link (p : Path) (t : Text) : d.entry? p ≠ some (.link t) := by
  intro h
  by_cases hp : p = []
  · subst hp
    cases h
  · cases hd _ ((entry?_eq_some hp).mp h)

/-! ## Resolving -/

/-- Resolving goes through all components and ends at proper names. -/
theorem followAll_eq (enter : MetLinks → Path → List Text → MetLinks × Resolution) (met : MetLinks)
    {place : Path} {names : List Text} (hplace : ProperPath place)
    (hnames : ∀ n ∈ names, '/' ∉ n ∧ '\x00' ∉ n) :
    ∃ p, d.followAll enter met place names = (met, .settled p) ∧ ProperPath p := by
  induction names generalizing place with
  | nil => exact ⟨place, rfl, hplace⟩
  | cons name rest ih =>
    obtain ⟨⟨hslash, hnul⟩, hrest⟩ := List.forall_mem_cons.mp hnames
    rw [followAll]
    -- a name that means nothing, two dots, or a name that leads on
    split
    · exact ih hplace hrest
    · next hempty =>
      rw [not_or] at hempty
      split
      · exact ih (fun n hn => hplace n (List.dropLast_subset _ hn)) hrest
      · next hdots =>
        have hnext : ProperPath (place ++ [name]) := by
          intro n hn
          rcases List.mem_append.mp hn with hn | hn
          · exact hplace n hn
          · rw [List.mem_singleton.mp hn]
            exact ⟨hempty.1, hempty.2, hdots, hslash, hnul⟩
        simp only
        split
        · next hlink => exact absurd hlink (hd.entry?_ne_link _ _)
        · exact ih hnext hrest

/-- **Resolving** comes out at a path of proper names. -/
theorem resolve_eq_ok {parts : List Text} {name : PathName} (h : d.resolve parts = .ok name)
    (hparts : ∀ n ∈ parts, '/' ∉ n) : ∃ p, name = .ofPath p ∧ ProperPath p := by
  -- null characters were refused before
  have hnames : ∀ n ∈ parts, '/' ∉ n ∧ '\x00' ∉ n := fun n hn =>
    ⟨hparts n hn, nul_not_mem_of_resolve h n hn⟩
  have hroot : ProperPath [] := by decide
  obtain ⟨p, hp, hproper⟩ :=
    hd.followAll_eq (d.follow (d.entries.size + 1)) .empty hroot hnames
  have hsettle : d.settle parts = .settled p := by
    rw [settle, follow, hp]
  rw [eq_of_resolve h, hsettle]
  exact ⟨p, rfl, hproper⟩

/-- A written path that can be resolved, relative ones starting at a real path, leads to a path of proper
    names. -/
theorem canonical_eq_ok {base : Path} (hbase : ProperPath base) {written : Text} {name : PathName}
    (h : d.canonical base written = .ok name) : ∃ p, name = .ofPath p ∧ ProperPath p := by
  obtain ⟨parts, hparts, hresolve⟩ := exists_resolve_of_canonical (fun n hn => (hbase n hn).2.2.2.1) h
  exact hd.resolve_eq_ok hresolve hparts

/-! ## Opening -/

theorem advance_eq_ok {place : Path} {names : List Text} {stage : Stage} (hnames : ProperPath names)
    (h : d.advance place names = .ok stage) : stage = .arrived (place ++ names) := by
  induction names generalizing place with
  | nil =>
    rw [advance] at h
    rw [List.append_nil]
    exact (Except.ok.inj h).symm
  | cons name rest ih =>
    obtain ⟨hname, hrest⟩ := List.forall_mem_cons.mp hnames
    rw [advance] at h
    split at h
    · cases h
    split at h
    · cases h
    split at h
    · cases h
    rw [if_neg hname.2.1, if_neg hname.2.2.1] at h
    split at h
    · cases h
    · next hlink => exact absurd hlink (hd.entry?_ne_link _ _)
    · rw [ih hrest h]
      simp

/-- **Opening a path of proper names** arrives there or nowhere. -/
theorem locate?_eq_ok {p q : Path} (hp : ProperPath p) (h : d.locate? p = .ok q) : q = p := by
  unfold locate? at h
  split at h
  · cases h
  · unfold walk? at h
    cases hadvance : d.advance [] p with
    | error e =>
      rw [hadvance] at h
      cases h
    | ok stage =>
      obtain rfl := hd.advance_eq_ok hp hadvance
      rw [hadvance] at h
      exact (Except.ok.inj h).symm

/-- What opening finds stands at the path itself. -/
theorem look_eq_ok {p : Path} (hp : ProperPath p) {e : Entry} (h : d.look p = .ok (some e)) :
    d.entry? p = some e := by
  obtain ⟨q, hq, he⟩ := look_eq_ok_some.mp h
  rwa [hd.locate?_eq_ok hp hq] at he

end LinkFree

end Disk

/-! ## Disks with one layout -/

namespace SameLayout

variable {d d' : Disk} (h : SameLayout d d')
include h

theorem entry?_directory_iff (p : Path) :
    d'.entry? p = some .directory ↔ d.entry? p = some .directory := by
  rw [← d'.entry?_layout_eq_directory, h, d.entry?_layout_eq_directory]

/-- Files stand at the same paths. -/
theorem file_iff (p : Path) :
    (∃ b, d'.entry? p = some (.file b)) ↔ ∃ b, d.entry? p = some (.file b) := by
  rw [← d'.entry?_layout_eq_file, h, d.entry?_layout_eq_file]

/-- Where something stands on one disk, something of its kind stands on the other. -/
theorem exists_mem {x : Path × Entry} (hx : x ∈ d'.entries.toList) :
    ∃ y ∈ d.entries.toList, y.1 = x.1 ∧ y.2.emptied = x.2.emptied := by
  have hentries : d'.entries.mapValues Entry.emptied = d.entries.mapValues Entry.emptied :=
    congrArg Disk.entries h
  have hmem : (x.1, x.2.emptied) ∈ (d.entries.mapValues Entry.emptied).toList := by
    rw [← hentries]
    exact List.mem_map.mpr ⟨x, hx, rfl⟩
  obtain ⟨y, hy, heq⟩ := List.mem_map.mp hmem
  exact ⟨y, hy, Prod.ext_iff.mp heq⟩

theorem isTree (hd : d.IsTree) : d'.IsTree := by
  intro x hx
  obtain ⟨y, hy, hkey, -⟩ := h.exists_mem hx
  obtain ⟨hne, hparent, hproper⟩ := hd y hy
  rw [hkey] at hne hparent hproper
  exact ⟨hne, (h.entry?_directory_iff _).mpr hparent, hproper⟩

theorem linkFree (hd : d.LinkFree) : d'.LinkFree := by
  intro x hx
  obtain ⟨y, hy, -, hkind⟩ := h.exists_mem hx
  rw [← Entry.isLink_emptied, ← hkind, Entry.isLink_emptied]
  exact hd y hy

end SameLayout

end HashtagIndex
