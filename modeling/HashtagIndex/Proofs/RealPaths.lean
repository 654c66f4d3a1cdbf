import HashtagIndex.Proofs.MapViews
import HashtagIndex.Proofs.Outcomes
import HashtagIndex.Proofs.ValidPath
import HashtagIndex.Workspace.Scan
import Mathlib.Data.List.Infix

/-!
# `Proofs.RealPaths` — the paths of a well-formed disk

On a disk as systems keep them every entry stands in a directory, has a proper name, is not too deep to be
opened, and stands in directories that may be searched. There the path of an entry that is no link means the
same to opening and to resolving: both arrive at it (`locate?_of_entry`, `resolve_of_entry`). Listing a
directory gives the names of what stands in it, and the directories below one are those whose path goes on
from its own.

The text of a path with proper names can be read back, and standing at or below a path is a matter of
prefixes, in text as in components: a text is cut into steps at its slashes, and the steps to a place lead
to what stands at or below it (`Real.atOrBelow_iff`, `atOrBelow_toText`).

## Contents
- `IsComponent`, `ProperName`, `ProperPath`, `Openable`, `Disk.Passable`, `Disk.IsTree`, `Disk.WellFormed`.
- `look_eq_ok_some`, `isFile_eq_ok_true`, `isDirectory_eq_ok_true`: what opening finds.
- `passable_of_locate?`: what opening goes through.
- `IsTree.entry?_of_append`, `IsTree.advance_of_entry`, `IsTree.locate?_of_entry`: trees.
- `WellFormed.look_of_entry`, `WellFormed.resolve_of_entry`: well-formed disks.
- `Disk.mem_childNames`, `Disk.mem_directoriesBelow`.
- `PathName.Real`, `pathParts_toText`, `toText_inj`: the texts of paths.
- `Text.steps`, `Real.atOrBelow_iff`, `Real.steps_prefix_iff`, `atOrBelow_toText`: standing at or below.
-/

namespace HashtagIndex

/-- A name that can be a component of a path: there is something in it, it does not mean a place by itself,
    and it does not go on behind a slash. -/
def IsComponent (n : Text) : Prop := n ≠ [] ∧ n ≠ ['.'] ∧ n ≠ ['.', '.'] ∧ '/' ∉ n

instance (n : Text) : Decidable (IsComponent n) := inferInstanceAs (Decidable (_ ∧ _))

/-- A list of components. -/
def Components (p : List Text) : Prop := ∀ n ∈ p, IsComponent n

instance (p : List Text) : Decidable (Components p) := inferInstanceAs (Decidable (∀ n ∈ p, _))

theorem Components.append {p q : List Text} (hp : Components p) (hq : Components q) :
    Components (p ++ q) := List.forall_mem_append.mpr ⟨hp, hq⟩

theorem Components.dropLast {p : List Text} (hp : Components p) : Components p.dropLast :=
  fun n hn => hp n (List.dropLast_subset p hn)

/-- A name that an entry may have. -/
def ProperName (n : Text) : Prop :=
  n ≠ [] ∧ n ≠ ['.'] ∧ n ≠ ['.', '.'] ∧ '/' ∉ n ∧ '\x00' ∉ n

instance (n : Text) : Decidable (ProperName n) := inferInstanceAs (Decidable (_ ∧ _))

/-- A path all of whose components are proper names. -/
def ProperPath (p : Path) : Prop := ∀ n ∈ p, ProperName n

instance (p : Path) : Decidable (ProperPath p) := inferInstanceAs (Decidable (∀ n ∈ p, _))

theorem ProperPath.components {p : Path} (hp : ProperPath p) : Components p := by
  intro n hn
  obtain ⟨hne, hdot, hdots, hslash, -⟩ := hp n hn
  exact ⟨hne, hdot, hdots, hslash⟩

/-- Components are proper names if they hold no null character. -/
theorem Components.properPath {p : Path} (hp : Components p) (hnul : ∀ n ∈ p, '\x00' ∉ n) :
    ProperPath p := by
  intro n hn
  obtain ⟨hne, hdot, hdots, hslash⟩ := hp n hn
  exact ⟨hne, hdot, hdots, hslash, hnul n hn⟩

/-- A path that is not too long to be opened, neither in a component nor as a whole. -/
def Openable (p : Path) : Prop :=
  (∀ n ∈ p, n.octetCount ≤ mostOctets) ∧ (Path.toText p).octetCount ≤ mostPathOctets

instance (p : Path) : Decidable (Openable p) := inferInstanceAs (Decidable (_ ∧ _))

/-- A path above which every directory may be searched. -/
def Disk.Passable (d : Disk) (p : Path) : Prop := ∀ r, r <+: p → r ≠ p → d.barred r = false

instance (d : Disk) (p : Path) : Decidable (d.Passable p) :=
  decidable_of_iff (∀ r ∈ p.inits, r ≠ p → d.barred r = false)
    (forall_congr' fun r => by rw [List.mem_inits])

theorem Disk.passable_nil (d : Disk) : d.Passable [] :=
  fun _ hr hne => absurd (List.prefix_nil.mp hr) hne

/-- A disk whose entries form a tree: every entry stands in a directory, under a proper name. -/
def Disk.IsTree (d : Disk) : Prop :=
  ∀ x ∈ d.entries.toList, x.1 ≠ [] ∧ d.entry? x.1.dropLast = some .directory ∧ ProperPath x.1

instance (d : Disk) : Decidable d.IsTree := inferInstanceAs (Decidable (∀ x ∈ _, _))

/-- A disk as systems keep them: a tree, every entry of which can be opened by its path. -/
def Disk.WellFormed (d : Disk) : Prop := d.IsTree ∧ ∀ x ∈ d.entries.toList, Openable x.1 ∧ d.Passable x.1

instance (d : Disk) : Decidable d.WellFormed := inferInstanceAs (Decidable (_ ∧ _))

theorem Entry.directory_ne_link (t : Text) : Entry.directory ≠ .link t := Entry.noConfusion

theorem Entry.file_ne_link (b : List UInt8) (t : Text) : Entry.file b ≠ .link t := Entry.noConfusion

namespace Disk

variable {d : Disk} {p q : Path} {e : Entry}

theorem entry?_eq_some (hp : p ≠ []) : d.entry? p = some e ↔ (p, e) ∈ d.entries.toList := by
  unfold entry?
  rw [if_neg hp, OrderedMap.get?_eq_some_iff]

/-- Something is found exactly where opening arrives at something. -/
theorem look_eq_ok_some {parts : List Text} :
    d.look parts = .ok (some e) ↔ ∃ p, d.locate? parts = .ok p ∧ d.entry? p = some e := by
  unfold look
  rcases d.locate? parts with f | p
  · cases f <;> simp
  · simp

theorem isFile_eq_ok_true {parts : List Text} : d.isFile parts = .ok true ↔
    ∃ f b, d.locate? parts = .ok f ∧ d.entry? f = some (.file b) := by
  rw [isFile, map_eq_ok]
  constructor
  · rintro ⟨x, hx, hfile⟩
    split at hfile
    · next b =>
      obtain ⟨f, hf, hb⟩ := look_eq_ok_some.mp hx
      exact ⟨f, b, hf, hb⟩
    · cases hfile
  · rintro ⟨f, b, hf, hb⟩
    exact ⟨some (.file b), look_eq_ok_some.mpr ⟨f, hf, hb⟩, rfl⟩

theorem isDirectory_eq_ok_true {parts : List Text} : d.isDirectory parts = .ok true ↔
    ∃ p, d.locate? parts = .ok p ∧ d.entry? p = some .directory := by
  rw [isDirectory, map_eq_ok]
  constructor
  · rintro ⟨x, hx, hdir⟩
    obtain rfl := of_decide_eq_true hdir
    exact look_eq_ok_some.mp hx
  · rintro ⟨p, hp, hdir⟩
    exact ⟨some .directory, look_eq_ok_some.mpr ⟨p, hp, hdir⟩, rfl⟩

/-! ## Directories that may be searched -/

theorem Passable.dropLast (h : d.Passable p) : d.Passable p.dropLast := by
  intro r hr hne
  refine h r (hr.trans (List.dropLast_prefix p)) ?_
  rintro rfl
  exact hne (hr.eq_of_length_le (by simp))

theorem Passable.concat (h : d.Passable p) (hp : d.barred p = false) (name : Text) :
    d.Passable (p ++ [name]) := by
  intro r hr hne
  rcases List.prefix_concat_iff.mp hr with rfl | hr
  · exact absurd rfl hne
  · by_cases hrp : r = p
    · rwa [hrp]
    · exact h r hr hrp

/-- Where components were taken to. -/
def Stage.place : Stage → Path
  | .arrived p => p
  | .atLink dir _ _ => dir

/-- Taking components goes through directories that may be searched. -/
theorem passable_of_advance {place : Path} {names : List Text} {stage : Stage} (hplace : d.Passable place)
    (h : d.advance place names = .ok stage) : d.Passable stage.place := by
  induction names generalizing place with
  | nil =>
    obtain rfl := Except.ok.inj h
    exact hplace
  | cons name rest ih =>
    unfold advance at h
    split at h
    · cases h
    split at h
    · cases h
    next hbarred =>
    split at h
    · cases h
    split at h
    · exact ih hplace h
    split at h
    · exact ih hplace.dropLast h
    split at h
    · cases h
    · obtain rfl := Except.ok.inj h
      exact hplace
    · exact ih (hplace.concat (Bool.eq_false_iff.mpr hbarred) name) h

theorem passable_of_walk? {links : Nat} {place : Path} {names : List Text} (hplace : d.Passable place)
    (h : d.walk? links place names = .ok p) : d.Passable p := by
  induction links generalizing place names with
  | zero =>
    unfold walk? at h
    split at h
    · cases h
    · next hstage =>
      obtain rfl := Except.ok.inj h
      exact passable_of_advance hplace hstage
    · cases h
  | succ links ih =>
    unfold walk? at h
    split at h
    · cases h
    · next hstage =>
      obtain rfl := Except.ok.inj h
      exact passable_of_advance hplace hstage
    · next dir t rest hstage =>
      refine ih ?_ h
      unfold linkBase
      split
      · exact d.passable_nil
      · exact passable_of_advance hplace hstage

/-- **What can be opened can be passed to.** -/
theorem passable_of_locate? {parts : List Text} (h : d.locate? parts = .ok p) : d.Passable p := by
  unfold locate? at h
  split at h
  · cases h
  · exact passable_of_walk? d.passable_nil h

namespace IsTree

variable (hd : d.IsTree)
include hd

theorem properPath (he : d.entry? p = some e) : ProperPath p := by
  by_cases hp : p = []
  · subst hp
    exact fun _ h => nomatch h
  · exact (hd _ ((entry?_eq_some hp).mp he)).2.2

/-- **What stands above an entry is a directory.** -/
theorem entry?_of_append (he : d.entry? (p ++ q) = some e) (hq : q ≠ []) :
    d.entry? p = some .directory := by
  induction hn : q.length generalizing q e with
  | zero => exact absurd (List.length_eq_zero_iff.mp hn) hq
  | succ n ih =>
    have hparent := (hd _ ((entry?_eq_some (by simp [hq])).mp he)).2.1
    simp only [List.dropLast_append_of_ne_nil hq] at hparent
    by_cases hlast : q.dropLast = []
    · rwa [hlast, List.append_nil] at hparent
    · exact ih hparent hlast (by rw [List.length_dropLast, hn]; rfl)

/-- **Opening the path of an entry** goes through directories to the entry, unless a name on the way is too
    long, or a directory there may not be searched. -/
theorem advance_of_entry {names : List Text} (he : d.entry? (p ++ names) = some e)
    (hlink : ∀ t, e ≠ .link t) :
    ((∀ n ∈ names, n.octetCount ≤ mostOctets) ∧ d.advance p names = .ok (.arrived (p ++ names))) ∨
    ((¬∀ n ∈ names, n.octetCount ≤ mostOctets) ∧ d.advance p names = .error .nameTooLong) ∨
    (¬d.Passable (p ++ names) ∧ d.advance p names = .error .permissionDenied) := by
  induction names generalizing p with
  | nil => simp [advance]
  | cons name rest ih =>
    have hdir : d.entry? p = some .directory := hd.entry?_of_append he (by simp)
    have hproper : ProperName name := hd.properPath he name (by simp)
    rw [advance, if_neg (by simp [hdir])]
    cases hbarred : d.barred p with
    | true =>
      have hnot : ¬d.Passable (p ++ name :: rest) := fun h =>
        absurd (h p (List.prefix_append _ _) (by simp)) (by simp [hbarred])
      exact .inr (.inr ⟨hnot, rfl⟩)
    | false =>
      by_cases hlong : mostOctets < name.octetCount
      · have hnot : ¬∀ n ∈ name :: rest, n.octetCount ≤ mostOctets := fun h =>
          absurd (h name (by simp)) (by omega)
        exact .inr (.inl ⟨hnot, if_pos hlong⟩)
      · have hall : (∀ n ∈ name :: rest, n.octetCount ≤ mostOctets) ↔
            ∀ n ∈ rest, n.octetCount ≤ mostOctets := by
          rw [List.forall_mem_cons]
          exact and_iff_right (by omega)
        have hsplit : p ++ name :: rest = p ++ [name] ++ rest := by simp
        rw [hsplit] at he ⊢
        rw [if_neg Bool.false_ne_true, if_neg hlong, if_neg hproper.2.1, if_neg hproper.2.2.1, hall]
        -- the next place is a directory, or the entry itself
        by_cases hrest : rest = []
        · have hnext : d.entry? (p ++ [name]) = some e := by rwa [hrest, List.append_nil] at he
          rw [hnext]
          cases e with
          | link t => exact absurd rfl (hlink t)
          | directory => exact ih he
          | file b => exact ih he
        · rw [hd.entry?_of_append he hrest]
          exact ih he

theorem locate?_cases (he : d.entry? p = some e) (hlink : ∀ t, e ≠ .link t) :
    (Openable p ∧ d.locate? p = .ok p) ∨ (¬Openable p ∧ d.locate? p = .error .nameTooLong) ∨
    (¬d.Passable p ∧ d.locate? p = .error .permissionDenied) := by
  unfold locate? walk?
  by_cases hlong : mostPathOctets < (Path.toText p).octetCount
  · have hnot : ¬Openable p := fun h => absurd h.2 (by omega)
    exact .inr (.inl ⟨hnot, if_pos hlong⟩)
  · rw [if_neg hlong]
    rcases hd.advance_of_entry (p := []) he hlink with ⟨hnames, h⟩ | ⟨hnames, h⟩ | ⟨hnot, h⟩
    · rw [h]
      exact .inl ⟨⟨hnames, by omega⟩, rfl⟩
    · rw [h]
      exact .inr (.inl ⟨fun hopen => hnames hopen.1, rfl⟩)
    · rw [h]
      exact .inr (.inr ⟨hnot, rfl⟩)

/-- Where every directory above may be searched, only the length of its path keeps an entry from being
    opened. -/
theorem locate?_of_entry (he : d.entry? p = some e) (hlink : ∀ t, e ≠ .link t) (hpass : d.Passable p) :
    d.locate? p = if Openable p then .ok p else .error .nameTooLong := by
  rcases hd.locate?_cases he hlink with ⟨hopen, h⟩ | ⟨hnot, h⟩ | ⟨hnot, -⟩
  · rw [h, if_pos hopen]
  · rw [h, if_neg hnot]
  · exact absurd hpass hnot

/-- What opening the path of an entry finds, if it can be looked up. -/
theorem eq_of_look (he : d.entry? p = some e) (hlink : ∀ t, e ≠ .link t) {x : Option Entry}
    (h : d.look p = .ok x) : x = some e := by
  unfold look at h
  rcases hd.locate?_cases he hlink with ⟨-, hlocate⟩ | ⟨-, hlocate⟩ | ⟨-, hlocate⟩
  · rw [hlocate] at h
    exact (Except.ok.inj h).symm.trans he
  · rw [hlocate] at h
    cases h
  · rw [hlocate] at h
    cases h

end IsTree

namespace WellFormed

variable (hd : d.WellFormed)
include hd

theorem tree : d.IsTree := hd.1

theorem openable (he : d.entry? p = some e) : Openable p ∧ d.Passable p := by
  by_cases hp : p = []
  · subst hp
    exact ⟨by decide, d.passable_nil⟩
  · exact hd.2 _ ((entry?_eq_some hp).mp he)

theorem locate?_of_entry (he : d.entry? p = some e) (hlink : ∀ t, e ≠ .link t) :
    d.locate? p = .ok p := by
  obtain ⟨hopen, hpass⟩ := hd.openable he
  rw [hd.tree.locate?_of_entry he hlink hpass, if_pos hopen]

theorem look_of_entry (he : d.entry? p = some e) (hlink : ∀ t, e ≠ .link t) :
    d.look p = .ok (some e) := by
  rw [look, hd.locate?_of_entry he hlink, ← he]

theorem followAll_of_entry (enter : MetLinks → Path → List Text → MetLinks × Resolution)
    (met : MetLinks) {names : List Text} (he : d.entry? (p ++ names) = some e)
    (hlink : ∀ t, e ≠ .link t) :
    d.followAll enter met p names = (met, .settled (p ++ names)) := by
  induction names generalizing p with
  | nil => rw [followAll, List.append_nil]
  | cons name rest ih =>
    have hproper : ProperName name := hd.tree.properPath he name (by simp)
    have hsplit : p ++ name :: rest = p ++ [name] ++ rest := by simp
    rw [hsplit] at he ⊢
    rw [followAll, if_neg (not_or.mpr ⟨hproper.1, hproper.2.1⟩), if_neg hproper.2.2.1]
    have hnolink : ∀ t, d.entry? (p ++ [name]) ≠ some (.link t) := by
      intro t ht
      cases hrest : rest with
      | nil =>
        subst hrest
        rw [List.append_nil, ht] at he
        exact hlink t (Option.some.inj he).symm
      | cons m ms =>
        have hnext := hd.tree.entry?_of_append he (by simp [hrest])
        rw [ht] at hnext
        cases hnext
    simp only
    exact ih he

/-- **Resolving the path of an entry that is no link leads to it.** -/
theorem resolve_of_entry (he : d.entry? p = some e) (hlink : ∀ t, e ≠ .link t) :
    d.resolve p = .ok (.ofPath p) := by
  have hnul : p.any (·.contains '\x00') = false := by
    rw [List.any_eq_false]
    intro n hn
    simpa using (hd.tree.properPath he n hn).2.2.2.2
  have hsettle : d.settle p = .settled p := by
    rw [settle, follow, hd.followAll_of_entry (p := []) _ _ he hlink]
    rfl
  rw [resolve, hnul, hsettle]
  rfl

end WellFormed

/-! ## Listing -/

theorem mem_childNames {n : Text} : n ∈ d.childNames p ↔ ∃ e, d.entry? (p ++ [n]) = some e := by
  have hne : p ++ [n] ≠ [] := by simp
  simp only [childNames, List.mem_filterMap, entry?, if_neg hne, ← OrderedMap.mem_keys_iff]
  constructor
  · rintro ⟨k, hk, hn⟩
    split at hn
    · next hp =>
      have hsplit := List.dropLast_append_getLast? n hn
      rw [hp] at hsplit
      rwa [hsplit]
    · cases hn
  · intro hk
    refine ⟨_, hk, ?_⟩
    simp

theorem mem_directoriesBelow {r : List Text} :
    r ∈ d.directoriesBelow p ↔ r = [] ∨ r ≠ [] ∧ d.entry? (p ++ r) = some .directory := by
  rw [directoriesBelow, List.mem_cons]
  refine or_congr_right ?_
  simp only [List.mem_filterMap]
  constructor
  · rintro ⟨x, hx, hr⟩
    split at hr
    · next h =>
      obtain ⟨hdir, hprefix, hne⟩ := h
      obtain ⟨r', hr'⟩ := List.isPrefixOf_iff_prefix.mp hprefix
      rw [← hr', List.drop_left] at hr
      obtain rfl := Option.some.inj hr
      have hr'ne : r' ≠ [] := by
        rintro rfl
        rw [List.append_nil] at hr'
        exact hne hr'.symm
      refine ⟨hr'ne, (entry?_eq_some (by simp [hr'ne])).mpr ?_⟩
      rw [hr', ← hdir]
      exact hx
    · cases hr
  · rintro ⟨hr, hdir⟩
    refine ⟨_, (entry?_eq_some (by simp [hr])).mp hdir, ?_⟩
    have hne : p ++ r ≠ p := by simpa using hr
    simp [hne]

end Disk

/-! ## The texts of paths -/

theorem joinSegments_append {p q : Path} (hp : p ≠ []) (hq : q ≠ []) :
    joinSegments (p ++ q) = joinSegments p ++ '/' :: joinSegments q := by
  induction p with
  | nil => exact absurd rfl hp
  | cons s p ih =>
    cases p with
    | nil =>
      obtain ⟨t, q, rfl⟩ := List.exists_cons_of_ne_nil hq
      rw [List.singleton_append, joinSegments_cons_cons]
      simp [joinSegments]
    | cons u p =>
      rw [List.cons_append, List.cons_append, joinSegments_cons_cons, ← List.cons_append,
        ih (by simp), joinSegments_cons_cons]
      simp

theorem splitOn_slash (t : Text) : ('/' :: t).splitOn '/' = [] :: t.splitOn '/' := by
  rw [List.splitOn_cons_eq_if_modifyHead]
  simp

theorem pathParts_slash (t : Text) : pathParts ('/' :: t) = pathParts t := by
  rw [pathParts, splitOn_slash, List.filter_cons_of_neg (by simp), pathParts]

/-- **Components can be read back from a text that joins them.** -/
theorem pathParts_joinSegments {p : List Text} (hp : Components p) : pathParts (joinSegments p) = p := by
  have hkeep : p.filter (fun n => n ≠ [] ∧ n ≠ ['.']) = p := by
    rw [List.filter_eq_self]
    intro n hn
    simpa using ⟨(hp n hn).1, (hp n hn).2.1⟩
  rw [pathParts]
  by_cases hne : p = []
  · subst hne
    simp [joinSegments]
  · rw [joinSegments, List.splitOn_intercalate '/' (fun n hn => (hp n hn).2.2.2) hne, hkeep]

theorem takeWhile_joinSegments {p : List Text} (hp : Components p) :
    (joinSegments p).takeWhile (· = '/') = [] := by
  cases p with
  | nil => simp [joinSegments]
  | cons n p =>
    obtain ⟨c, n, rfl⟩ := List.exists_cons_of_ne_nil (hp n (by simp)).1
    have hc : c ≠ '/' := fun h => (hp (c :: n) (by simp)).2.2.2 (by simp [h])
    cases p with
    | nil => simp [joinSegments, hc]
    | cons m p => simp [joinSegments_cons_cons, hc]

/-- The name of a real place: anchored, and without parts that mean a place by themselves. -/
structure PathName.Real (n : PathName) : Prop where
  anchored : n.anchor = ['/'] ∨ n.anchor = ['/', '/']
  components : Components n.parts

instance (n : PathName) : Decidable n.Real :=
  decidable_of_iff ((n.anchor = ['/'] ∨ n.anchor = ['/', '/']) ∧ Components n.parts)
    ⟨fun ⟨hanchored, hparts⟩ => ⟨hanchored, hparts⟩, fun h => ⟨h.anchored, h.components⟩⟩

theorem PathName.Real.anchor_ne_nil {n : PathName} (hn : n.Real) : n.anchor ≠ [] := by
  rcases hn.anchored with h | h <;> simp [h]

theorem PathName.Real.isAbsolute {n : PathName} (hn : n.Real) : n.isAbsolute = true :=
  decide_eq_true hn.anchor_ne_nil

theorem PathName.Real.toText_eq {n : PathName} (hn : n.Real) : n.toText = n.anchor ++ joinSegments n.parts := by
  rw [PathName.toText, if_neg fun h => hn.anchor_ne_nil h.1]

theorem PathName.Real.toText_ne_nil {n : PathName} (hn : n.Real) : n.toText ≠ [] := by
  rw [hn.toText_eq]
  exact List.append_ne_nil_of_left_ne_nil hn.anchor_ne_nil _

/-- **The name of a real place is read back from its text.** -/
theorem PathName.Real.ofText_toText {n : PathName} (hn : n.Real) : PathName.ofText n.toText = n := by
  obtain ⟨anchor, parts⟩ := n
  obtain ⟨hanchored, hparts⟩ := hn
  have hslashes := takeWhile_joinSegments hparts
  have hread := pathParts_joinSegments hparts
  rcases hanchored with h | h
  · obtain rfl : anchor = ['/'] := h
    show PathName.ofText ('/' :: joinSegments parts) = _
    rw [PathName.ofText, pathParts_slash, hread, List.takeWhile_cons_of_pos (by simp), hslashes]
    rfl
  · obtain rfl : anchor = ['/', '/'] := h
    show PathName.ofText ('/' :: '/' :: joinSegments parts) = _
    rw [PathName.ofText, pathParts_slash, pathParts_slash, hread, List.takeWhile_cons_of_pos (by simp),
      List.takeWhile_cons_of_pos (by simp), hslashes]
    rfl

theorem PathName.real_ofPath {p : Path} (hp : Components p) : (PathName.ofPath p).Real := ⟨.inl rfl, hp⟩

theorem pathParts_toText {p : Path} (hp : ProperPath p) : pathParts (Path.toText p) = p := by
  rw [Path.toText, pathParts_slash, pathParts_joinSegments hp.components]

/-- The name of a path is read back from its text. -/
theorem ofText_toText {p : Path} (hp : ProperPath p) :
    PathName.ofText (Path.toText p) = .ofPath p :=
  (PathName.real_ofPath hp.components).ofText_toText

theorem toText_inj {p q : Path} (hp : ProperPath p) (hq : ProperPath q)
    (h : Path.toText p = Path.toText q) : p = q := by
  rw [← pathParts_toText hp, h, pathParts_toText hq]

theorem mem_joinSegments {p : List Text} {n : Text} (hn : n ∈ p) {c : Char} (hc : c ∈ n) :
    c ∈ joinSegments p := by
  induction p with
  | nil => exact absurd hn List.not_mem_nil
  | cons m p ih =>
    cases p with
    | nil =>
      obtain rfl := List.mem_singleton.mp hn
      simpa [joinSegments] using hc
    | cons m' p =>
      rw [joinSegments_cons_cons]
      rcases List.mem_cons.mp hn with rfl | hn
      · exact List.mem_append_left _ hc
      · exact List.mem_append_right _ (List.mem_cons_of_mem _ (ih hn))

/-- A character of a joined text is a slash or stands in one of the parts. -/
theorem exists_of_mem_joinSegments {p : List Text} {c : Char} (hc : c ∈ joinSegments p) :
    c = '/' ∨ ∃ n ∈ p, c ∈ n := by
  induction p with
  | nil => exact absurd hc List.not_mem_nil
  | cons n p ih =>
    cases p with
    | nil => exact .inr ⟨n, List.mem_cons_self, by simpa [joinSegments] using hc⟩
    | cons m p =>
      rw [joinSegments_cons_cons, List.mem_append, List.mem_cons] at hc
      rcases hc with hc | rfl | hc
      · exact .inr ⟨n, List.mem_cons_self, hc⟩
      · exact .inl rfl
      · rcases ih hc with hslash | ⟨u, hu, hcu⟩
        · exact .inl hslash
        · exact .inr ⟨u, List.mem_cons_of_mem _ hu, hcu⟩

/-- Components that are joined do not end with a slash. -/
theorem getLast?_joinSegments {p : List Text} (hp : Components p) (hne : p ≠ []) :
    (joinSegments p).getLast? ≠ some '/' := by
  obtain ⟨q, n, rfl⟩ : ∃ q n, p = q ++ [n] := ⟨_, _, (List.dropLast_append_getLast hne).symm⟩
  obtain ⟨hn, -, -, hslash⟩ := hp n (by simp)
  obtain ⟨front, hfront⟩ : ∃ front, joinSegments (q ++ [n]) = front ++ n := by
    by_cases hq : q = []
    · subst hq
      exact ⟨[], by simp [joinSegments]⟩
    · exact ⟨joinSegments q ++ ['/'], by rw [joinSegments_append hq (by simp)]; simp [joinSegments]⟩
  rw [hfront, List.getLast?_append_of_ne_nil _ hn]
  exact fun h => hslash (List.mem_of_getLast? h)

/-- A text goes on behind another one and a slash exactly if it splits into more of the same. -/
theorem splitOn_prefix_iff {t u : Text} :
    t.splitOn '/' <+: u.splitOn '/' ↔ u = t ∨ t ++ ['/'] <+: u := by
  constructor
  · rintro ⟨r, hr⟩
    have hu : joinSegments (t.splitOn '/' ++ r) = u := by rw [hr, joinSegments_splitOn]
    by_cases hnil : r = []
    · left
      rw [← hu, hnil, List.append_nil, joinSegments_splitOn]
    · right
      refine ⟨joinSegments r, ?_⟩
      rw [← hu, joinSegments_append (List.splitOn_ne_nil '/' t) hnil, joinSegments_splitOn]
      simp
  · rintro (rfl | ⟨r, rfl⟩)
    · exact List.prefix_rfl
    · refine ⟨r.splitOn '/', ?_⟩
      rw [List.append_assoc, List.singleton_append, List.splitOn_append_cons_self]

/-! ## Standing at or below -/

/-- The steps of a text: what stands between its slashes. The empty text has none. -/
def Text.steps (t : Text) : List Text := if t = [] then [] else t.splitOn '/'

/-- The steps to a real place: an empty one in front of each slash of the anchor, and the parts. The root is
    reached in front of the first slash. -/
def PathName.steps (n : PathName) : List Text :=
  if n.parts = [] then [[]] else n.anchor.map (fun _ => []) ++ n.parts

/-- The text of a real place takes the steps to it; behind the slashes of a root comes one more, which is
    empty. -/
theorem PathName.Real.steps_toText {n : PathName} (hn : n.Real) : Text.steps n.toText =
    n.anchor.map (fun _ => []) ++ if n.parts = [] then [[]] else n.parts := by
  obtain ⟨anchor, parts⟩ := n
  obtain ⟨hanchored, hparts⟩ := hn
  have hjoined : (joinSegments parts).splitOn '/' = if parts = [] then [[]] else parts := by
    by_cases hne : parts = []
    · rw [if_pos hne, hne]
      rfl
    · rw [if_neg hne, joinSegments, List.splitOn_intercalate '/' (fun n hn => (hparts n hn).2.2.2) hne]
  rcases hanchored with h | h
  · obtain rfl : anchor = ['/'] := h
    show Text.steps ('/' :: joinSegments parts) = _
    rw [Text.steps, if_neg (List.cons_ne_nil _ _), splitOn_slash, hjoined]
    rfl
  · obtain rfl : anchor = ['/', '/'] := h
    show Text.steps ('/' :: '/' :: joinSegments parts) = _
    rw [Text.steps, if_neg (List.cons_ne_nil _ _), splitOn_slash, splitOn_slash, hjoined]
    rfl

/-- **Standing at or below a real place** is taking the steps to it, for any text whatsoever. -/
theorem PathName.Real.atOrBelow_iff {n : PathName} (hn : n.Real) {k : Text} :
    atOrBelow n.toText k = true ↔ n.steps <+: Text.steps k := by
  rw [atOrBelow, Bool.or_eq_true, beq_iff_eq, List.isPrefixOf_iff_prefix]
  by_cases hparts : n.parts = []
  · -- nothing but slashes, which are all trimmed: what counts is the first step
    have hroot : n.toText = ['/'] ∨ n.toText = ['/', '/'] := by
      rw [hn.toText_eq, hparts, joinSegments, List.intercalate_nil, List.append_nil]
      exact hn.anchored
    have htrim : (n.toText.reverse.dropWhile (· = '/')).reverse = [] := by
      rcases hroot with h | h <;> rw [h] <;> rfl
    have hfirst : n.steps <+: Text.steps k ↔ ['/'] <+: k := by
      rw [PathName.steps, if_pos hparts, Text.steps]
      cases k with
      | nil => simp
      | cons c k =>
        rw [if_neg (List.cons_ne_nil _ _), List.splitOn_cons_eq_if_modifyHead]
        obtain ⟨m, ms, hsplit⟩ := List.exists_cons_of_ne_nil (List.splitOn_ne_nil '/' k)
        by_cases hc : c = '/'
        · simp [hc]
        · simp [hc, hsplit, Ne.symm hc]
    rw [htrim, List.nil_append, hfirst]
    refine ⟨?_, .inr⟩
    rintro (rfl | hslash)
    · rcases hroot with h | h
      · exact ⟨[], h.symm⟩
      · exact ⟨['/'], h.symm⟩
    · exact hslash
  · -- there is no slash to be trimmed
    have htrim : (n.toText.reverse.dropWhile (· = '/')).reverse = n.toText := by
      have hjoined : joinSegments n.parts ≠ [] := by
        intro hnil
        have hread := pathParts_joinSegments hn.components
        rw [hnil] at hread
        exact hparts hread.symm
      have hlast : n.toText.getLast? ≠ some '/' := by
        rw [hn.toText_eq, List.getLast?_append_of_ne_nil _ hjoined]
        exact getLast?_joinSegments hn.components hparts
      rw [← List.head?_reverse] at hlast
      cases hr : n.toText.reverse with
      | nil => rw [List.reverse_eq_nil_iff.mp hr]; rfl
      | cons c r =>
        rw [hr] at hlast
        rw [List.dropWhile_cons_of_neg (by simpa using hlast), ← hr, List.reverse_reverse]
    have hsteps : n.steps = n.toText.splitOn '/' := by
      have htext := hn.steps_toText
      rw [Text.steps, if_neg, if_neg hparts] at htext
      · rw [htext, PathName.steps, if_neg hparts]
      · exact hn.toText_ne_nil
    rw [htrim, hsteps, Text.steps]
    by_cases hk : k = []
    · -- the empty text is below nothing
      rw [if_pos hk, hk, List.prefix_nil, List.prefix_nil]
      simp [hn.toText_ne_nil.symm, List.splitOn_ne_nil]
    · rw [if_neg hk, splitOn_prefix_iff]

/-- Among real places the steps lead from one to those whose parts go on from its own, behind the same
    anchor. A root leads everywhere. -/
theorem PathName.Real.steps_prefix_iff {n m : PathName} (hn : n.Real) (hm : m.Real) :
    n.steps <+: Text.steps m.toText ↔ n.parts = [] ∨ n.anchor = m.anchor ∧ n.parts <+: m.parts := by
  rw [hm.steps_toText, PathName.steps]
  by_cases hparts : n.parts = []
  · rw [if_pos hparts]
    rcases hm.anchored with h | h <;> simp [h, hparts]
  · rw [if_neg hparts]
    obtain ⟨s, rest, hs⟩ := List.exists_cons_of_ne_nil hparts
    have hsome : s ≠ [] := (hn.components s (by simp [hs])).1
    have hbehind : n.parts <+: (if m.parts = [] then [[]] else m.parts) ↔ n.parts <+: m.parts := by
      by_cases hroot : m.parts = []
      · simp [hroot, hs, hsome]
      · rw [if_neg hroot]
    have hnever : ¬[] :: n.parts <+: if m.parts = [] then [[]] else m.parts := by
      by_cases hroot : m.parts = []
      · simp [hroot, hs]
      · obtain ⟨u, more, hu⟩ := List.exists_cons_of_ne_nil hroot
        have hthere : u ≠ [] := (hm.components u (by simp [hu])).1
        simp [hu, hthere.symm]
    -- where the anchors differ, an empty step meets a part
    rcases hn.anchored with h | h <;> rcases hm.anchored with h' | h'
    · simp [h, h', hparts, hbehind]
    · simp [h, h', hs, hsome]
    · simp [h, h', hparts, hnever]
    · simp [h, h', hparts, hbehind]

/-- **Standing at or below a path** is having it as a beginning. -/
theorem atOrBelow_toText {p q : Path} (hp : ProperPath p) (hq : ProperPath q) :
    atOrBelow (Path.toText p) (Path.toText q) = true ↔ p <+: q := by
  have hreal := PathName.real_ofPath hp.components
  have hreal' := PathName.real_ofPath hq.components
  show atOrBelow (PathName.ofPath p).toText (PathName.ofPath q).toText = true ↔ p <+: q
  rw [hreal.atOrBelow_iff, hreal.steps_prefix_iff hreal']
  constructor
  · rintro (rfl | ⟨-, hprefix⟩)
    · exact List.nil_prefix
    · exact hprefix
  · intro hprefix
    exact .inr ⟨rfl, hprefix⟩

end HashtagIndex
