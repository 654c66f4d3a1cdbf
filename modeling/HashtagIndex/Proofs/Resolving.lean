import HashtagIndex.Proofs.Outcomes
import HashtagIndex.Proofs.RealPaths
import HashtagIndex.Workspace.Configuration

/-!
# `Proofs.Resolving` — resolving comes out at the name of a real place

Whatever links a disk has, and wherever a loop of them stops the resolution, what resolving answers is
anchored, and its parts are components: no empty part, no dots and no slash is left in it
(`real_of_resolve`, `real_of_canonical`). So its text can be read back, and standing at or below a path is
a matter of components.

The parts between a link and what its target leads to are taken by a resolution of their own. What carries
over from one to the other is where the links met so far lead. This is said once, for whatever names, places
and texts a resolution may keep to (`Keeps.follow`); components are one case (`keeps_components`).

## Contents
- `not_mem_of_mem_splitOn`, `slash_not_mem_of_mem_pathParts`, `components_foldDots`: parts of written paths.
- `Keeps`, `Keeps.followAll`, `Keeps.follow`: what a resolution keeps to.
- `Resolution.Sound`, `MetSound`, `follow_sound`: components.
- `real_of_resolve`, `real_of_canonical`: its result.
- `ofArguments_eq_ok`, `exists_canonical_of_ofArguments`, `components_root_of_ofArguments`: accepted settings and
  their root.
-/

namespace HashtagIndex

/-! ## Parts of written paths -/

/-- No part of a text that is cut at a character holds it. -/
theorem not_mem_of_mem_splitOn {sep : Char} {t n : Text} (hn : n ∈ t.splitOn sep) : sep ∉ n := by
  induction t generalizing n with
  | nil =>
    rw [List.splitOn_nil, List.mem_singleton] at hn
    rw [hn]
    exact List.not_mem_nil
  | cons c t ih =>
    rw [List.splitOn_cons_eq_if_modifyHead] at hn
    -- a separator opens a new part, any other character is put in front of the first one
    by_cases hc : c = sep
    · rw [if_pos (by simpa using hc)] at hn
      rcases List.mem_cons.mp hn with rfl | hn
      · exact List.not_mem_nil
      · exact ih hn
    · rw [if_neg (by simpa using hc)] at hn
      obtain ⟨m, ms, hsplit⟩ := List.exists_cons_of_ne_nil (List.splitOn_ne_nil sep t)
      rw [hsplit] at hn ih
      rcases List.mem_cons.mp hn with rfl | hn
      · have hm := ih (List.mem_cons_self)
        rw [List.mem_cons, not_or]
        exact ⟨Ne.symm hc, hm⟩
      · exact ih (List.mem_cons_of_mem _ hn)

theorem slash_not_mem_of_mem_splitOn {t n : Text} (hn : n ∈ t.splitOn '/') : '/' ∉ n :=
  not_mem_of_mem_splitOn hn

theorem slash_not_mem_of_mem_pathParts {t n : Text} (hn : n ∈ pathParts t) : '/' ∉ n :=
  slash_not_mem_of_mem_splitOn (List.mem_of_mem_filter hn)

/-- **Two dots go away** when they are applied to what stands in front of them. -/
theorem components_foldDots {parts : List Text}
    (hparts : ∀ n ∈ parts, n ≠ [] ∧ n ≠ ['.'] ∧ '/' ∉ n) : Components (foldDots parts) := by
  suffices h : ∀ p : Path, Components p →
      Components (parts.foldl (fun p n => if n = ['.', '.'] then p.dropLast else p ++ [n]) p) from
    h [] (List.forall_mem_nil _)
  induction parts with
  | nil => exact fun p hp => hp
  | cons n rest ih =>
    intro p hp
    obtain ⟨⟨hne, hdot, hslash⟩, hrest⟩ := List.forall_mem_cons.mp hparts
    rw [List.foldl_cons]
    apply ih hrest
    split
    · exact hp.dropLast
    · next hdots => exact hp.append (List.forall_mem_singleton.mpr ⟨hne, hdot, hdots, hslash⟩)

theorem head?_joinNames {front : Text} (hfront : front.head? = some '/') (back : Text) :
    (joinNames front back).head? = some '/' := by
  obtain ⟨t, rfl⟩ := List.head?_eq_some_iff.mp hfront
  unfold joinNames
  split
  · assumption
  · split <;> rfl

/-- What is written behind a slash names a real place, once its dots are folded. -/
theorem real_of_head? {written : Text} (h : written.head? = some '/') :
    PathName.Real { PathName.ofText written with parts := foldDots (PathName.ofText written).parts } := by
  obtain ⟨t, rfl⟩ := List.head?_eq_some_iff.mp h
  refine ⟨?_, components_foldDots fun n hn => ?_⟩
  · have hslashes : (('/' :: t).takeWhile (· = '/')).length ≠ 0 := by simp
    unfold PathName.ofText
    simp only [if_neg hslashes]
    split
    · exact .inr rfl
    · exact .inl rfl
  · have hkept := List.of_mem_filter hn
    simp only [decide_eq_true_eq] at hkept
    exact ⟨hkept.1, hkept.2, slash_not_mem_of_mem_pathParts hn⟩

namespace Disk

variable {d : Disk}

/-! ## The resolution -/

/-- What taking components keeps, whatever links are met: names may be written as they please (`Name`), and
    lead to places (`Place`); where a loop stops them, a text is left (`Written`). -/
structure Keeps (d : Disk) (Name : Text → Prop) (Place : Path → Prop) (Written : Text → Prop) : Prop where
  root : Place []
  up : ∀ p, Place p → Place p.dropLast
  down : ∀ p n, Place p → Name n → n ≠ [] → n ≠ ['.'] → n ≠ ['.', '.'] → Place (p ++ [n])
  target : ∀ p t, d.entry? p = some (.link t) → ∀ n ∈ t.splitOn '/', Name n
  stopped : ∀ p names, Place p → (∀ n ∈ names, Name n) →
    Written (joinNames (Path.toText p) (joinSegments names))
  further : ∀ w names, Written w → (∀ n ∈ names, Name n) → Written (joinNames w (joinSegments names))

section Keeping

variable {Name : Text → Prop} {Place : Path → Prop} {Written : Text → Prop}

/-- A resolution that came out at a place, or was stopped with a text, as they should be. -/
def Resolution.Within (Place : Path → Prop) (Written : Text → Prop) : Resolution → Prop
  | .settled p => Place p
  | .looping written => Written written

/-- Links that lead to such places, as far as it is known where they lead. -/
def MetWithin (Place : Path → Prop) (met : MetLinks) : Prop := ∀ k p, met.get? k = some (some p) → Place p

theorem MetWithin.insert {met : MetLinks} (h : MetWithin Place met) {k : Path} {p? : Option Path}
    (hp : ∀ p, p? = some p → Place p) : MetWithin Place (met.insert k p?) := by
  intro j p hj
  rw [OrderedMap.get?_insert] at hj
  split at hj
  · exact hp p (Option.some.inj hj)
  · exact h j p hj

/-- A way of taking components that keeps to such names, places and texts. -/
def StepWithin (Name : Text → Prop) (Place : Path → Prop) (Written : Text → Prop)
    (step : MetLinks → Path → List Text → MetLinks × Resolution) : Prop :=
  ∀ met place names, MetWithin Place met → Place place → (∀ n ∈ names, Name n) →
    MetWithin Place (step met place names).1 ∧ (step met place names).2.Within Place Written

/-- **Taking components** keeps what is kept if entering links does. -/
theorem Keeps.followAll (h : Keeps d Name Place Written)
    {enter : MetLinks → Path → List Text → MetLinks × Resolution}
    (henter : StepWithin Name Place Written enter) :
    StepWithin Name Place Written (d.followAll enter) := by
  intro met place names hmet hplace hnames
  induction names generalizing met place with
  | nil => exact ⟨hmet, hplace⟩
  | cons name rest ih =>
    obtain ⟨hname, hrest⟩ := List.forall_mem_cons.mp hnames
    rw [Disk.followAll]
    split
    · exact ih _ _ hmet hplace hrest
    · next hempty =>
      rw [not_or] at hempty
      split
      · exact ih _ _ hmet (h.up _ hplace) hrest
      · next hdots =>
        have hnext : Place (place ++ [name]) := h.down _ _ hplace hname hempty.1 hempty.2 hdots
        simp only
        split
        · next target hlink =>
          -- a link that was met before, one that is still being resolved, or a new one
          split
          · next p hp => exact ih _ _ hmet (hmet _ _ hp) hrest
          · exact ⟨hmet, h.stopped _ _ hnext hrest⟩
          · have hbase : Place (linkBase place target) := by
              unfold linkBase
              split
              · exact h.root
              · exact hplace
            have hmet₁ : MetWithin Place (met.insert (place ++ [name]) none) := hmet.insert nofun
            obtain ⟨hmet', hwithin⟩ := henter _ _ _ hmet₁ hbase (h.target _ _ hlink)
            split
            · next met' written heq =>
              rw [heq] at hmet' hwithin
              exact ⟨hmet', h.further _ _ hwithin hrest⟩
            · next met' p heq =>
              rw [heq] at hmet' hwithin
              exact ih _ _ (hmet'.insert fun q hq => Option.some.inj hq ▸ hwithin) hwithin hrest
        · exact ih _ _ hmet hnext hrest

/-- Resolving keeps what is kept, however deep links stand inside one another. -/
theorem Keeps.follow (h : Keeps d Name Place Written) (depth : Nat) :
    StepWithin Name Place Written (d.follow depth) := by
  induction depth with
  | zero => exact fun met place names hmet hplace hnames => ⟨hmet, h.stopped _ _ hplace hnames⟩
  | succ depth ih => exact h.followAll ih

theorem Keeps.settle (h : Keeps d Name Place Written) {parts : List Text} (hparts : ∀ n ∈ parts, Name n) :
    (d.settle parts).Within Place Written :=
  (h.follow _ .empty [] parts nofun h.root hparts).2

end Keeping

/-- Names without slashes lead to components, and where a loop stops them, to a text behind a slash. -/
theorem keeps_components : Keeps d (fun n => '/' ∉ n) Components (·.head? = some '/') where
  root := List.forall_mem_nil _
  up _ hp := hp.dropLast
  down _ _ hp hslash hne hdot hdots := hp.append (List.forall_mem_singleton.mpr ⟨hne, hdot, hdots, hslash⟩)
  target _ _ _ _ hn := slash_not_mem_of_mem_splitOn hn
  stopped _ _ _ _ := head?_joinNames rfl _
  further _ _ hw _ := head?_joinNames hw _

/-- A resolution that names a real place. -/
def Resolution.Sound (r : Resolution) : Prop := r.Within Components (·.head? = some '/')

theorem Resolution.Sound.real {r : Resolution} (h : r.Sound) : r.name.Real := by
  cases r with
  | settled p => exact PathName.real_ofPath h
  | looping written => exact real_of_head? h

/-- Links that lead to real places, as far as it is known where they lead. -/
def MetSound (met : MetLinks) : Prop := MetWithin Components met

theorem MetSound.insert {met : MetLinks} (h : MetSound met) {k : Path} {p? : Option Path}
    (hp : ∀ p, p? = some p → Components p) : MetSound (met.insert k p?) := MetWithin.insert h hp

/-- Resolving comes out at a real place, however deep links stand inside one another. -/
theorem follow_sound (depth : Nat) (met : MetLinks) (place : Path) (names : List Text) (hmet : MetSound met)
    (hplace : Components place) (hnames : ∀ n ∈ names, '/' ∉ n) :
    MetSound (d.follow depth met place names).1 ∧ (d.follow depth met place names).2.Sound :=
  keeps_components.follow depth met place names hmet hplace hnames

/-! ## Its result -/

theorem sound_settle {parts : List Text} (hparts : ∀ n ∈ parts, '/' ∉ n) : (d.settle parts).Sound :=
  keeps_components.settle hparts

/-- What was resolved holds no null character. -/
theorem nul_not_mem_of_resolve {parts : List Text} {name : PathName} (h : d.resolve parts = .ok name) :
    ∀ n ∈ parts, '\x00' ∉ n := by
  unfold resolve at h
  split at h
  · cases h
  · next hnul =>
    intro n hn
    rw [Bool.not_eq_true, List.any_eq_false] at hnul
    simpa using hnul n hn

/-- What resolving answers is what it comes out at. -/
theorem eq_of_resolve {parts : List Text} {name : PathName} (h : d.resolve parts = .ok name) :
    name = (d.settle parts).name := by
  unfold resolve at h
  split at h
  · cases h
  · split at h
    · next p hsettle =>
      rw [hsettle]
      exact (Except.ok.inj h).symm
    · next written hsettle =>
      rw [hsettle]
      simp only at h
      split at h
      · cases h
      · exact (Except.ok.inj h).symm

/-- **Resolving comes out at the name of a real place.** -/
theorem real_of_resolve {parts : List Text} (hparts : ∀ n ∈ parts, '/' ∉ n) {name : PathName}
    (h : d.resolve parts = .ok name) : name.Real := by
  rw [eq_of_resolve h]
  exact (sound_settle hparts).real

theorem expandHome_parts {name name' : PathName} (h : d.expandHome name = .ok name')
    (hname : ∀ n ∈ name.parts, '/' ∉ n) : ∀ n ∈ name'.parts, '/' ∉ n := by
  unfold expandHome at h
  split at h
  · next owner rest _ hparts =>
    split at h
    · cases h
    split at h
    · cases h
    simp only at h
    split at h
    · cases h
    -- the tilde gives way to the parts of a home directory
    obtain rfl := Except.ok.inj h
    intro n hn
    rcases List.mem_append.mp hn with hn | hn
    · exact slash_not_mem_of_mem_pathParts hn
    · exact hname n (by rw [hparts]; exact List.mem_cons_of_mem _ hn)
  · obtain rfl := Except.ok.inj h
    exact hname

/-- A written path that can be resolved is resolved by its parts, behind those of the place where a relative
    one starts. -/
theorem exists_resolve_of_canonical {base : Path} (hbase : ∀ n ∈ base, '/' ∉ n) {written : Text}
    {name : PathName} (h : d.canonical base written = .ok name) :
    ∃ parts, (∀ n ∈ parts, '/' ∉ n) ∧ d.resolve parts = .ok name := by
  unfold canonical at h
  obtain ⟨home, hhome, hresolve⟩ := bind_eq_ok.mp h
  refine ⟨_, ?_, hresolve⟩
  have hparts := expandHome_parts hhome fun n hn => slash_not_mem_of_mem_pathParts hn
  unfold PathName.within
  split
  · exact hparts
  · exact List.forall_mem_append.mpr ⟨hbase, hparts⟩

/-- **A written path leads to the name of a real place**, or nowhere. -/
theorem real_of_canonical {base : Path} (hbase : Components base) {written : Text} {name : PathName}
    (h : d.canonical base written = .ok name) : name.Real := by
  obtain ⟨parts, hparts, hresolve⟩ := exists_resolve_of_canonical (fun n hn => (hbase n hn).2.2.2) h
  exact real_of_resolve hparts hresolve

/-- The text of a real place is resolved by its parts. -/
theorem canonical_toText {name : PathName} (hname : name.Real) (base : Path) :
    d.canonical base name.toText = d.resolve name.parts := by
  have hhome : d.expandHome name = .ok name := by
    unfold expandHome
    rw [hname.isAbsolute]
  unfold canonical
  rw [hname.ofText_toText, hhome]
  show d.resolve (name.within base).parts = _
  rw [PathName.within, if_pos hname.isAbsolute]

end Disk

/-! ## The root of a workspace -/

namespace Settings

variable {d : Disk}

/-- The root that a configuration is accepted with was resolved. -/
theorem exists_canonical_of_rootRule {asName : Bool} {j : Json} {root : Path}
    (h : rootRule d asName j = .ok (.ok root)) :
    ∃ written name, d.canonical d.cwd written = .ok name ∧ root = name.parts := by
  unfold rootRule at h
  split at h
  · split at h
    · cases h
    · cases h
  · split at h
    · cases h
    · split at h
      · next name hname =>
        cases h
        exact ⟨_, name, hname, rfl⟩
      · cases h
      · cases h
      · cases h
  · cases h

theorem pair_eq_ok {x : Checked α} {y : Checked β} {a : α} {b : β} :
    x.pair y = .ok (a, b) ↔ x = .ok a ∧ y = .ok b := by
  cases x <;> cases y <;> simp [Checked.pair]

/-- An argument that has no default was given, and its rule accepted it. -/
theorem exists_rule_of_argument {args : Json} {name : String} {rule : Rule α} {a : α}
    (h : argument args name none rule = .ok (.ok a)) : ∃ j, rule j = .ok (.ok a) := by
  unfold argument at h
  split at h
  · next j _ =>
    obtain ⟨c, hc, hplaced⟩ := map_eq_ok.mp h
    have haccepted : c = .ok a := mapError_eq_ok.mp hplaced
    exact ⟨j, haccepted ▸ hc⟩
  · next hdefault => cases hdefault
  · cases h

/-- **Settings are accepted** if each of them is, by its own rule. -/
theorem ofArguments_eq_ok {asName : Bool} {args : Json} {s : Settings} : ofArguments d asName args = .ok s ↔
    argument args "workspace_root" none (rootRule d asName) = .ok (.ok s.root) ∧
      argument args "file_extensions" (some defaultExtensions) extensionsRule = .ok (.ok s.extensions) ∧
      argument args "exclude_dirs" (some defaultExcluded) excludedRule = .ok (.ok s.excluded) ∧
      argument args "sort_key" (some .name) (checkedRule SortKey.read) = .ok (.ok s.sorting.key) ∧
      argument args "sort_order" (some .asc) (checkedRule SortOrder.read) = .ok (.ok s.sorting.order) ∧
      argument args "log_level" (some "INFO".toList) logLevelRule = .ok (.ok s.logLevel) := by
  constructor
  · intro h
    obtain ⟨root, hroot, h⟩ := bind_eq_ok.mp h
    obtain ⟨extensions, hextensions, h⟩ := bind_eq_ok.mp h
    obtain ⟨excluded, hexcluded, h⟩ := bind_eq_ok.mp h
    obtain ⟨key, hkey, h⟩ := bind_eq_ok.mp h
    obtain ⟨order, horder, h⟩ := bind_eq_ok.mp h
    obtain ⟨level, hlevel, h⟩ := bind_eq_ok.mp h
    split at h
    · next hpair =>
      obtain rfl := Except.ok.inj h
      simp only [pair_eq_ok] at hpair
      obtain ⟨rfl, rfl, rfl, rfl, rfl, rfl⟩ := hpair
      exact ⟨hroot, hextensions, hexcluded, hkey, horder, hlevel⟩
    · cases h
  · rintro ⟨hroot, hextensions, hexcluded, hkey, horder, hlevel⟩
    rw [ofArguments, hroot, hextensions, hexcluded, hkey, horder, hlevel]
    rfl

/-- The root of accepted settings was resolved. -/
theorem exists_canonical_of_ofArguments {asName : Bool} {args : Json} {s : Settings}
    (h : ofArguments d asName args = .ok s) :
    ∃ written name, d.canonical d.cwd written = .ok name ∧ s.root = name.parts := by
  obtain ⟨hroot, -⟩ := ofArguments_eq_ok.mp h
  obtain ⟨j, hrule⟩ := exists_rule_of_argument hroot
  exact exists_canonical_of_rootRule hrule

/-- **The root of accepted settings** is made of components, if the present directory is. -/
theorem components_root_of_ofArguments (hcwd : Components d.cwd) {asName : Bool} {args : Json}
    {s : Settings} (h : ofArguments d asName args = .ok s) : Components s.root := by
  obtain ⟨written, name, hname, hroot⟩ := exists_canonical_of_ofArguments h
  rw [hroot]
  exact (Disk.real_of_canonical hcwd hname).components

end Settings

end HashtagIndex
