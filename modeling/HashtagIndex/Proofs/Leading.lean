import HashtagIndex.Proofs.RealPaths
import Mathlib.Data.List.Perm.Subperm

/-!
# `Proofs.Leading` — where components lead

Opening and resolving take components in different ways: the one replaces a link by its target, in front of the
components behind it, and the other resolves the target first and remembers where it led. Both are ways to find
out where components lead, which is a relation of its own (`Disk.Leads`) and leaves no choice (`Leads.unique`).

Whatever opening arrives at, the components lead there (`IsTree.leads_of_walk?`). Where components lead
somewhere, resolving settles there (`settle_of_leads`), whatever loops of links the disk has elsewhere. That it
does not stop at a link met before is a matter of counting: the links whose targets are being resolved follow
more links, one after the other, than what is left to be taken, and so the next link is none of them.

## Contents
- `Descends`, `Disk.Leads`, `leads_stay_iff`, `leads_up_iff`, `leads_down_iff`, `leads_along_iff`: components.
- `Leads.unique`, `Leads.append`, `leads_append_iff`, `leads_pathParts_iff`, `leads_targetParts_iff`.
- `Disk.Direct`, `Leads.direct`, `Direct.leads`: paths without links.
- `IsTree.leads_of_advance`, `IsTree.leads_of_walk?`, `IsTree.leads_of_locate?`: opening.
- `LinkLeads`, `Recorded`, `Stacked`, `followAll_of_leads`, `follow_of_leads`, `settle_of_leads`,
  `resolve_of_leads`: resolving.
-/

namespace HashtagIndex

/-- A component that leads on: there is something in it, and it is no dots. -/
def Descends (name : Text) : Prop := name ≠ [] ∧ name ≠ ['.'] ∧ name ≠ ['.', '.']

instance (name : Text) : Decidable (Descends name) := inferInstanceAs (Decidable (_ ∧ _))

theorem IsComponent.descends {name : Text} (h : IsComponent name) : Descends name := ⟨h.1, h.2.1, h.2.2.1⟩

namespace Disk

variable {d : Disk} {m n : Nat} {place p q : Path} {name t : Text} {names rest : List Text}

/-- Components lead from a place to a path, along a number of links. A link stands for what its target leads to,
    and a component that nothing stands at is kept. -/
inductive Leads (d : Disk) : Nat → Path → List Text → Path → Prop
  | done (place : Path) : Leads d 0 place [] place
  | stay {n : Nat} {place p : Path} {name : Text} {rest : List Text} (hname : name = [] ∨ name = ['.'])
      (hrest : Leads d n place rest p) : Leads d n place (name :: rest) p
  | up {n : Nat} {place p : Path} {rest : List Text} (hrest : Leads d n place.dropLast rest p) :
      Leads d n place (['.', '.'] :: rest) p
  | down {n : Nat} {place p : Path} {name : Text} {rest : List Text} (hname : Descends name)
      (hlink : ∀ t, d.entry? (place ++ [name]) ≠ some (.link t)) (hrest : Leads d n (place ++ [name]) rest p) :
      Leads d n place (name :: rest) p
  | along {m n : Nat} {place q p : Path} {name t : Text} {rest : List Text} (hname : Descends name)
      (hlink : d.entry? (place ++ [name]) = some (.link t))
      (htarget : Leads d m (linkBase place t) (t.splitOn '/') q) (hrest : Leads d n q rest p) :
      Leads d (m + n + 1) place (name :: rest) p

/-- A component means nothing, or goes back, or leads on. -/
theorem stay_or_up_or_descends (name : Text) :
    (name = [] ∨ name = ['.']) ∨ name = ['.', '.'] ∨ Descends name := by
  by_cases hstay : name = [] ∨ name = ['.']
  · exact .inl hstay
  · rw [not_or] at hstay
    by_cases hdots : name = ['.', '.']
    · exact .inr (.inl hdots)
    · exact .inr (.inr ⟨hstay.1, hstay.2, hdots⟩)

theorem leads_stay_iff (hname : name = [] ∨ name = ['.']) :
    d.Leads n place (name :: rest) p ↔ d.Leads n place rest p := by
  refine ⟨fun h => ?_, .stay hname⟩
  cases h with
  | stay _ hrest => exact hrest
  | up _ => rcases hname with hname | hname <;> cases hname
  | down hname' _ _ => exact absurd hname (not_or.mpr ⟨hname'.1, hname'.2.1⟩)
  | along hname' _ _ _ => exact absurd hname (not_or.mpr ⟨hname'.1, hname'.2.1⟩)

theorem leads_up_iff : d.Leads n place (['.', '.'] :: rest) p ↔ d.Leads n place.dropLast rest p := by
  refine ⟨fun h => ?_, .up⟩
  cases h with
  | stay hname _ => rcases hname with hname | hname <;> cases hname
  | up hrest => exact hrest
  | down hname _ _ => exact absurd rfl hname.2.2
  | along hname _ _ _ => exact absurd rfl hname.2.2

theorem leads_down_iff (hname : Descends name) (hlink : ∀ t, d.entry? (place ++ [name]) ≠ some (.link t)) :
    d.Leads n place (name :: rest) p ↔ d.Leads n (place ++ [name]) rest p := by
  refine ⟨fun h => ?_, .down hname hlink⟩
  cases h with
  | stay hname' _ => exact absurd hname' (not_or.mpr ⟨hname.1, hname.2.1⟩)
  | up _ => exact absurd rfl hname.2.2
  | down _ _ hrest => exact hrest
  | along _ hlink' _ _ => exact absurd hlink' (hlink _)

theorem leads_along_iff (hname : Descends name) (hlink : d.entry? (place ++ [name]) = some (.link t)) :
    d.Leads n place (name :: rest) p ↔ ∃ a b q, a + b + 1 = n ∧
      d.Leads a (linkBase place t) (t.splitOn '/') q ∧ d.Leads b q rest p := by
  constructor
  · intro h
    cases h with
    | stay hname' _ => exact absurd hname' (not_or.mpr ⟨hname.1, hname.2.1⟩)
    | up _ => exact absurd rfl hname.2.2
    | down _ hlink' _ => exact absurd hlink (hlink' _)
    | along _ hlink' htarget hrest =>
      rw [hlink] at hlink'
      cases hlink'
      exact ⟨_, _, _, rfl, htarget, hrest⟩
  · rintro ⟨a, b, q, rfl, htarget, hrest⟩
    exact .along hname hlink htarget hrest

/-- **Components lead to one path**, and along one number of links. -/
theorem Leads.unique (h : d.Leads m place names p) (h' : d.Leads n place names q) : m = n ∧ p = q := by
  induction h generalizing n q with
  | done place =>
    cases h'
    exact ⟨rfl, rfl⟩
  | stay hname _ ih => exact ih ((leads_stay_iff hname).mp h')
  | up _ ih => exact ih (leads_up_iff.mp h')
  | down hname hlink _ ih => exact ih ((leads_down_iff hname hlink).mp h')
  | along hname hlink _ _ ihtarget ih =>
    -- the same link has the same target, which leads to the same place
    obtain ⟨a, b, q', rfl, htarget, hrest⟩ := (leads_along_iff hname hlink).mp h'
    obtain ⟨rfl, rfl⟩ := ihtarget htarget
    obtain ⟨rfl, rfl⟩ := ih hrest
    exact ⟨rfl, rfl⟩

/-- Components can be taken one list after the other. -/
theorem Leads.append (h : d.Leads m place names q) (h' : d.Leads n q rest p) :
    d.Leads (m + n) place (names ++ rest) p := by
  induction h with
  | done place =>
    rw [Nat.zero_add]
    exact h'
  | stay hname _ ih => exact .stay hname (ih h')
  | up _ ih => exact .up (ih h')
  | down hname hlink _ ih => exact .down hname hlink (ih h')
  | along hname hlink htarget _ _ ih =>
    have hall := Leads.along hname hlink htarget (ih h')
    rwa [← Nat.add_assoc, Nat.add_right_comm _ _ 1] at hall

theorem leads_append_iff : d.Leads n place (names ++ rest) p ↔
    ∃ a b q, a + b = n ∧ d.Leads a place names q ∧ d.Leads b q rest p := by
  constructor
  · intro h
    induction names generalizing n place with
    | nil => exact ⟨0, n, place, Nat.zero_add n, .done place, h⟩
    | cons name names ih =>
      cases h with
      | stay hname hrest =>
        obtain ⟨a, b, q, hab, ha, hb⟩ := ih hrest
        exact ⟨a, b, q, hab, .stay hname ha, hb⟩
      | up hrest =>
        obtain ⟨a, b, q, hab, ha, hb⟩ := ih hrest
        exact ⟨a, b, q, hab, .up ha, hb⟩
      | down hname hlink hrest =>
        obtain ⟨a, b, q, hab, ha, hb⟩ := ih hrest
        exact ⟨a, b, q, hab, .down hname hlink ha, hb⟩
      | along hname hlink htarget hrest =>
        obtain ⟨a, b, q, rfl, ha, hb⟩ := ih hrest
        exact ⟨_, b, q, by omega, .along hname hlink htarget ha, hb⟩
  · rintro ⟨a, b, q, rfl, ha, hb⟩
    exact ha.append hb

/-- Components that carry no meaning may be left out. -/
theorem leads_pathParts_iff : d.Leads n place (pathParts t) p ↔ d.Leads n place (t.splitOn '/') p := by
  rw [pathParts]
  induction t.splitOn '/' generalizing n place with
  | nil => exact Iff.rfl
  | cons name names ih =>
    rcases stay_or_up_or_descends name with hstay | rfl | hname
    · rw [List.filter_cons_of_neg (by simpa using fun h => hstay.resolve_left h), ih, leads_stay_iff hstay]
    · rw [List.filter_cons_of_pos (by simp), leads_up_iff, leads_up_iff, ih]
    · rw [List.filter_cons_of_pos (by simpa using ⟨hname.1, hname.2.1⟩)]
      by_cases hlink : ∃ t, d.entry? (place ++ [name]) = some (.link t)
      · obtain ⟨t, hlink⟩ := hlink
        simp only [leads_along_iff hname hlink, ih]
      · have hlink := not_exists.mp hlink
        rw [leads_down_iff hname hlink, leads_down_iff hname hlink, ih]

/-- The dot behind a target that asks for a directory leads nowhere else. -/
theorem leads_targetParts_iff : d.Leads n place (targetParts t) p ↔ d.Leads n place (t.splitOn '/') p := by
  rw [targetParts, ← leads_pathParts_iff]
  split
  · rw [leads_append_iff]
    constructor
    · rintro ⟨a, b, q, rfl, ha, hb⟩
      cases (leads_stay_iff (.inr rfl)).mp hb
      exact ha
    · exact fun h => ⟨n, 0, p, rfl, h, .stay (.inr rfl) (.done p)⟩
  · rw [List.append_nil]

/-! ## Paths without links -/

/-- A path on which no link stands, neither at its end nor above. -/
def Direct (d : Disk) (p : Path) : Prop := ∀ r, r <+: p → ∀ t, d.entry? r ≠ some (.link t)

theorem direct_nil : d.Direct [] := by
  intro r hr t ht
  obtain rfl := List.prefix_nil.mp hr
  cases ht

theorem Direct.dropLast (h : d.Direct p) : d.Direct p.dropLast :=
  fun r hr => h r (hr.trans (List.dropLast_prefix p))

theorem Direct.concat (h : d.Direct p) (hlink : ∀ t, d.entry? (p ++ [name]) ≠ some (.link t)) :
    d.Direct (p ++ [name]) := by
  intro r hr
  rcases List.prefix_concat_iff.mp hr with rfl | hr
  · exact hlink
  · exact h r hr

theorem Direct.linkBase (h : d.Direct place) (t : Text) : d.Direct (linkBase place t) := by
  unfold Disk.linkBase
  split
  · exact direct_nil
  · exact h

/-- **Where components lead there is no link** on the path. -/
theorem Leads.direct (h : d.Leads n place names p) (hplace : d.Direct place) : d.Direct p := by
  induction h with
  | done _ => exact hplace
  | stay _ _ ih => exact ih hplace
  | up _ ih => exact ih hplace.dropLast
  | down _ hlink _ ih => exact ih (hplace.concat hlink)
  | along _ _ _ _ ihtarget ih => exact ih (ihtarget (hplace.linkBase _))

/-- The components of a path without links lead to it. -/
theorem Direct.leads (h : d.Direct (place ++ names)) (hnames : Components names) :
    d.Leads 0 place names (place ++ names) := by
  induction names generalizing place with
  | nil =>
    rw [List.append_nil]
    exact .done place
  | cons name rest ih =>
    obtain ⟨hname, hrest⟩ := List.forall_mem_cons.mp hnames
    have hsplit : place ++ name :: rest = place ++ [name] ++ rest := by simp
    rw [hsplit] at h ⊢
    have hlink : ∀ t, d.entry? (place ++ [name]) ≠ some (.link t) := h _ (List.prefix_append _ _)
    exact .down hname.descends hlink (ih h hrest)

theorem Direct.leads_root (h : d.Direct p) (hp : Components p) : d.Leads 0 [] p p := by
  rw [← List.nil_append p] at h
  exact h.leads hp

/-! ## Opening -/

/-- A stage that components lead on from, once they lead somewhere from there. -/
def LeadsFrom (d : Disk) (place : Path) (names : List Text) : Stage → Prop
  | .arrived p => d.Leads 0 place names p ∧ ∀ n ∈ names, '\x00' ∉ n
  | .atLink dir t rest =>
    (∀ m q n p, d.Leads m (Disk.linkBase dir t) (t.splitOn '/') q → d.Leads n q rest p →
        d.Leads (m + n + 1) place names p) ∧
      ((∀ n ∈ rest, '\x00' ∉ n) → ∀ n ∈ names, '\x00' ∉ n)

namespace IsTree

variable (hd : d.IsTree)
include hd

/-- Opening takes components to a link, or to where they lead. -/
theorem leads_of_advance {stage : Stage} (h : d.advance place names = .ok stage) :
    d.LeadsFrom place names stage := by
  induction names generalizing place with
  | nil =>
    obtain rfl := Except.ok.inj h
    exact ⟨.done place, List.forall_mem_nil _⟩
  | cons name rest ih =>
    -- one component in front leads to where the others are taken from
    have hfront : ∀ place', d.LeadsFrom place' rest stage → '\x00' ∉ name →
        (∀ n p, d.Leads n place' rest p → d.Leads n place (name :: rest) p) →
        d.LeadsFrom place (name :: rest) stage := by
      intro place' hstage hnul hlead
      cases stage with
      | arrived p => exact ⟨hlead _ _ hstage.1, List.forall_mem_cons.mpr ⟨hnul, hstage.2⟩⟩
      | atLink dir t behind =>
        exact ⟨fun m q n p hm hn => hlead _ _ (hstage.1 m q n p hm hn),
          fun hbehind => List.forall_mem_cons.mpr ⟨hnul, hstage.2 hbehind⟩⟩
    unfold advance at h
    split at h
    · cases h
    split at h
    · cases h
    split at h
    · cases h
    split at h
    · next hdot => exact hfront _ (ih h) (by simp [hdot]) fun n p => .stay (.inr hdot)
    next hdot =>
    split at h
    · next hdots =>
      subst hdots
      exact hfront _ (ih h) (by simp) fun n p => .up
    next hdots =>
    split at h
    · cases h
    · next t hlink =>
      obtain rfl := Except.ok.inj h
      obtain ⟨hne, -, -, -, hnul⟩ := hd.properPath hlink name (by simp)
      exact ⟨fun m q n p => .along ⟨hne, hdot, hdots⟩ hlink,
        fun hrest => List.forall_mem_cons.mpr ⟨hnul, hrest⟩⟩
    · next e hlink he =>
      obtain ⟨hne, -, -, -, hnul⟩ := hd.properPath he name (by simp)
      refine hfront _ (ih h) hnul fun n p => .down ⟨hne, hdot, hdots⟩ ?_
      intro t ht
      rw [he] at ht
      exact hlink t (Option.some.inj ht)

/-- **Components lead to what opening arrives at**, and none of them holds a null character. -/
theorem leads_of_walk? {links : Nat} (h : d.walk? links place names = .ok p) :
    (∃ n, d.Leads n place names p) ∧ ∀ n ∈ names, '\x00' ∉ n := by
  induction links generalizing place names with
  | zero =>
    unfold walk? at h
    split at h
    · cases h
    · next q hstage =>
      obtain rfl := Except.ok.inj h
      obtain ⟨hlead, hnul⟩ := hd.leads_of_advance hstage
      exact ⟨⟨0, hlead⟩, hnul⟩
    · cases h
  | succ links ih =>
    unfold walk? at h
    split at h
    · cases h
    · next q hstage =>
      obtain rfl := Except.ok.inj h
      obtain ⟨hlead, hnul⟩ := hd.leads_of_advance hstage
      exact ⟨⟨0, hlead⟩, hnul⟩
    · next dir t rest hstage =>
      obtain ⟨hlead, hnul⟩ := hd.leads_of_advance hstage
      obtain ⟨⟨n, hwalk⟩, hnul'⟩ := ih h
      obtain ⟨a, b, q, -, ha, hb⟩ := leads_append_iff.mp hwalk
      exact ⟨⟨_, hlead _ _ _ _ (leads_targetParts_iff.mp ha) hb⟩,
        hnul fun m hm => hnul' m (List.mem_append_right _ hm)⟩

theorem leads_of_locate? {parts : List Text} (h : d.locate? parts = .ok p) :
    (∃ n, d.Leads n [] parts p) ∧ ∀ n ∈ parts, '\x00' ∉ n := by
  unfold locate? at h
  split at h
  · cases h
  · exact hd.leads_of_walk? h

end IsTree

/-! ## Resolving -/

/-- A link is an entry, because none stands for the root directory. -/
theorem mem_entries_of_link {k : Path} (h : d.entry? k = some (.link t)) : (k, .link t) ∈ d.entries.toList := by
  have hne : k ≠ [] := by
    rintro rfl
    cases h
  exact (entry?_eq_some hne).mp h

theorem mem_keys_of_link {k : Path} (h : d.entry? k = some (.link t)) : k ∈ d.entries.keys :=
  List.mem_map.mpr ⟨_, mem_entries_of_link h, rfl⟩

/-- The target of a link leads to a path, along a number of links. -/
def LinkLeads (d : Disk) (n : Nat) (k p : Path) : Prop :=
  ∃ t, d.entry? k = some (.link t) ∧ d.Leads n (linkBase k.dropLast t) (t.splitOn '/') p

theorem LinkLeads.leads {k : Path} (h : d.LinkLeads n k p) (hlink : d.entry? k = some (.link t)) :
    d.Leads n (linkBase k.dropLast t) (t.splitOn '/') p := by
  obtain ⟨t', hlink', hlead⟩ := h
  rw [hlink] at hlink'
  cases hlink'
  exact hlead

theorem LinkLeads.unique {k : Path} (h : d.LinkLeads m k p) (h' : d.LinkLeads n k q) : m = n ∧ p = q := by
  obtain ⟨t, hlink, hlead⟩ := h
  exact hlead.unique (h'.leads hlink)

theorem linkLeads_concat (hlink : d.entry? (place ++ [name]) = some (.link t))
    (htarget : d.Leads n (linkBase place t) (t.splitOn '/') p) : d.LinkLeads n (place ++ [name]) p := by
  refine ⟨t, hlink, ?_⟩
  rw [List.dropLast_concat]
  exact htarget

/-- What is known of the links met so far: where they lead, or that they are on the stack of those whose targets
    are still being resolved. -/
structure Recorded (d : Disk) (met : MetLinks) (stack : List Path) : Prop where
  known : ∀ k p, met.get? k = some (some p) → ∃ n, d.LinkLeads n k p
  pending : ∀ k, met.get? k = some none → k ∈ stack

/-- A stack of links whose targets are being resolved, with `n` links still to be followed: each of them follows
    at least as many. -/
structure Stacked (d : Disk) (stack : List Path) (n : Nat) : Prop where
  nodup : stack.Nodup
  follows : ∀ k ∈ stack, ∃ m p, d.LinkLeads m k p ∧ n ≤ m

theorem Stacked.mono {stack : List Path} (h : d.Stacked stack n) (hmn : m ≤ n) : d.Stacked stack m := by
  refine ⟨h.nodup, fun k hk => ?_⟩
  obtain ⟨m', p, hlead, hle⟩ := h.follows k hk
  exact ⟨m', p, hlead, Nat.le_trans hmn hle⟩

/-- A link whose target follows fewer links is not on the stack. -/
theorem Stacked.not_mem {stack : List Path} (h : d.Stacked stack n) {k : Path} (hk : d.LinkLeads m k p)
    (hmn : m < n) : k ∉ stack := by
  intro hmem
  obtain ⟨m', p', hlead, hle⟩ := h.follows k hmem
  obtain ⟨rfl, -⟩ := hk.unique hlead
  omega

theorem Stacked.push {stack : List Path} (h : d.Stacked stack n) {k : Path} (hk : d.LinkLeads m k p)
    (hmn : m < n) : d.Stacked (k :: stack) m :=
  ⟨List.nodup_cons.mpr ⟨h.not_mem hk hmn, h.nodup⟩,
    List.forall_mem_cons.mpr ⟨⟨m, p, hk, Nat.le_refl m⟩, (h.mono (Nat.le_of_lt hmn)).follows⟩⟩

/-- There are no more links on the stack than entries on the disk. -/
theorem Stacked.length_le {stack : List Path} (h : d.Stacked stack n) : stack.length ≤ d.entries.size := by
  have hsub : stack ⊆ d.entries.keys := by
    intro k hk
    obtain ⟨m, p, ⟨t, hlink, -⟩, -⟩ := h.follows k hk
    exact mem_keys_of_link hlink
  have hkeys : d.entries.keys.length = d.entries.size := List.length_map _
  rw [← hkeys]
  exact (h.nodup.subperm hsub).length_le

theorem Recorded.push {met : MetLinks} {stack : List Path} (h : d.Recorded met stack) (k : Path) :
    d.Recorded (met.insert k none) (k :: stack) := by
  constructor
  · intro j p hj
    rw [OrderedMap.get?_insert] at hj
    split at hj
    · cases hj
    · exact h.known j p hj
  · intro j hj
    rw [OrderedMap.get?_insert] at hj
    split at hj
    · next heq => exact List.mem_cons.mpr (.inl heq)
    · exact List.mem_cons_of_mem _ (h.pending j hj)

theorem Recorded.pop {met : MetLinks} {stack : List Path} {k : Path} (h : d.Recorded met (k :: stack))
    (hk : d.LinkLeads n k p) : d.Recorded (met.insert k (some p)) stack := by
  constructor
  · intro j q hj
    rw [OrderedMap.get?_insert] at hj
    split at hj
    · next heq =>
      cases hj
      exact ⟨n, heq ▸ hk⟩
    · exact h.known j q hj
  · intro j hj
    rw [OrderedMap.get?_insert] at hj
    split at hj
    · cases hj
    · next hne => exact (List.mem_cons.mp (h.pending j hj)).resolve_left hne

/-- A way of taking components that settles where they lead, below a stack of `length` links. -/
def Settles (d : Disk) (length : Nat) (step : MetLinks → Path → List Text → MetLinks × Resolution) : Prop :=
  ∀ stack met n place names p, stack.length = length → d.Stacked stack n → d.Recorded met stack →
    d.Leads n place names p → ∃ met', step met place names = (met', .settled p) ∧ d.Recorded met' stack

/-- **Taking components** settles where they lead, if entering links does. -/
theorem followAll_of_leads {length : Nat} {enter : MetLinks → Path → List Text → MetLinks × Resolution}
    (henter : d.Settles (length + 1) enter) : d.Settles length (d.followAll enter) := by
  intro stack met n place names p hlength hstack hmet h
  induction h generalizing met with
  | done place => exact ⟨met, rfl, hmet⟩
  | stay hname _ ih =>
    rw [followAll, if_pos hname]
    exact ih met hstack hmet
  | up _ ih =>
    rw [followAll, if_neg (by simp), if_pos rfl]
    exact ih met hstack hmet
  | down hname hlink _ ih =>
    rw [followAll, if_neg (not_or.mpr ⟨hname.1, hname.2.1⟩), if_neg hname.2.2]
    simp only
    exact ih met hstack hmet
  | along hname hlink htarget _ _ ih =>
    have hlead := linkLeads_concat hlink htarget
    have hrest := hstack.mono (Nat.le_succ_of_le (Nat.le_add_left _ _))
    rw [followAll, if_neg (not_or.mpr ⟨hname.1, hname.2.1⟩), if_neg hname.2.2]
    simp only [hlink]
    split
    · next p' hknown =>
      obtain ⟨n', hlead'⟩ := hmet.known _ _ hknown
      obtain ⟨-, rfl⟩ := hlead.unique hlead'
      exact ih met hrest hmet
    · -- it would be on the stack, whose links follow more links than this one
      next hpending => exact absurd (hmet.pending _ hpending) (hstack.not_mem hlead (by omega))
    · obtain ⟨met', hfollow, hmet'⟩ := henter _ _ _ _ _ _ (congrArg (· + 1) hlength)
        (hstack.push hlead (by omega)) (hmet.push _) htarget
      rw [hfollow]
      exact ih _ hrest (hmet'.pop hlead)

/-- Resolving settles where components lead, if its depth is enough for the links that are not on the stack. -/
theorem follow_of_leads (depth : Nat) {length : Nat} (hdepth : d.entries.size < depth + length) :
    d.Settles length (d.follow depth) := by
  induction depth generalizing length with
  | zero =>
    rintro stack met n place names p rfl hstack -
    have hle := hstack.length_le
    omega
  | succ depth ih => exact followAll_of_leads (ih (by omega))

/-- **Resolving settles where components lead.** -/
theorem settle_of_leads {parts : List Text} (h : d.Leads n [] parts p) : d.settle parts = .settled p := by
  have hstack : d.Stacked [] n := ⟨List.nodup_nil, List.forall_mem_nil _⟩
  have hmet : d.Recorded .empty [] := ⟨nofun, nofun⟩
  have hdepth : d.entries.size < d.entries.size + 2 + 0 := by omega
  obtain ⟨met', hfollow, -⟩ := follow_of_leads _ hdepth [] _ n _ _ _ rfl hstack hmet h
  rw [settle, hfollow]

theorem resolve_of_leads {parts : List Text} (h : d.Leads n [] parts p) (hnul : ∀ n ∈ parts, '\x00' ∉ n) :
    d.resolve parts = .ok (.ofPath p) := by
  have hany : parts.any (·.contains '\x00') = false := by
    rw [List.any_eq_false]
    intro m hm
    simpa using hnul m hm
  rw [resolve, hany, settle_of_leads h]
  rfl

/-- **What can be opened is resolved to what opening arrives at**, on any disk whose entries form a tree. -/
theorem IsTree.resolve_of_locate? (hd : d.IsTree) {parts : List Text} (h : d.locate? parts = .ok p) :
    d.resolve parts = .ok (.ofPath p) := by
  obtain ⟨⟨n, hlead⟩, hnul⟩ := hd.leads_of_locate? h
  exact resolve_of_leads hlead hnul

end Disk

end HashtagIndex
