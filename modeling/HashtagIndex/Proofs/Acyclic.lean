import HashtagIndex.Proofs.Leading
import HashtagIndex.Proofs.PathSets

/-!
# `Proofs.Acyclic` — links that run in no circle

What a link leads to depends on the links that are met on the way from it. Where none of them comes back to
itself this way (`Disk.Acyclic`), they can be taken one after the other, those first that meet no others, and so
all of them lead somewhere, and with them whatever components there are (`Acyclic.exists_leads`). Conversely,
links that all lead somewhere run in no circle, because each of them follows more links than those it meets
(`acyclic_of_linkLeads`). That is the case if all of them can be opened.

There resolving comes out at a path without links, and resolving that path once more changes nothing
(`Acyclic.resolvesOnce`).

## Contents
- `Disk.Meets`, `Disk.EntersLink`, `Disk.Acyclic`.
- `exists_leads_of_meets`, `Acyclic.wellFounded`, `Acyclic.linkLeads`, `Acyclic.exists_leads`.
- `Meets.exists_lt`, `EntersLink.exists_lt`, `acyclic_of_linkLeads`, `IsTree.acyclic_of_locate?`.
- `Acyclic.resolve_eq_ok`, `Disk.ResolvesOnce`, `Acyclic.resolvesOnce`.
-/

namespace HashtagIndex

namespace Disk

variable {d : Disk} {m n : Nat} {place p : Path} {name t : Text} {names : List Text} {k : Path}

/-! ## Links that run in no circle -/

/-- Taking components from a place meets a link, on the way to it or on the way from what links lead to. -/
inductive Meets (d : Disk) : Path → List Text → Path → Prop
  | here {place : Path} {name t : Text} {rest : List Text} (hname : Descends name)
      (hlink : d.entry? (place ++ [name]) = some (.link t)) : Meets d place (name :: rest) (place ++ [name])
  | beyond {m : Nat} {place q k : Path} {name t : Text} {rest : List Text} (hname : Descends name)
      (hlink : d.entry? (place ++ [name]) = some (.link t))
      (htarget : d.Leads m (linkBase place t) (t.splitOn '/') q) (hrest : Meets d q rest k) :
      Meets d place (name :: rest) k
  | stay {place k : Path} {name : Text} {rest : List Text} (hname : name = [] ∨ name = ['.'])
      (hrest : Meets d place rest k) : Meets d place (name :: rest) k
  | up {place k : Path} {rest : List Text} (hrest : Meets d place.dropLast rest k) :
      Meets d place (['.', '.'] :: rest) k
  | down {place k : Path} {name : Text} {rest : List Text} (hname : Descends name)
      (hlink : ∀ t, d.entry? (place ++ [name]) ≠ some (.link t)) (hrest : Meets d (place ++ [name]) rest k) :
      Meets d place (name :: rest) k

/-- Resolving the target of one link meets another. -/
def EntersLink (d : Disk) (k k' : Path) : Prop :=
  ∃ t, d.entry? k = some (.link t) ∧ d.Meets (linkBase k.dropLast t) (t.splitOn '/') k'

/-- A disk whose links run in no circle. -/
def Acyclic (d : Disk) : Prop := ∀ k, ¬Relation.TransGen d.EntersLink k k

/-- What is met is a link. -/
theorem Meets.exists_link (h : d.Meets place names k) : ∃ t, d.entry? k = some (.link t) := by
  induction h with
  | here _ hlink => exact ⟨_, hlink⟩
  | beyond _ _ _ _ ih => exact ih
  | stay _ _ ih => exact ih
  | up _ ih => exact ih
  | down _ _ _ ih => exact ih

/-- **Components lead somewhere** if the links that they meet do. -/
theorem exists_leads_of_meets (h : ∀ k, d.Meets place names k → ∃ n p, d.LinkLeads n k p) :
    ∃ n p, d.Leads n place names p := by
  induction names generalizing place with
  | nil => exact ⟨0, place, .done place⟩
  | cons name rest ih =>
    rcases stay_or_up_or_descends name with hstay | rfl | hname
    · obtain ⟨n, p, hlead⟩ := ih fun k hk => h k (.stay hstay hk)
      exact ⟨n, p, .stay hstay hlead⟩
    · obtain ⟨n, p, hlead⟩ := ih fun k hk => h k (.up hk)
      exact ⟨n, p, .up hlead⟩
    · by_cases hlink : ∃ t, d.entry? (place ++ [name]) = some (.link t)
      · -- the link leads somewhere, and the rest is taken from there
        obtain ⟨t, hlink⟩ := hlink
        obtain ⟨m, q, hlead⟩ := h _ (.here hname hlink)
        have htarget := hlead.leads hlink
        rw [List.dropLast_concat] at htarget
        obtain ⟨n, p, hlead⟩ := ih fun k hk => h k (.beyond hname hlink htarget hk)
        exact ⟨_, p, .along hname hlink htarget hlead⟩
      · have hlink : ∀ t, d.entry? (place ++ [name]) ≠ some (.link t) := not_exists.mp hlink
        obtain ⟨n, p, hlead⟩ := ih fun k hk => h k (.down hname hlink hk)
        exact ⟨n, p, .down hname hlink hlead⟩

/-- The links that a target meets, and those that their targets meet, come to an end: there are only so many. -/
theorem Acyclic.wellFounded (hd : d.Acyclic) :
    WellFounded fun a b : {k // k ∈ d.entries.keys} => Relation.TransGen d.EntersLink b.1 a.1 := by
  have : IsTrans {k // k ∈ d.entries.keys} fun a b => Relation.TransGen d.EntersLink b.1 a.1 :=
    ⟨fun _ _ _ hab hbc => hbc.trans hab⟩
  have : Std.Irrefl fun a b : {k // k ∈ d.entries.keys} => Relation.TransGen d.EntersLink b.1 a.1 :=
    ⟨fun a ha => hd a.1 ha⟩
  have : Finite {k // k ∈ d.entries.keys} := List.finite_toSet _
  exact Finite.wellFounded_of_trans_of_irrefl _

/-- **Every link leads somewhere** where links run in no circle. -/
theorem Acyclic.linkLeads (hd : d.Acyclic) (hlink : d.entry? k = some (.link t)) :
    ∃ n p, d.LinkLeads n k p := by
  suffices h : ∀ a : {k // k ∈ d.entries.keys}, ∀ t, d.entry? a.1 = some (.link t) →
      ∃ n p, d.LinkLeads n a.1 p from h ⟨k, mem_keys_of_link hlink⟩ t hlink
  intro a
  -- by induction, the links that the target meets lead somewhere
  induction a using hd.wellFounded.induction with
  | _ a ih =>
    intro t ht
    obtain ⟨n, p, hlead⟩ := exists_leads_of_meets (d := d) fun k' hmeets => by
      obtain ⟨t', ht'⟩ := hmeets.exists_link
      exact ih ⟨k', mem_keys_of_link ht'⟩ (.single ⟨t, ht, hmeets⟩) t' ht'
    exact ⟨n, p, t, ht, hlead⟩

theorem Acyclic.exists_leads (hd : d.Acyclic) (place : Path) (names : List Text) :
    ∃ n p, d.Leads n place names p := by
  apply exists_leads_of_meets
  intro k hk
  obtain ⟨t, ht⟩ := hk.exists_link
  exact hd.linkLeads ht

/-- A link that is met follows fewer links than the components that meet it. -/
theorem Meets.exists_lt (h : d.Meets place names k) (hlead : d.Leads n place names p) :
    ∃ m q, d.LinkLeads m k q ∧ m < n := by
  induction h generalizing n p with
  | here hname hlink =>
    obtain ⟨a, b, q, rfl, htarget, -⟩ := (leads_along_iff hname hlink).mp hlead
    exact ⟨a, q, linkLeads_concat hlink htarget, by omega⟩
  | beyond hname hlink htarget _ ih =>
    obtain ⟨a, b, q, rfl, htarget', hrest⟩ := (leads_along_iff hname hlink).mp hlead
    obtain ⟨-, rfl⟩ := htarget.unique htarget'
    obtain ⟨m, q, hq, hlt⟩ := ih hrest
    exact ⟨m, q, hq, by omega⟩
  | stay hname _ ih => exact ih ((leads_stay_iff hname).mp hlead)
  | up _ ih => exact ih (leads_up_iff.mp hlead)
  | down hname hlink _ ih => exact ih ((leads_down_iff hname hlink).mp hlead)

theorem EntersLink.exists_lt {k' : Path} (h : d.EntersLink k k') (hk : d.LinkLeads n k p) :
    ∃ m q, d.LinkLeads m k' q ∧ m < n := by
  obtain ⟨t, ht, hmeets⟩ := h
  exact hmeets.exists_lt (hk.leads ht)

/-- **Links that all lead somewhere run in no circle.** -/
theorem acyclic_of_linkLeads (h : ∀ k t, d.entry? k = some (.link t) → ∃ n p, d.LinkLeads n k p) :
    d.Acyclic := by
  have hdown : ∀ {k k' : Path} {n : Nat} {p : Path}, Relation.TransGen d.EntersLink k k' → d.LinkLeads n k p →
      ∃ m q, d.LinkLeads m k' q ∧ m < n := by
    intro k k' n p henters hk
    induction henters with
    | single hstep => exact hstep.exists_lt hk
    | tail _ hstep ih =>
      obtain ⟨m, q, hlead, hlt⟩ := ih
      obtain ⟨m', q', hlead', hlt'⟩ := hstep.exists_lt hlead
      exact ⟨m', q', hlead', by omega⟩
  -- a link in a circle would follow fewer links than itself
  intro k hk
  obtain ⟨k', ⟨t, ht, -⟩, -⟩ := Relation.TransGen.head'_iff.mp hk
  obtain ⟨n, p, hlead⟩ := h k t ht
  obtain ⟨m, q, hlead', hlt⟩ := hdown hk hlead
  obtain ⟨rfl, -⟩ := hlead.unique hlead'
  omega

theorem IsTree.direct (hd : d.IsTree) {e : Entry} (he : d.entry? p = some e) (hlink : ∀ t, e ≠ .link t) :
    d.Direct p := by
  rintro r ⟨r', rfl⟩ t ht
  by_cases hr' : r' = []
  · rw [hr', List.append_nil, ht] at he
    exact hlink t (Option.some.inj he).symm
  · rw [hd.entry?_of_append he hr'] at ht
    cases ht

/-- Links that can all be opened run in no circle. -/
theorem IsTree.acyclic_of_locate? (hd : d.IsTree) (h : ∀ x ∈ d.entries.toList, (d.locate? x.1).isOk = true) :
    d.Acyclic := by
  apply acyclic_of_linkLeads
  intro k t ht
  have hne : k ≠ [] := by
    rintro rfl
    cases ht
  obtain ⟨p, hp⟩ : ∃ p, d.locate? k = .ok p := by
    have hok := h _ (mem_entries_of_link ht)
    cases hlocate : d.locate? k with
    | error e =>
      rw [hlocate] at hok
      cases hok
    | ok p => exact ⟨p, rfl⟩
  obtain ⟨⟨n, hlead⟩, -⟩ := hd.leads_of_locate? hp
  obtain ⟨place, name, rfl⟩ : ∃ place name, k = place ++ [name] :=
    ⟨_, _, (List.dropLast_append_getLast hne).symm⟩
  -- the directory of the link leads to itself, and the link from there
  have hdir : d.entry? place = some .directory := hd.entry?_of_append ht (by simp)
  have hplace := (hd.direct hdir Entry.directory_ne_link).leads_root (hd.properPath hdir).components
  obtain ⟨a, b, q, -, ha, hb⟩ := leads_append_iff.mp hlead
  obtain ⟨-, rfl⟩ := hplace.unique ha
  obtain ⟨hname, hdot, hdots, -⟩ := hd.properPath ht name (by simp)
  obtain ⟨m, -, q, -, htarget, -⟩ := (leads_along_iff ⟨hname, hdot, hdots⟩ ht).mp hb
  exact ⟨m, q, linkLeads_concat ht htarget⟩

/-! ## Resolving -/

/-- **Resolving comes out at a path without links**, whose components lead to it. -/
theorem Acyclic.resolve_eq_ok (hd : d.Acyclic) {parts : List Text} (hparts : ∀ n ∈ parts, '/' ∉ n)
    {name : PathName} (h : d.resolve parts = .ok name) :
    ∃ p, name = .ofPath p ∧ Components p ∧ d.Direct p := by
  obtain ⟨n, p, hlead⟩ := hd.exists_leads [] parts
  have hreal := real_of_resolve hparts h
  rw [resolve_of_leads hlead (nul_not_mem_of_resolve h)] at h
  obtain rfl := Except.ok.inj h
  exact ⟨p, rfl, hreal.components, hlead.direct direct_nil⟩

/-- A path without links is resolved to itself. -/
theorem Direct.resolve_eq (h : d.Direct p) (hp : ProperPath p) : d.resolve p = .ok (.ofPath p) :=
  resolve_of_leads (h.leads_root hp.components) fun n hn => (hp n hn).2.2.2.2

/-- A disk on which resolving what was resolved changes nothing. -/
def ResolvesOnce (d : Disk) : Prop := ∀ parts name, (∀ n ∈ parts, '/' ∉ n) → d.resolve parts = .ok name →
  d.resolve name.parts = .ok name

/-- **Resolving twice is resolving once** where links run in no circle. -/
theorem Acyclic.resolvesOnce (hd : d.Acyclic) (husable : d.TargetsUsable) : d.ResolvesOnce := by
  intro parts name hparts h
  have hnul := noNul_of_resolve husable h
  obtain ⟨p, rfl, hp, hdirect⟩ := hd.resolve_eq_ok hparts h
  apply hdirect.resolve_eq
  exact hp.properPath fun n hn hc => hnul (List.mem_append_right _ (mem_joinSegments hn hc))

end Disk

end HashtagIndex
