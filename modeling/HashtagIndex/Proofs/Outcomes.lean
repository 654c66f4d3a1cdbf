import Mathlib.Data.List.Forall2

/-!
# `Proofs.Outcomes` — taking computations that can fail apart

A computation that came out well did so step by step. These lemmas turn the outcome of a chain, of a
mapped computation and of a computation for each item of a list into the outcomes of its steps, so that
no later proof has to unfold a chain. A computation for each item that fails does so at the first item for
which it does (`FirstFault`).
-/

namespace HashtagIndex

variable {ε ε' α β : Type}

theorem bind_eq_ok {x : Except ε α} {f : α → Except ε β} {b : β} :
    (x >>= f) = .ok b ↔ ∃ a, x = .ok a ∧ f a = .ok b := by
  cases x with
  | error e => exact ⟨nofun, fun ⟨_, h, _⟩ => nomatch h⟩
  | ok a =>
    refine ⟨fun h => ⟨a, rfl, h⟩, ?_⟩
    rintro ⟨_, ha, h⟩
    cases ha
    exact h

theorem map_eq_ok {f : α → β} {x : Except ε α} {b : β} :
    f <$> x = .ok b ↔ ∃ a, x = .ok a ∧ f a = b := by
  cases x with
  | error e => exact ⟨nofun, fun ⟨_, h, _⟩ => nomatch h⟩
  | ok a =>
    refine ⟨fun h => ⟨a, rfl, Except.ok.inj h⟩, ?_⟩
    rintro ⟨_, ha, rfl⟩
    cases ha
    rfl

theorem mapError_eq_ok {f : ε → ε'} {x : Except ε α} {a : α} :
    x.mapError f = .ok a ↔ x = .ok a := by
  cases x with
  | error e => exact ⟨nofun, nofun⟩
  | ok a' => exact ⟨fun h => congrArg _ (Except.ok.inj h), fun h => congrArg _ (Except.ok.inj h)⟩

/-- **A computation for each item of a list** comes out well if it does so for each of them. -/
theorem mapM_eq_ok {f : α → Except ε β} {l : List α} {r : List β} :
    l.mapM f = .ok r ↔ List.Forall₂ (fun a b => f a = .ok b) l r := by
  induction l generalizing r with
  | nil =>
    rw [List.mapM_nil, List.forall₂_nil_left_iff]
    exact ⟨fun h => (Except.ok.inj h).symm, fun h => by rw [h]; rfl⟩
  | cons a l ih =>
    rw [List.mapM_cons, bind_eq_ok, List.forall₂_cons_left_iff]
    constructor
    · rintro ⟨b, hb, hrest⟩
      obtain ⟨r', hr', hr⟩ := bind_eq_ok.mp hrest
      exact ⟨b, r', hb, ih.mp hr', (Except.ok.inj hr).symm⟩
    · rintro ⟨b, r', hb, hr', rfl⟩
      exact ⟨b, hb, bind_eq_ok.mpr ⟨r', ih.mpr hr', rfl⟩⟩

/-- The first item of a list for which a computation fails, and how it does; `good` is what stands in front
    of that item. -/
structure FirstFault (f : α → Except ε β) (l good : List α) (e : ε) : Prop where
  exists_split : ∃ bad rest, l = good ++ bad :: rest ∧ f bad = .error e
  good_ok : ∀ a ∈ good, ∃ b, f a = .ok b

theorem FirstFault.cons {f : α → Except ε β} {l good : List α} {e : ε} (h : FirstFault f l good e) {a : α}
    {b : β} (ha : f a = .ok b) : FirstFault f (a :: l) (a :: good) e := by
  obtain ⟨⟨bad, rest, rfl, hbad⟩, hgood⟩ := h
  exact ⟨⟨bad, rest, rfl, hbad⟩, List.forall_mem_cons.mpr ⟨⟨b, ha⟩, hgood⟩⟩

/-- A computation comes out well for each item of a list, or there is a first one for which it fails. -/
theorem forall_ok_or_firstFault (f : α → Except ε β) (l : List α) :
    (∀ a ∈ l, ∃ b, f a = .ok b) ∨ ∃ good e, FirstFault f l good e := by
  induction l with
  | nil => exact .inl (List.forall_mem_nil _)
  | cons a l ih =>
    cases ha : f a with
    | error e => exact .inr ⟨[], e, ⟨a, l, rfl, ha⟩, List.forall_mem_nil _⟩
    | ok b =>
      rcases ih with hall | ⟨good, e, hfault⟩
      · exact .inl (List.forall_mem_cons.mpr ⟨⟨b, ha⟩, hall⟩)
      · exact .inr ⟨a :: good, e, hfault.cons ha⟩

/-- **A computation for each item of a list** fails as it does for the first item for which it fails. -/
theorem FirstFault.mapM_eq {f : α → Except ε β} {l good : List α} {e : ε} (h : FirstFault f l good e) :
    l.mapM f = .error e := by
  obtain ⟨⟨bad, rest, rfl, hbad⟩, hgood⟩ := h
  induction good with
  | nil =>
    rw [List.nil_append, List.mapM_cons, hbad]
    rfl
  | cons a good ih =>
    obtain ⟨⟨b, hb⟩, hrest⟩ := List.forall_mem_cons.mp hgood
    rw [List.cons_append, List.mapM_cons, hb, ih hrest]
    rfl

/-- Computations that do the same for each item of a list do the same for the list. -/
theorem mapM_congr {f g : α → Except ε β} {l : List α} (h : ∀ a ∈ l, f a = g a) : l.mapM f = l.mapM g := by
  induction l with
  | nil => rfl
  | cons a l ih =>
    obtain ⟨hhead, hrest⟩ := List.forall_mem_cons.mp h
    rw [List.mapM_cons, List.mapM_cons, hhead, ih hrest]

/-- Every item on the right of a comparison item by item is compared with one on the left. -/
theorem exists_of_forall₂_right {R : α → β → Prop} {l : List α} {u : List β} (h : List.Forall₂ R l u)
    {b : β} (hb : b ∈ u) : ∃ a ∈ l, R a b := by
  induction h with
  | nil => simp at hb
  | cons hab _ ih =>
    rcases List.mem_cons.mp hb with rfl | hb
    · exact ⟨_, by simp, hab⟩
    · obtain ⟨a, ha, hr⟩ := ih hb
      exact ⟨a, List.mem_cons_of_mem _ ha, hr⟩

/-- Every result of a computation for each item belongs to an item. -/
theorem exists_of_mem_mapM {f : α → Except ε β} {l : List α} {r : List β} (h : l.mapM f = .ok r)
    {b : β} (hb : b ∈ r) : ∃ a ∈ l, f a = .ok b :=
  exists_of_forall₂_right (mapM_eq_ok.mp h) hb

/-- If the computation comes out well for each item, it does for the list, and the results are those of
    the items. -/
theorem exists_mapM_eq_ok {f : α → Except ε β} {l : List α} (h : ∀ a ∈ l, ∃ b, f a = .ok b) :
    ∃ r, l.mapM f = .ok r ∧ ∀ b, b ∈ r ↔ ∃ a ∈ l, f a = .ok b := by
  induction l with
  | nil => exact ⟨[], rfl, by simp⟩
  | cons a l ih =>
    obtain ⟨b, hb⟩ := h a (by simp)
    obtain ⟨r, hr, hmem⟩ := ih fun a' ha' => h a' (List.mem_cons_of_mem _ ha')
    refine ⟨b :: r, mapM_eq_ok.mpr (.cons hb (mapM_eq_ok.mp hr)), fun b' => ?_⟩
    rw [List.mem_cons, hmem, List.exists_mem_cons_iff, hb]
    refine or_congr_left ⟨fun h => congrArg _ h.symm, fun h => (Except.ok.inj h).symm⟩

end HashtagIndex
