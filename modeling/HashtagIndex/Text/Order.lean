import HashtagIndex.Text.Basic

/-!
# `HashtagIndex.Text.Order` — code point order

Texts are ordered by their first difference, characters by code point, and a text comes before its
continuations. This is a total order: the four laws below are what sorting needs.

## Contents
- `Text.le`, with `le_refl`, `le_trans`, `le_antisymm` and `le_total`.
- `Text.sort`, `Text.sortDistinct`: texts in this order.
-/

namespace HashtagIndex.Text

/-- Whether one text comes before another or equals it. -/
def le : Text → Text → Bool
  | [], _ => true
  | _ :: _, [] => false
  | a :: s, b :: t => a.toNat < b.toNat || (a.toNat == b.toNat && le s t)

/-- Texts in code point order. -/
def sort (ts : List Text) : List Text := ts.mergeSort le

/-- Texts in code point order, each once. -/
def sortDistinct (ts : List Text) : List Text := sort ts.eraseDups

/-- Comparing two texts that are not empty. -/
theorem le_cons_cons {a b : Char} {s t : Text} :
    le (a :: s) (b :: t) = true ↔ a.toNat < b.toNat ∨ a.toNat = b.toNat ∧ le s t = true := by
  simp [le]

theorem le_refl (t : Text) : le t t = true := by
  induction t with
  | nil => rfl
  | cons a s ih => exact le_cons_cons.2 (Or.inr ⟨rfl, ih⟩)

theorem le_trans : ∀ {r s t : Text}, le r s = true → le s t = true → le r t = true
  | [], _, _, _, _ => rfl
  | _ :: _, [], _, h, _ => by simp [le] at h
  | _ :: _, _ :: _, [], _, h => by simp [le] at h
  | a :: r, b :: s, c :: t, hab, hbc => by
    rw [le_cons_cons] at hab hbc ⊢
    rcases hab with hab | ⟨hab, hrs⟩
    · exact Or.inl (by omega)
    · rcases hbc with hbc | ⟨hbc, hst⟩
      · exact Or.inl (by omega)
      · exact Or.inr ⟨by omega, le_trans hrs hst⟩

theorem le_antisymm : ∀ {s t : Text}, le s t = true → le t s = true → s = t
  | [], [], _, _ => rfl
  | [], _ :: _, _, h => by simp [le] at h
  | _ :: _, [], h, _ => by simp [le] at h
  | a :: s, b :: t, hab, hba => by
    rw [le_cons_cons] at hab hba
    rcases hab with hab | ⟨hab, hst⟩
    · omega
    · rcases hba with hba | ⟨_, hts⟩
      · omega
      · rw [Char.toNat_inj.1 hab, le_antisymm hst hts]

theorem le_total : ∀ s t : Text, (le s t || le t s) = true
  | [], _ => rfl
  | _ :: _, [] => rfl
  | a :: s, b :: t => by
    have ih := le_total s t
    rw [Bool.or_eq_true] at ih ⊢
    rw [le_cons_cons, le_cons_cons]
    rcases Nat.lt_trichotomy a.toNat b.toNat with h | h | h
    · exact Or.inl (Or.inl h)
    · exact ih.imp (fun hs => Or.inr ⟨h, hs⟩) (fun hs => Or.inr ⟨h.symm, hs⟩)
    · exact Or.inr (Or.inl h)

end HashtagIndex.Text
