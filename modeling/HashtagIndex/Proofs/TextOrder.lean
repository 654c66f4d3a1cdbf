import HashtagIndex.Text.Order
import Mathlib.Data.List.Nodup

/-!
# `Proofs.TextOrder` — sorted texts

Sorting in code point order has one result for each collection of texts, however the texts came to be
listed: sorted lists without repetition that hold the same texts are the same list (`eq_of_mem_iff`).
-/

namespace HashtagIndex

theorem nodup_eraseDups {α : Type} [BEq α] [LawfulBEq α] (l : List α) : l.eraseDups.Nodup := by
  induction hn : l.length using Nat.strongRecOn generalizing l with
  | _ n ih =>
    subst hn
    cases l with
    | nil => simp
    | cons a l =>
      rw [List.eraseDups_cons, List.nodup_cons]
      refine ⟨by simp [List.mem_eraseDups], ih _ ?_ _ rfl⟩
      exact Nat.lt_succ_of_le (List.length_filter_le _ _)

theorem eraseDups_eq_self {α : Type} [BEq α] [LawfulBEq α] {l : List α} (h : l.Nodup) : l.eraseDups = l := by
  induction l with
  | nil => rfl
  | cons a l ih =>
    obtain ⟨ha, hl⟩ := List.nodup_cons.mp h
    have hkeep : l.filter (fun b => !b == a) = l := by
      rw [List.filter_eq_self]
      rintro b hb
      simpa using fun heq : b = a => ha (heq ▸ hb)
    rw [List.eraseDups_cons, hkeep, ih hl]

namespace Text

theorem mem_sort {t : Text} {ts : List Text} : t ∈ sort ts ↔ t ∈ ts := List.mem_mergeSort

theorem perm_sort (ts : List Text) : (sort ts).Perm ts := List.mergeSort_perm ts le

theorem pairwise_sort (ts : List Text) : (sort ts).Pairwise fun s t => le s t = true :=
  @List.pairwise_mergeSort Text le (fun _ _ _ => le_trans) le_total ts

theorem mem_sortDistinct {t : Text} {ts : List Text} : t ∈ sortDistinct ts ↔ t ∈ ts := by
  rw [sortDistinct, mem_sort, List.mem_eraseDups]

theorem nodup_sortDistinct (ts : List Text) : (sortDistinct ts).Nodup :=
  (perm_sort _).nodup_iff.mpr (nodup_eraseDups ts)

theorem pairwise_sortDistinct (ts : List Text) : (sortDistinct ts).Pairwise fun s t => le s t = true :=
  pairwise_sort _

/-- Sorted lists without repetition that hold the same texts are equal. -/
theorem eq_of_mem_iff {ts us : List Text} (hts : ts.Pairwise fun s t => le s t = true)
    (hus : us.Pairwise fun s t => le s t = true) (hnts : ts.Nodup) (hnus : us.Nodup)
    (h : ∀ t, t ∈ ts ↔ t ∈ us) : ts = us :=
  List.Perm.eq_of_pairwise (fun _ _ _ _ => le_antisymm) hts hus
    ((List.perm_ext_iff_of_nodup hnts hnus).mpr h)

end Text

end HashtagIndex
