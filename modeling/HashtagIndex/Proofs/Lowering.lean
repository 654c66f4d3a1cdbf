import HashtagIndex.Proofs.TypedTags
import HashtagIndex.Text.Casing

/-!
# `Proofs.Lowering` — text in small letters stays as it is

Lower-casing twice is lower-casing once (`lower_lower`). What comes out of it are small characters: none of them
is a capital, nor the sigma whose form its neighbours decide, so nothing is left that a second pass could change.
No blank and no comma is among them that was not there before (`mem_or_of_mem_lower`).

The table of capitals has some fourteen hundred of them, in runs. That no run leads to a capital is checked for
each two runs (`CaseRun.misses`), which is enough for all the letters in them.

## Contents
- `CaseRun.misses`, `CaseRun.covers_of_misses`, `avoidedRuns`: where runs lead.
- `IsSmall`, `isSmall_of_mem_lowerChar`, `lowerAfter_of_isSmall`, `lower_lower`.
- `IsPlain`, `mem_or_of_mem_lower`, `getLast?_lowerAfter`: blanks and commas.
-/

namespace HashtagIndex

/-! ## Where runs lead -/

namespace CaseRun

/-- Whether a run leads to none of the capitals of another: to other code points altogether, or to those between
    the capitals of a run of every second one. -/
def misses (r r' : CaseRun) : Bool :=
  r.target + (r.last - r.first) < r'.first || r'.last < r.target ||
    (r'.step == 2 && (r.step == 2 || r.first == r.last) && (r.target + r'.first) % 2 == 1)

theorem covers_iff {r : CaseRun} {n : Nat} :
    r.covers n = true ↔ r.first ≤ n ∧ n ≤ r.last ∧ (n - r.first) % r.step = 0 := by
  simp [covers, and_assoc]

theorem covers_of_misses {r r' : CaseRun} (h : r.misses r' = true) {n : Nat} (hn : r.covers n = true) :
    r'.covers (r.target + (n - r.first)) = false := by
  rw [Bool.eq_false_iff]
  intro hcovers
  obtain ⟨hfirst, hlast, hstep⟩ := covers_iff.mp hn
  obtain ⟨hfirst', hlast', hstep'⟩ := covers_iff.mp hcovers
  simp only [misses, Bool.or_eq_true, Bool.and_eq_true, decide_eq_true_eq, beq_iff_eq] at h
  rcases h with (h | h) | ⟨⟨htwo, hshape⟩, hodd⟩
  · omega
  · omega
  · rw [htwo] at hstep'
    rcases hshape with hshape | hshape
    · rw [hshape] at hstep
      omega
    · omega

end CaseRun

/-- What no run leads to, as runs: ASCII up to its capitals, the blanks, the dotted capital I, what is no
    character, and the capitals above ASCII. -/
def avoidedRuns : List CaseRun :=
  ⟨0, 0x60, 1, 0⟩ :: ⟨0x130, 0x130, 1, 0⟩ :: ⟨0xD800, 0xDFFF, 1, 0⟩ ::
    (blankRanges.map fun b => ⟨b.1, b.2, 1, 0⟩) ++ capitalRuns

/-- **Runs lead to what is small already.** -/
theorem misses_avoidedRuns {r r' : CaseRun} (hr : r ∈ capitalRuns) (hr' : r' ∈ avoidedRuns) :
    r.misses r' = true := by
  have hall : (capitalRuns.all fun r => avoidedRuns.all r.misses) = true := by decide +kernel
  exact List.all_eq_true.mp (List.all_eq_true.mp hall r hr) r' hr'

theorem target_lt_of_mem_capitalRuns : ∀ r ∈ capitalRuns, r.target + (r.last - r.first) < 0x110000 := by
  decide +kernel

/-! ## Small characters -/

/-- A character that lower-casing does not change, wherever it stands. -/
def IsSmall (c : Char) : Prop := lowerChar c = [c] ∧ c ≠ 'Σ'

/-- A character that is neither blank nor a comma. -/
def IsPlain (c : Char) : Prop := isBlank c = false ∧ c ≠ ','

instance (c : Char) : Decidable (IsSmall c) := inferInstanceAs (Decidable (_ ∧ _))

instance (c : Char) : Decidable (IsPlain c) := inferInstanceAs (Decidable (_ ∧ _))

/-- In ASCII, a capital becomes a plain small letter, and nothing else changes. -/
theorem lowerChar_ascii {n : Nat} (hn : n < 128) {c : Char} (hc : c ∈ lowerChar (Char.ofNat n)) :
    IsSmall c ∧ (c = Char.ofNat n ∨ IsPlain c) := by
  have hall : ∀ n < 128, ((lowerChar (Char.ofNat n)).all fun c =>
      decide (IsSmall c ∧ (c = Char.ofNat n ∨ IsPlain c))) = true := by decide +kernel
  exact of_decide_eq_true (List.all_eq_true.mp (hall n hn) c hc)

/-- What the characters above ASCII become that need more than the table. -/
theorem lower_special {c : Char} (hc : c ∈ ['i', '\u0307', 'ς', 'σ']) : IsSmall c ∧ IsPlain c := by
  have hall : (['i', '\u0307', 'ς', 'σ'].all fun c => decide (IsSmall c ∧ IsPlain c)) = true := by decide +kernel
  exact of_decide_eq_true (List.all_eq_true.mp hall c hc)

theorem find?_capitalRuns {n : Nat} (h : ∀ r ∈ avoidedRuns, r.covers n = false) :
    capitalRuns.find? (·.covers n) = none := by
  rw [List.find?_eq_none]
  intro r hr
  rw [h r (List.mem_append_right _ hr)]
  exact Bool.false_ne_true

/-- What no run covers that is to be avoided is small and plain. -/
theorem isSmall_of_avoided {m : Nat} (hvalid : m.isValidChar)
    (havoided : ∀ r ∈ avoidedRuns, r.covers m = false) : IsSmall (Char.ofNat m) ∧ IsPlain (Char.ofNat m) := by
  have htoNat : (Char.ofNat m).toNat = m := by
    rw [Char.ofNat, dif_pos hvalid]
    rfl
  have houtside : ∀ r ∈ avoidedRuns, r.step = 1 → ¬(r.first ≤ m ∧ m ≤ r.last) := by
    intro r hr hstep hin
    have hnot := havoided r hr
    rw [CaseRun.covers_iff.mpr ⟨hin.1, hin.2, by rw [hstep, Nat.mod_one]⟩] at hnot
    cases hnot
  have hne : ∀ c : Char, (∃ r ∈ avoidedRuns, r.covers c.toNat = true) → Char.ofNat m ≠ c := by
    rintro c ⟨r, hr, hc⟩ rfl
    rw [htoNat, havoided r hr] at hc
    cases hc
  have hascii : 0x60 < m := by
    have hcontrols := houtside ⟨0, 0x60, 1, 0⟩ (by simp [avoidedRuns]) rfl
    exact Nat.lt_of_not_le fun hle => hcontrols ⟨Nat.zero_le m, hle⟩
  refine ⟨⟨?_, hne _ (by decide +kernel)⟩, ?_, hne _ (by decide +kernel)⟩
  · by_cases hlow : m < 128
    · -- behind the capitals nothing of ASCII changes
      have hrest : ∀ n < 128, 0x60 < n → lowerChar (Char.ofNat n) = [Char.ofNat n] := by decide +kernel
      exact hrest m hlow hascii
    · rw [lowerChar, htoNat, if_neg hlow, if_neg (hne _ (by decide +kernel)), find?_capitalRuns havoided]
  · rw [isBlank, inRanges, List.any_eq_false, htoNat]
    intro b hb hin
    rw [Bool.and_eq_true, decide_eq_true_eq, decide_eq_true_eq] at hin
    refine houtside ⟨b.1, b.2, 1, 0⟩ ?_ rfl hin
    simp only [avoidedRuns, List.cons_append, List.mem_cons, List.mem_append, List.mem_map]
    exact .inr (.inr (.inr (.inl ⟨b, hb, rfl⟩)))

/-- **The small letter of a capital** is small and plain. -/
theorem isSmall_of_covers {r : CaseRun} (hr : r ∈ capitalRuns) {n : Nat} (hn : r.covers n = true) :
    IsSmall (Char.ofNat (r.target + (n - r.first))) ∧ IsPlain (Char.ofNat (r.target + (n - r.first))) := by
  have havoided : ∀ r' ∈ avoidedRuns, r'.covers (r.target + (n - r.first)) = false := fun r' hr' =>
    CaseRun.covers_of_misses (misses_avoidedRuns hr hr') hn
  apply isSmall_of_avoided _ havoided
  -- it is a character, because it is no surrogate
  have hbound := target_lt_of_mem_capitalRuns r hr
  have hsurrogate := havoided ⟨0xD800, 0xDFFF, 1, 0⟩ (by simp [avoidedRuns])
  obtain ⟨hfirst, hlast, -⟩ := CaseRun.covers_iff.mp hn
  rw [Bool.eq_false_iff, ne_eq, CaseRun.covers_iff, Nat.mod_one] at hsurrogate
  simp only [and_true] at hsurrogate
  unfold Nat.isValidChar
  omega

/-- **Lower-casing a character** makes small characters of it, which are plain unless they are the character
    itself. -/
theorem isSmall_of_mem_lowerChar {c c' : Char} (hc : c' ∈ lowerChar c) : IsSmall c' ∧ (c' = c ∨ IsPlain c') := by
  by_cases hascii : c.toNat < 128
  · rw [← Char.ofNat_toNat c] at hc
    have h := lowerChar_ascii hascii hc
    rwa [Char.ofNat_toNat] at h
  · rw [lowerChar, if_neg hascii] at hc
    by_cases hdotted : c = 'İ'
    · rw [if_pos hdotted] at hc
      have h := lower_special (List.mem_append_left ['ς', 'σ'] hc)
      exact ⟨h.1, .inr h.2⟩
    · rw [if_neg hdotted] at hc
      split at hc
      · next r hfind =>
        rw [List.mem_singleton.mp hc]
        have hcovers : r.covers c.toNat = true := by simpa using List.find?_some hfind
        have h := isSmall_of_covers (List.mem_of_find?_eq_some hfind) hcovers
        exact ⟨h.1, .inr h.2⟩
      · next hfind =>
        -- a character that is no capital stays as it is
        obtain rfl := List.mem_singleton.mp hc
        refine ⟨⟨?_, ?_⟩, .inl rfl⟩
        · rw [lowerChar, if_neg hascii, if_neg hdotted, hfind]
        · rintro rfl
          rw [List.find?_eq_none] at hfind
          exact hfind ⟨0x3A3, 0x3AB, 1, 0x3C3⟩ (by decide) (by decide)

/-! ## Text -/

/-- What one character of a text becomes, between what stands in front of it and what stands behind. -/
def lowerAt (before : Text) (c : Char) (behind : Text) : Text :=
  if c = 'Σ' then (if meetsCased before && !meetsCased behind then ['ς'] else ['σ']) else lowerChar c

theorem lowerAfter_cons (before : Text) (c : Char) (r : Text) :
    lowerAfter before (c :: r) = lowerAt before c r ++ lowerAfter (c :: before) r := rfl

theorem isSmall_of_mem_lowerAt {before behind : Text} {c c' : Char} (hc : c' ∈ lowerAt before c behind) :
    IsSmall c' ∧ (c' = c ∨ IsPlain c') := by
  unfold lowerAt at hc
  split at hc
  · have hsigma : c' ∈ ['ς', 'σ'] := by
      split at hc
      · exact List.mem_cons.mpr (.inl (List.mem_singleton.mp hc))
      · exact List.mem_cons_of_mem _ hc
    have h := lower_special (List.mem_append_right ['i', '\u0307'] hsigma)
    exact ⟨h.1, .inr h.2⟩
  · exact isSmall_of_mem_lowerChar hc

theorem lowerAt_ne_nil (before : Text) (c : Char) (behind : Text) : lowerAt before c behind ≠ [] := by
  unfold lowerAt
  split
  · split <;> exact List.cons_ne_nil _ _
  · unfold lowerChar
    split
    · exact List.cons_ne_nil _ _
    · split
      · exact List.cons_ne_nil _ _
      · split <;> exact List.cons_ne_nil _ _

/-- Text in small letters holds small characters only, which are plain unless the text held them before. -/
theorem isSmall_of_mem_lowerAfter {before t : Text} {c : Char} (hc : c ∈ lowerAfter before t) :
    IsSmall c ∧ (c ∈ t ∨ IsPlain c) := by
  induction t generalizing before with
  | nil => exact absurd hc List.not_mem_nil
  | cons c₀ r ih =>
    rw [lowerAfter_cons, List.mem_append] at hc
    rcases hc with hc | hc
    · obtain ⟨hsmall, rfl | hplain⟩ := isSmall_of_mem_lowerAt hc
      · exact ⟨hsmall, .inl List.mem_cons_self⟩
      · exact ⟨hsmall, .inr hplain⟩
    · obtain ⟨hsmall, hmem⟩ := ih hc
      exact ⟨hsmall, hmem.imp_left (List.mem_cons_of_mem _)⟩

/-- **Text of small characters stays as it is.** -/
theorem lowerAfter_of_isSmall (before : Text) {t : Text} (ht : ∀ c ∈ t, IsSmall c) : lowerAfter before t = t := by
  induction t generalizing before with
  | nil => rfl
  | cons c r ih =>
    obtain ⟨⟨hlower, hsigma⟩, hrest⟩ := List.forall_mem_cons.mp ht
    rw [lowerAfter_cons, lowerAt, if_neg hsigma, hlower, ih _ hrest]
    rfl

theorem lower_of_isSmall {t : Text} (ht : ∀ c ∈ t, IsSmall c) : t.lower = t := lowerAfter_of_isSmall [] ht

theorem isSmall_of_mem_lower {t : Text} {c : Char} (hc : c ∈ t.lower) : IsSmall c :=
  (isSmall_of_mem_lowerAfter hc).1

/-- **Lower-casing twice is lower-casing once.** -/
theorem lower_lower (t : Text) : t.lower.lower = t.lower := lower_of_isSmall fun _ => isSmall_of_mem_lower

/-- **Blanks and commas in small letters** stood in the text before. -/
theorem mem_or_of_mem_lower {t : Text} {c : Char} (hc : c ∈ t.lower) : c ∈ t ∨ IsPlain c :=
  (isSmall_of_mem_lowerAfter hc).2

/-- The last character is plain, or is what it was. -/
theorem getLast?_lowerAfter (before : Text) {t : Text} (ht : t ≠ []) :
    ∃ c c', t.getLast? = some c ∧ (lowerAfter before t).getLast? = some c' ∧ (c' = c ∨ IsPlain c') := by
  induction t generalizing before with
  | nil => exact absurd rfl ht
  | cons c r ih =>
    rw [lowerAfter_cons]
    by_cases hr : r = []
    · subst hr
      have hne := lowerAt_ne_nil before c []
      refine ⟨c, _, rfl, ?_, (isSmall_of_mem_lowerAt (List.getLast_mem hne)).2⟩
      show (lowerAt before c [] ++ []).getLast? = _
      rw [List.append_nil, List.getLast?_eq_getLast_of_ne_nil hne]
    · obtain ⟨c₁, c', hlast, hlast', hkept⟩ := ih (c :: before) hr
      have hne : lowerAfter (c :: before) r ≠ [] := by
        intro hnil
        rw [hnil] at hlast'
        cases hlast'
      refine ⟨c₁, c', ?_, ?_, hkept⟩
      · rw [← List.singleton_append, List.getLast?_append_of_ne_nil _ hr, hlast]
      · rw [List.getLast?_append_of_ne_nil _ hne, hlast']

end HashtagIndex
