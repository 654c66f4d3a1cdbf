import HashtagIndex.Workspace.Rename
import Mathlib.Data.List.Nodup

/-!
# `Proofs.Weaving` — replacing from right to left is replacing at once

The planner replaces the recorded places of a line one after the other, and each replacement may
change the length of the line. What comes out is said here without any order: cut the *original* line
at the places that read as the old text, and put the new text between the same gaps.

`cutOut` does the cutting. That it loses nothing is `intercalate_cutOut`; that the planner's loop
builds the other interleaving is `replaceTags_eq_intercalate`. The induction runs over the places from
the left, while the loop runs from the right: the part of the line in front of a place is still the
original one when its turn comes (`take_foldr_replaceSpan`), and the part behind it no longer matters.

## Contents
- `replaceSpan`, `cutOut`, `Separated`.
- `foldr_replaceSpan`: the loop as an interleaving of gaps.
- `rightToLeft_eq_reverse`, `replaceTags_eq_intercalate`: the same for the planner's own loop.
- `spansOf`, `cutOut_spansOf`: where the pieces of an interleaving stand.
-/

namespace HashtagIndex

/-! ## Interleavings -/

theorem intercalate_cons_ne_nil {α : Type} {sep : List α} {g : List α} {gs : List (List α)}
    (h : gs ≠ []) : sep.intercalate (g :: gs) = g ++ (sep ++ sep.intercalate gs) := by
  rw [List.intercalate_cons_of_ne_nil h, List.append_assoc]

/-! ## Places in a line -/

/-- The columns an occurrence covers. -/
def Occurrence.span (o : Occurrence) : Nat × Nat := (o.range.start.character, o.range.stop.character)

/-- Replace what stands between two columns if it reads as the old text. -/
def replaceSpan (old new : Text) (s : Nat × Nat) (line : Text) : Text :=
  if line.slice s.1 s.2 = old then line.splice s.1 s.2 new else line

/-- What is left of a text that begins at `column` when the places that read as `old` are cut out;
    places that do not read as `old` cut nothing. -/
def cutOut (old : Text) : (column : Nat) → List (Nat × Nat) → Text → List Text
  | _, [], t => [t]
  | column, s :: spans, t =>
    if t.slice (s.1 - column) (s.2 - column) = old then
      t.take (s.1 - column) :: cutOut old s.2 spans (t.drop (s.2 - column))
    else cutOut old column spans t

/-- Places that begin at or behind `column` and stand one behind the other. -/
def Separated (column : Nat) (spans : List (Nat × Nat)) : Prop :=
  (∀ s ∈ spans, column ≤ s.1) ∧ spans.Pairwise fun a b => a.2 ≤ b.1

theorem Separated.tail {column : Nat} {s : Nat × Nat} {spans : List (Nat × Nat)}
    (h : Separated column (s :: spans)) : Separated column spans :=
  ⟨fun u hu => h.1 u (List.mem_cons_of_mem _ hu), h.2.tail⟩

theorem Separated.behind {column : Nat} {s : Nat × Nat} {spans : List (Nat × Nat)}
    (h : Separated column (s :: spans)) : Separated s.2 spans :=
  ⟨(List.pairwise_cons.mp h.2).1, h.2.tail⟩

/-! ## Slices of a line whose beginning is known -/

theorem slice_drop (t : Text) {column i : Nat} (h : column ≤ i) (j : Nat) :
    Text.slice (t.drop column) (i - column) (j - column) = t.slice i j := by
  unfold Text.slice
  rw [List.take_drop, List.drop_drop]
  by_cases hj : column ≤ j
  · rw [show column + (j - column) = j by omega, show column + (i - column) = i by omega]
  · rw [List.drop_eq_nil_of_le, List.drop_eq_nil_of_le]
    · rw [List.length_take]; omega
    · rw [List.length_take]; omega

/-- A slice looks no further than to its end. -/
theorem slice_congr_of_take {t u : Text} {j : Nat} (h : t.take j = u.take j) (i : Nat) :
    t.slice i j = u.slice i j := by
  rw [Text.slice, Text.slice, h]

/-- Texts with one beginning have one shorter beginning. -/
theorem take_congr_of_le {t u : Text} {i j : Nat} (h : t.take j = u.take j) (hij : i ≤ j) :
    t.take i = u.take i := by
  have := congrArg (List.take i) h
  rwa [List.take_take, List.take_take, Nat.min_eq_left hij] at this

/-- A slice that is not empty begins inside the text and ends behind its beginning. -/
theorem bounds_of_slice_ne_nil {t : Text} {i j : Nat} (h : t.slice i j ≠ []) :
    i < j ∧ i < t.length := by
  have hpos : 0 < (t.slice i j).length := List.length_pos_iff.mpr h
  simp only [Text.slice, List.length_drop, List.length_take] at hpos
  omega

/-! ## The loop from right to left -/

variable {old new : Text}

theorem cutOut_ne_nil (column : Nat) (spans : List (Nat × Nat)) (t : Text) :
    cutOut old column spans t ≠ [] := by
  induction spans generalizing column t with
  | nil => simp [cutOut]
  | cons s spans ih =>
    rw [cutOut]
    split
    · simp
    · exact ih column t

/-- Nothing is cut out of the empty text. -/
theorem cutOut_nil (hold : old ≠ []) (column : Nat) (spans : List (Nat × Nat)) :
    cutOut old column spans [] = [[]] := by
  induction spans generalizing column with
  | nil => rfl
  | cons s spans ih =>
    have hslice : Text.slice [] (s.1 - column) (s.2 - column) ≠ old := by
      simpa [Text.slice] using hold.symm
    rw [cutOut, if_neg hslice, ih]

/-- **Cutting loses nothing**: the old text between the gaps is the text again. -/
theorem intercalate_cutOut {column : Nat} {spans : List (Nat × Nat)}
    (hold : old ≠ []) (hsep : Separated column spans) (t : Text) :
    old.intercalate (cutOut old column spans t) = t := by
  induction spans generalizing column t with
  | nil => simp [cutOut]
  | cons s spans ih =>
    rw [cutOut]
    split
    · next hs =>
      have hlt := (bounds_of_slice_ne_nil (hs ▸ hold)).1
      rw [intercalate_cons_ne_nil (cutOut_ne_nil _ _ _), ih hsep.behind]
      have := Text.splice_slice t (Nat.le_of_lt hlt)
      rwa [hs, Text.splice, List.append_assoc] at this
    · exact ih hsep.tail t

/-- Replacing at places behind a column does not change the text up to that column. -/
theorem take_foldr_replaceSpan (hold : old ≠ []) {column : Nat} {spans : List (Nat × Nat)}
    (h : ∀ s ∈ spans, column ≤ s.1) (line : Text) :
    (spans.foldr (replaceSpan old new) line).take column = line.take column := by
  induction spans with
  | nil => rfl
  | cons s spans ih =>
    have hrest := ih fun u hu => h u (List.mem_cons_of_mem _ hu)
    rw [List.foldr_cons]
    generalize spans.foldr (replaceSpan old new) line = l at hrest ⊢
    rw [replaceSpan]
    split
    · next hs =>
      have hlen := (bounds_of_slice_ne_nil (hs ▸ hold)).2
      have hcol := h s (by simp)
      rw [Text.splice, List.append_assoc, List.take_append_of_le_length (by rw [List.length_take]; omega),
        List.take_take, Nat.min_eq_left hcol, hrest]
    · exact hrest

/-- **The loop as an interleaving.** Replacing separated places from right to left puts the new text
    between the gaps of the original line. -/
theorem foldr_replaceSpan (hold : old ≠ []) {column : Nat} {spans : List (Nat × Nat)}
    (hsep : Separated column spans) (line : Text) :
    spans.foldr (replaceSpan old new) line =
      line.take column ++ new.intercalate (cutOut old column spans (line.drop column)) := by
  induction spans generalizing column with
  | nil => simp [cutOut]
  | cons s spans ih =>
    have hcol : column ≤ s.1 := hsep.1 s (by simp)
    have hfront : (spans.foldr (replaceSpan old new) line).take s.2 = line.take s.2 :=
      take_foldr_replaceSpan hold hsep.behind.1 line
    rw [List.foldr_cons, replaceSpan, slice_congr_of_take hfront, cutOut, slice_drop _ hcol]
    split
    · next hs =>
      obtain ⟨hlt, hlen⟩ := bounds_of_slice_ne_nil (hs ▸ hold)
      have hbegin : (spans.foldr (replaceSpan old new) line).take s.1 = line.take s.1 :=
        take_congr_of_le hfront (Nat.le_of_lt hlt)
      -- behind the place stands what the places to the right have become
      have hbehind : (spans.foldr (replaceSpan old new) line).drop s.2 =
          new.intercalate (cutOut old s.2 spans (line.drop s.2)) := by
        rw [ih hsep.behind, List.drop_append, List.drop_take_self, List.nil_append,
          List.length_take]
        by_cases hstop : s.2 ≤ line.length
        · rw [Nat.min_eq_left hstop, Nat.sub_self, List.drop_zero]
        · have hnil : line.drop s.2 = [] := List.drop_eq_nil_of_le (by omega)
          rw [hnil, cutOut_nil hold, List.intercalate_singleton, List.drop_nil]
      have hgap : line.take column ++ (line.drop column).take (s.1 - column) = line.take s.1 := by
        rw [← List.take_add, show column + (s.1 - column) = s.1 by omega]
      rw [Text.splice, hbegin, hbehind, intercalate_cons_ne_nil (cutOut_ne_nil _ _ _), List.drop_drop,
        show column + (s.2 - column) = s.2 by omega, ← hgap]
      simp only [List.append_assoc]
    · exact ih hsep.tail

/-! ## The planner's loop -/

/-- Occurrences are taken from right to left. -/
theorem pairwise_rightToLeft (os : List Occurrence) :
    (rightToLeft os).Pairwise fun a b => b.span.1 ≤ a.span.1 := by
  have htrans : ∀ a b c : Occurrence,
      decide (b.range.start.character ≤ a.range.start.character) = true →
      decide (c.range.start.character ≤ b.range.start.character) = true →
      decide (c.range.start.character ≤ a.range.start.character) = true := by
    simp only [decide_eq_true_eq]
    intro a b c h1 h2
    omega
  have htotal : ∀ a b : Occurrence,
      (decide (b.range.start.character ≤ a.range.start.character) ||
        decide (a.range.start.character ≤ b.range.start.character)) = true := by
    simp only [Bool.or_eq_true, decide_eq_true_eq]
    intro a b
    omega
  exact (List.pairwise_mergeSort htrans htotal os).imp of_decide_eq_true

theorem perm_rightToLeft (os : List Occurrence) : (rightToLeft os).Perm os := List.mergeSort_perm os _

/-- Occurrences that stand one behind the other are taken in reverse. -/
theorem rightToLeft_eq_reverse {os : List Occurrence}
    (hdisj : os.Pairwise fun a b => a.span.2 ≤ b.span.1)
    (hwide : ∀ o ∈ os, o.span.1 < o.span.2) : rightToLeft os = os.reverse := by
  have hstrict : os.Pairwise fun a b => a.span.1 < b.span.1 := by
    refine hdisj.imp_of_mem fun {a b} ha _ hab => ?_
    have := hwide a ha
    omega
  have hsorted : os.reverse.Pairwise fun a b => b.span.1 ≤ a.span.1 :=
    List.pairwise_reverse.mpr (hstrict.imp Nat.le_of_lt)
  refine List.Perm.eq_of_pairwise ?_ (pairwise_rightToLeft os) hsorted
    ((perm_rightToLeft os).trans (List.reverse_perm os).symm)
  -- occurrences with one start are one occurrence
  intro a b ha hb hab hba
  have ha : a ∈ os := (perm_rightToLeft os).mem_iff.mp ha
  have hb : b ∈ os := List.mem_reverse.mp hb
  have hstarts : (os.map (·.span.1)).Nodup := by
    rw [List.nodup_iff_pairwise_ne, List.pairwise_map]
    exact hstrict.imp Nat.ne_of_lt
  exact List.inj_on_of_nodup_map hstarts ha hb (Nat.le_antisymm hba hab)

/-- **Replacing tags from right to left is replacing them at once.** -/
theorem replaceTags_eq_intercalate (hold : old ≠ []) {os : List Occurrence}
    (hdisj : os.Pairwise fun a b => a.span.2 ≤ b.span.1)
    (hwide : ∀ o ∈ os, o.span.1 < o.span.2) (line : Text) :
    replaceTags old new line os =
      new.intercalate (cutOut old 0 (os.map Occurrence.span) line) := by
  have hsep : Separated 0 (os.map Occurrence.span) :=
    ⟨fun _ _ => Nat.zero_le _, List.pairwise_map.mpr hdisj⟩
  have hloop : (os.map Occurrence.span).foldr (replaceSpan old new) line =
      line.take 0 ++ new.intercalate (cutOut old 0 (os.map Occurrence.span) (line.drop 0)) :=
    foldr_replaceSpan hold hsep line
  rw [List.take_zero, List.nil_append, List.drop_zero, List.foldr_map] at hloop
  rw [replaceTags, rightToLeft_eq_reverse hdisj hwide, List.foldl_reverse, ← hloop]
  rfl

theorem replaceTags_nil (old new line : Text) : replaceTags old new line [] = line := by
  simp [replaceTags, rightToLeft]

theorem replaceTagAt_cases (old new t : Text) (o : Occurrence) :
    replaceTagAt old new t o = t ∨
      t.slice o.span.1 o.span.2 = old ∧ replaceTagAt old new t o = t.splice o.span.1 o.span.2 new := by
  by_cases h : t.slice o.span.1 o.span.2 = old
  · exact Or.inr ⟨h, if_pos h⟩
  · exact Or.inl (if_neg h)

/-- There is nothing to replace in an empty line. -/
theorem replaceTags_empty_line (hold : old ≠ []) (os : List Occurrence) :
    replaceTags old new [] os = [] := by
  rw [replaceTags]
  induction rightToLeft os with
  | nil => rfl
  | cons o os ih =>
    rcases replaceTagAt_cases old new [] o with hsame | ⟨hread, -⟩
    · rwa [List.foldl_cons, hsame]
    · exact absurd (by simpa [Text.slice] using hread.symm) hold

/-- Replacing brings in no character but those of the new text. -/
theorem mem_of_mem_replaceTags {c : Char} {line : Text} {os : List Occurrence}
    (hc : c ∈ replaceTags old new line os) : c ∈ line ∨ c ∈ new := by
  rw [replaceTags] at hc
  generalize rightToLeft os = places at hc
  induction places generalizing line with
  | nil => exact Or.inl hc
  | cons o os ih =>
    rcases ih hc with hc | hc
    · rcases replaceTagAt_cases old new line o with hsame | ⟨-, hsplice⟩
      · exact Or.inl (hsame ▸ hc)
      · rw [hsplice, Text.splice, List.mem_append, List.mem_append] at hc
        rcases hc with (hc | hc) | hc
        · exact Or.inl (List.mem_of_mem_take hc)
        · exact Or.inr hc
        · exact Or.inl (List.mem_of_mem_drop hc)
    · exact Or.inr hc

/-- Replacing by a text that is not empty does not empty a line. -/
theorem replaceTags_ne_nil (hnew : new ≠ []) {line : Text} (hline : line ≠ [])
    (os : List Occurrence) : replaceTags old new line os ≠ [] := by
  rw [replaceTags]
  induction rightToLeft os generalizing line with
  | nil => exact hline
  | cons o os ih =>
    refine ih ?_
    rcases replaceTagAt_cases old new line o with hsame | ⟨-, hsplice⟩
    · rwa [hsame]
    · simp [hsplice, Text.splice, hnew]

/-! ## What stands behind the places -/

/-- What stands right behind the places that were cut out, as the gaps show it: a gap begins like the
    text behind its place as long as the tag text at its head is concerned. -/
theorem forall_tail_cutOut_iff {p : Text → Prop} {column : Nat} {spans : List (Nat × Nat)}
    (hold : old ≠ []) (hsep : Separated column spans) (t : Text)
    (hp : ∀ g gs, p (old.intercalate (g :: gs)) ↔ p g) :
    (∀ g ∈ (cutOut old column spans t).tail, p g) ↔
      ∀ s ∈ spans, t.slice (s.1 - column) (s.2 - column) = old → p (t.drop (s.2 - column)) := by
  induction spans generalizing column t with
  | nil => simp [cutOut]
  | cons s spans ih =>
    have hcol : column ≤ s.1 := hsep.1 s (by simp)
    rw [cutOut, List.forall_mem_cons]
    split
    · next hs =>
      have hlt := (bounds_of_slice_ne_nil (hs ▸ hold)).1
      obtain ⟨g, gs, hgaps⟩ : ∃ g gs, cutOut old s.2 spans (t.drop (s.2 - column)) = g :: gs :=
        List.exists_cons_of_ne_nil (cutOut_ne_nil _ _ _)
      have hbehind := ih hsep.behind (t.drop (s.2 - column))
      rw [hgaps, List.tail_cons] at hbehind
      have hhead : p (t.drop (s.2 - column)) ↔ p g := by
        rw [← hp g gs, ← hgaps, intercalate_cutOut hold hsep.behind]
      -- the places further to the right, counted from the end of this one
      have hrest : (∀ u ∈ spans, Text.slice (t.drop (s.2 - column)) (u.1 - s.2) (u.2 - s.2) = old →
            p ((t.drop (s.2 - column)).drop (u.2 - s.2))) ↔
          ∀ u ∈ spans, t.slice (u.1 - column) (u.2 - column) = old → p (t.drop (u.2 - column)) := by
        refine forall_congr' fun u => forall_congr' fun hu => ?_
        have hu1 : s.2 ≤ u.1 := hsep.behind.1 u hu
        have hslice : Text.slice (t.drop (s.2 - column)) (u.1 - s.2) (u.2 - s.2) =
            t.slice (u.1 - column) (u.2 - column) := by
          have hle : s.2 - column ≤ u.1 - column := by omega
          have := slice_drop t hle (u.2 - column)
          rw [← this]
          congr 1 <;> omega
        rw [hslice]
        refine forall_congr' fun hread => ?_
        have := (bounds_of_slice_ne_nil (hread ▸ hold)).1
        rw [List.drop_drop, show s.2 - column + (u.2 - s.2) = u.2 - column by omega]
      rw [List.tail_cons, hgaps, List.forall_mem_cons, hbehind, hrest, hhead]
      simp [hs]
    · next hs => simp [hs, ih hsep.tail]

/-! ## Where the pieces of an interleaving stand -/

/-- The places of the pieces, `width` columns wide, between gaps the first of which begins at
    `column`. -/
def spansOf (width : Nat) : (column : Nat) → List Text → List (Nat × Nat)
  | _, [] => []
  | _, [_] => []
  | column, g :: h :: gs =>
    (column + g.length, column + g.length + width) ::
      spansOf width (column + g.length + width) (h :: gs)

/-- Cutting an interleaving at its pieces gives the gaps. -/
theorem cutOut_spansOf (old : Text) (column : Nat) {gs : List Text} (hgs : gs ≠ []) :
    cutOut old column (spansOf old.length column gs) (old.intercalate gs) = gs := by
  induction gs generalizing column with
  | nil => exact absurd rfl hgs
  | cons g gs ih =>
    cases gs with
    | nil => simp [spansOf, cutOut]
    | cons h gs =>
      have hstart : column + g.length - column = g.length := by omega
      have hstop : column + g.length + old.length - column = (g ++ old).length := by
        rw [List.length_append]; omega
      have hslice : (g ++ (old ++ old.intercalate (h :: gs))).slice g.length (g ++ old).length
          = old := by
        rw [← List.append_assoc, Text.slice, List.take_left, List.drop_left]
      have hdrop : (g ++ (old ++ old.intercalate (h :: gs))).drop (g ++ old).length =
          old.intercalate (h :: gs) := by
        rw [← List.append_assoc, List.drop_left]
      rw [spansOf, cutOut, hstart, hstop, intercalate_cons_ne_nil (by simp), hslice, if_pos rfl,
        List.take_left, hdrop, ih _ (by simp)]

end HashtagIndex
