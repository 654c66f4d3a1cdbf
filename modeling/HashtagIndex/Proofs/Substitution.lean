import HashtagIndex.Proofs.StalePlan
import Mathlib.Order.Interval.Finset.Nat

/-!
# `Proofs.Substitution` — replacing recorded places all at once

The planner's loop tests and cuts a line that it has already changed. Here is what it computes without
any loop, order or intermediate line: `substitute` walks over the columns of the *original* line once. It
writes the new text where a place begins, nothing where a place goes on, and the character that was there
everywhere else. Which places count is decided on the original line as well (`readingPlaces`).

`Proofs.Weaving` says something similar for places that are known to stand one behind the other. A record
may hold them in any order, and they may be stale: beyond the end of the line, empty, or even with their
end in front of their beginning. So the only thing asked of them here is that no two cover one column.

The induction runs over the places from the left. The place whose turn it is comes last in the loop, and
what all places to its right have made of the line still has the original characters up to its end
(`substitute_behind`). So the loop tests what the original line reads there, and the columns that it cuts
at are the original ones.

## Contents
- `substitute`, and which part of a line a place has to do with.
- `substitute_behind`, `substitute_cons`: the leftmost place.
- `foldr_replaceSpan_eq_substitute`: the loop over places sorted by their beginnings.
- `replaceTags_eq_substitute`, `planned_at_once`: the planner's own loop, and a stale line.
-/

namespace HashtagIndex

/-! ## Substitution -/

/-- Replace places of a text that begins at `column`, all at once. Where a place begins stands the new
    text, no other character that a place covers is left, and every character outside stays. -/
def substitute (new : Text) (places : List (Nat × Nat)) : (column : Nat) → Text → Text
  | _, [] => []
  | column, c :: r =>
    (if ∃ s ∈ places, s.1 = column then new
      else if ∃ s ∈ places, s.1 < column ∧ column < s.2 then []
      else [c]) ++ substitute new places (column + 1) r

variable {old new : Text} {places : List (Nat × Nat)}

theorem substitute_append (column : Nat) (t u : Text) :
    substitute new places column (t ++ u) =
      substitute new places column t ++ substitute new places (column + t.length) u := by
  induction t generalizing column with
  | nil => rfl
  | cons c t ih =>
    rw [List.cons_append, substitute, substitute, ih, List.append_assoc, List.length_cons,
      Nat.add_right_comm, Nat.add_assoc]

/-- Places that begin behind a text have nothing to do with it. -/
theorem substitute_eq_self {column : Nat} {t : Text} (h : ∀ s ∈ places, column + t.length ≤ s.1) :
    substitute new places column t = t := by
  induction t generalizing column with
  | nil => rfl
  | cons c t ih =>
    rw [List.length_cons] at h
    have hbegins : ¬∃ s ∈ places, s.1 = column := by
      rintro ⟨s, hs, rfl⟩
      have := h s hs
      omega
    have hcovers : ¬∃ s ∈ places, s.1 < column ∧ column < s.2 := by
      rintro ⟨s, hs, hlt, -⟩
      have := h s hs
      omega
    rw [substitute, if_neg hbegins, if_neg hcovers, ih fun s hs => by have := h s hs; omega]
    rfl

/-- Nothing is left of a text that a place covers, if no place begins in it. -/
theorem substitute_eq_nil {column : Nat} {t : Text} {s : Nat × Nat} (hs : s ∈ places)
    (hfirst : s.1 < column) (hlast : column + t.length ≤ s.2)
    (hnone : ∀ u ∈ places, u.1 < column ∨ column + t.length ≤ u.1) :
    substitute new places column t = [] := by
  induction t generalizing column with
  | nil => rfl
  | cons c t ih =>
    rw [List.length_cons] at hlast hnone
    have hbegins : ¬∃ u ∈ places, u.1 = column := by
      rintro ⟨u, hu, rfl⟩
      have := hnone u hu
      omega
    have hrest : substitute new places (column + 1) t = [] := by
      refine ih (by omega) (by omega) fun u hu => ?_
      have := hnone u hu
      omega
    rw [substitute, if_neg hbegins, if_pos ⟨s, hs, hfirst, by omega⟩, hrest]
    rfl

/-- Only where places begin and what they cover counts, from the column on at which the text begins. -/
theorem substitute_congr {places' : List (Nat × Nat)} {column : Nat}
    (h : ∀ i, column ≤ i → ((∃ s ∈ places, s.1 = i) ↔ ∃ s ∈ places', s.1 = i) ∧
      ((∃ s ∈ places, s.1 < i ∧ i < s.2) ↔ ∃ s ∈ places', s.1 < i ∧ i < s.2)) (t : Text) :
    substitute new places column t = substitute new places' column t := by
  induction t generalizing column with
  | nil => rfl
  | cons c t ih =>
    obtain ⟨hbegins, hcovers⟩ := h column (Nat.le_refl column)
    rw [substitute, substitute, ih fun i hi => h i (by omega)]
    simp only [hbegins, hcovers]

/-- A place that ends in front of a text has nothing to do with it. -/
theorem substitute_cons_of_le {column : Nat} {s : Nat × Nat} (hwide : s.1 < s.2) (hs : s.2 ≤ column)
    (t : Text) : substitute new (s :: places) column t = substitute new places column t := by
  apply substitute_congr
  intro i hi
  rw [List.exists_mem_cons_iff, List.exists_mem_cons_iff]
  constructor
  · exact or_iff_right fun hbegins => by omega
  · exact or_iff_right fun hcovers => by omega

/-- In what order places are listed, and how often, does not count. -/
theorem substitute_congr_mem {places' : List (Nat × Nat)} (h : ∀ s, s ∈ places ↔ s ∈ places')
    (column : Nat) (t : Text) : substitute new places column t = substitute new places' column t := by
  apply substitute_congr
  intro i _
  simp only [h, and_self]

/-! ## The leftmost place -/

/-- In front of all places a line stays as it is. -/
theorem substitute_behind {j : Nat} (h : ∀ s ∈ places, j ≤ s.1) (line : Text) :
    substitute new places 0 line = line.take j ++ substitute new places j (line.drop j) := by
  by_cases hj : j ≤ line.length
  · have hfront : (line.take j).length = j := by rw [List.length_take, Nat.min_eq_left hj]
    conv => lhs; rw [← List.take_append_drop j line]
    rw [substitute_append, hfront, Nat.zero_add, substitute_eq_self]
    intro s hs
    rw [hfront, Nat.zero_add]
    exact h s hs
  · have hlength : line.length ≤ j := Nat.le_of_not_le hj
    rw [List.take_of_length_le hlength, List.drop_eq_nil_of_le hlength, substitute, List.append_nil]
    refine substitute_eq_self fun s hs => ?_
    have := h s hs
    omega

theorem take_substitute {j : Nat} (h : ∀ s ∈ places, j ≤ s.1) (line : Text) :
    (substitute new places 0 line).take j = line.take j := by
  rw [substitute_behind h]
  by_cases hj : j ≤ line.length
  · rw [List.take_append_of_le_length (by rw [List.length_take]; omega), List.take_take, Nat.min_self]
  · rw [List.drop_eq_nil_of_le (Nat.le_of_not_le hj), substitute, List.append_nil, List.take_take,
      Nat.min_self]

theorem drop_substitute {j : Nat} (h : ∀ s ∈ places, j ≤ s.1) (line : Text) :
    (substitute new places 0 line).drop j = substitute new places j (line.drop j) := by
  rw [substitute_behind h, List.drop_append, List.drop_take_self, List.nil_append, List.length_take]
  by_cases hj : j ≤ line.length
  · rw [Nat.min_eq_left hj, Nat.sub_self, List.drop_zero]
  · rw [List.drop_eq_nil_of_le (Nat.le_of_not_le hj), substitute, List.drop_nil]

/-- **The leftmost place.** The line stays in front of it, the new text stands in its place, and behind
    it the other places are replaced. -/
theorem substitute_cons {line : Text} {s : Nat × Nat} (hreads : line.slice s.1 s.2 ≠ [])
    (h : ∀ u ∈ places, s.2 ≤ u.1) :
    substitute new (s :: places) 0 line =
      line.take s.1 ++ new ++ substitute new places s.2 (line.drop s.2) := by
  obtain ⟨hwide, hinside⟩ := bounds_of_slice_ne_nil hreads
  have hfront : ∀ u ∈ s :: places, s.1 ≤ u.1 := by
    rw [List.forall_mem_cons]
    refine ⟨Nat.le_refl _, fun u hu => ?_⟩
    have := h u hu
    omega
  have hlength : (line.slice s.1 s.2).length ≤ s.2 - s.1 := by
    simp only [Text.slice, List.length_drop, List.length_take]
    omega
  have hcut : line.drop s.1 = line.slice s.1 s.2 ++ line.drop s.2 :=
    (Text.slice_append_drop line (Nat.le_of_lt hwide)).symm
  -- the place itself: the new text at its first column, nothing at the others
  have hplace : substitute new (s :: places) s.1 (line.slice s.1 s.2) = new := by
    obtain ⟨c, r, hslice⟩ := List.exists_cons_of_ne_nil hreads
    rw [hslice, List.length_cons] at hlength
    have hrest : substitute new (s :: places) (s.1 + 1) r = [] := by
      refine substitute_eq_nil List.mem_cons_self (by omega) (by omega) ?_
      rw [List.forall_mem_cons]
      refine ⟨Or.inl (by omega), fun u hu => Or.inr ?_⟩
      have := h u hu
      omega
    rw [hslice, substitute, if_pos ⟨s, List.mem_cons_self, rfl⟩, hrest, List.append_nil]
  -- what stands behind the place begins at its end, unless the line ends before
  have hbehind : substitute new (s :: places) (s.1 + (line.slice s.1 s.2).length) (line.drop s.2) =
      substitute new places s.2 (line.drop s.2) := by
    by_cases hstop : s.2 ≤ line.length
    · have hend : s.1 + (line.slice s.1 s.2).length = s.2 := by
        simp only [Text.slice, List.length_drop, List.length_take]
        omega
      rw [hend, substitute_cons_of_le hwide (Nat.le_refl _)]
    · rw [List.drop_eq_nil_of_le (Nat.le_of_not_le hstop), substitute, substitute]
  rw [substitute_behind hfront, hcut, substitute_append, hplace, hbehind, List.append_assoc]

/-! ## The loop -/

/-- Of two places that share no column, one that is not empty begins behind one that begins in front of
    it. -/
theorem le_of_disjoint {s u : Nat × Nat} (hsorted : s.1 ≤ u.1)
    (hdisj : Disjoint (Finset.Ico s.1 s.2) (Finset.Ico u.1 u.2)) (hu : u.1 < u.2) : s.2 ≤ u.1 := by
  by_contra hlt
  have hshared : u.1 ∈ Finset.Ico s.1 s.2 := Finset.mem_Ico.mpr ⟨hsorted, by omega⟩
  exact Finset.disjoint_left.mp hdisj hshared (Finset.mem_Ico.mpr ⟨Nat.le_refl _, hu⟩)

/-- **The loop is a substitution**, by induction over the places from the left. The first of them is the
    last to be replaced, in a line that is still the original one up to its end. -/
theorem foldr_replaceSpan_eq_substitute (hold : old ≠ []) {spans : List (Nat × Nat)}
    (hsorted : spans.Pairwise fun s u => s.1 ≤ u.1)
    (hdisj : spans.Pairwise fun s u => Disjoint (Finset.Ico s.1 s.2) (Finset.Ico u.1 u.2))
    (line : Text) :
    spans.foldr (replaceSpan old new) line =
      substitute new (spans.filter fun s => line.slice s.1 s.2 = old) 0 line := by
  induction spans with
  | nil => exact (substitute_eq_self (by simp)).symm
  | cons s spans ih =>
    obtain ⟨hsorted₀, hsorted⟩ := List.pairwise_cons.mp hsorted
    obtain ⟨hdisj₀, hdisj⟩ := List.pairwise_cons.mp hdisj
    rw [List.foldr_cons, ih hsorted hdisj, replaceSpan]
    by_cases hwide : s.1 < s.2
    · have hright : ∀ u ∈ spans.filter (fun u => line.slice u.1 u.2 = old), s.2 ≤ u.1 := by
        intro u hu
        obtain ⟨hu, hreads⟩ := List.mem_filter.mp hu
        have hreads : line.slice u.1 u.2 = old := of_decide_eq_true hreads
        exact le_of_disjoint (hsorted₀ u hu) (hdisj₀ u hu) (bounds_of_slice_ne_nil (hreads ▸ hold)).1
      generalize hplaces : spans.filter (fun u => line.slice u.1 u.2 = old) = right at hright ⊢
      have hfront : (substitute new right 0 line).take s.2 = line.take s.2 := take_substitute hright line
      rw [slice_congr_of_take hfront]
      split
      · next hreads =>
        have hbegin : (substitute new right 0 line).take s.1 = line.take s.1 :=
          take_congr_of_le hfront (Nat.le_of_lt hwide)
        rw [List.filter_cons_of_pos (by simpa using hreads), hplaces, Text.splice, hbegin,
          drop_substitute hright, substitute_cons (hreads ▸ hold) hright]
      · next hreads => rw [List.filter_cons_of_neg (by simpa using hreads), hplaces]
    · -- an empty place reads as nothing in every line
      have hempty : ∀ t : Text, t.slice s.1 s.2 ≠ old := by
        intro t hreads
        exact hwide (bounds_of_slice_ne_nil (hreads ▸ hold)).1
      rw [if_neg (hempty _), List.filter_cons_of_neg (by simpa using hempty line)]

/-! ## The planner's loop -/

/-- The columns that an occurrence covers. -/
def Occurrence.columns (o : Occurrence) : Finset Nat := Finset.Ico o.span.1 o.span.2

/-- Of the recorded places of a line, those at which it reads as a text. -/
def readingPlaces (old line : Text) (os : List Occurrence) : List (Nat × Nat) :=
  (os.map Occurrence.span).filter fun s => line.slice s.1 s.2 = old

/-- The order in which occurrences are stored does not count. -/
theorem mem_readingPlaces_congr {line : Text} {os us : List Occurrence} (h : us.Perm os)
    (s : Nat × Nat) : s ∈ readingPlaces old line us ↔ s ∈ readingPlaces old line os :=
  ((h.map Occurrence.span).filter _).mem_iff

/-- **Replacing tags from right to left is substitution** at the places at which the original line reads
    as the old text. -/
theorem replaceTags_eq_substitute (hold : old ≠ []) {os : List Occurrence}
    (hdisj : os.Pairwise fun a b => Disjoint a.columns b.columns) (line : Text) :
    replaceTags old new line os = substitute new (readingPlaces old line os) 0 line := by
  let places := (rightToLeft os).reverse.map Occurrence.span
  have hloop : replaceTags old new line os = places.foldr (replaceSpan old new) line := by
    rw [replaceTags, List.foldr_map, List.foldr_reverse]
    rfl
  have hsorted : places.Pairwise fun s u => s.1 ≤ u.1 := by
    rw [List.pairwise_map, List.pairwise_reverse]
    exact pairwise_rightToLeft os
  have hperm : (rightToLeft os).reverse.Perm os :=
    (List.reverse_perm _).trans (perm_rightToLeft os)
  have hdisj' : places.Pairwise fun s u => Disjoint (Finset.Ico s.1 s.2) (Finset.Ico u.1 u.2) := by
    rw [List.pairwise_map]
    exact (hperm.pairwise_iff fun hab => hab.symm).mpr hdisj
  rw [hloop, foldr_replaceSpan_eq_substitute hold hsorted hdisj']
  show substitute new (readingPlaces old line (rightToLeft os).reverse) 0 line = _
  exact substitute_congr_mem (mem_readingPlaces_congr hperm) 0 line

/-- **A planned line has all its recorded places replaced at once.** Whatever a line holds now, and
    however many occurrences are recorded for it: if no two of them cover one column, the loop gives the
    line with the new text at those places that read as the old tag in the original line, and with every
    other character as it was. The new text may have any length, and the order in which the occurrences
    are stored does not count. The new lines of a plan are such lines. -/
theorem planned_at_once :
    (∀ (path : TagPath) (new line : Text) (os : List Occurrence),
      (os.Pairwise fun a b => Disjoint a.columns b.columns) →
      replaceTags (writtenTag path) new line os =
        substitute new (readingPlaces (writtenTag path) line os) 0 line ∧
      ∀ us, us.Perm os →
        replaceTags (writtenTag path) new line us = replaceTags (writtenTag path) new line os) ∧
    ∀ (d : Disk) (s : Index) (path : TagPath) (name : Text) (edits : List Edit),
      planRename d s path name = .ok edits → ∀ e ∈ edits,
        let os := (occurrencesOf s path e.file).filter (·.range.start.line = e.line)
        (os.Pairwise fun a b => Disjoint a.columns b.columns) →
        e.new = substitute (writtenTag (renamedPath path name))
          (readingPlaces (writtenTag path) e.old os) 0 e.old := by
  constructor
  · intro path new line os hdisj
    have hold := writtenTag_ne_nil path
    refine ⟨replaceTags_eq_substitute hold hdisj line, ?_⟩
    intro us hperm
    have hdisj' : us.Pairwise fun a b => Disjoint a.columns b.columns :=
      (hperm.pairwise_iff fun hab => hab.symm).mpr hdisj
    rw [replaceTags_eq_substitute hold hdisj line, replaceTags_eq_substitute hold hdisj' line]
    exact substitute_congr_mem (mem_readingPlaces_congr hperm) 0 line
  · intro d s path name edits hplan e he os hdisj
    obtain ⟨-, hplan⟩ := planEdits_of_mem_planRename hplan he
    obtain ⟨text, -, hedit⟩ := exists_of_mem_planEdits hplan he
    obtain ⟨-, -, hnew, -⟩ := mem_planLines.mp hedit
    rw [hnew]
    exact replaceTags_eq_substitute (writtenTag_ne_nil path) hdisj e.old

/-! ## A stale line -/

/-- An occurrence of a nested tag between two columns. -/
def nestedAt (start stop : Nat) : Occurrence := ⟨[['a'], ['b']], [], ⟨⟨0, start⟩, ⟨0, stop⟩⟩⟩

/-- Places in no order. In the line below two of them read as the tag and one reads as something else;
    one is beyond the end, and one ends before it begins. -/
def nestedPlaces : List Occurrence :=
  [nestedAt 7 11, nestedAt 0 2, nestedAt 20 24, nestedAt 2 6, nestedAt 5 3]

/-- A longer and a shorter tag are put into the line in the places that read as the old one. A plan for
    a note of which only the beginning is as it was when it was scanned replaces that one place. -/
theorem stale_line_at_once :
    (∀ us, us.Perm nestedPlaces →
      replaceTags (writtenTag [['a'], ['b']]) "#a/long".toList "x #a/b #a/b y".toList us =
        "x #a/long #a/long y".toList) ∧
    replaceTags (writtenTag [['a'], ['b']]) "#c".toList "x #a/b #a/b y".toList nestedPlaces =
      "x #c #c y".toList ∧
    ∃ e, planRename (noteDisk "#a/b - #a/b".toList) (noteSnapshot "#a/b #a/b #a/b".toList)
        [['a'], ['b']] "long".toList = .ok [e] ∧
      e.new = substitute "#a/long".toList [(0, 4)] 0 e.old := by
  have hdisj : nestedPlaces.Pairwise fun a b => Disjoint a.columns b.columns := by decide
  obtain ⟨hlonger, horder⟩ := planned_at_once.1 [['a'], ['b']] "#a/long".toList
    "x #a/b #a/b y".toList nestedPlaces hdisj
  obtain ⟨hshorter, -⟩ := planned_at_once.1 [['a'], ['b']] "#c".toList "x #a/b #a/b y".toList
    nestedPlaces hdisj
  refine ⟨fun us hperm => ?_, ?_, ?_⟩
  · rw [horder us hperm, hlonger]
    decide
  · rw [hshorter]
    decide
  · let e : Edit := ⟨notePath, 0, "#a/b - #a/b".toList, "#a/long - #a/b".toList⟩
    have hplan : planRename (noteDisk "#a/b - #a/b".toList) (noteSnapshot "#a/b #a/b #a/b".toList)
        [['a'], ['b']] "long".toList = .ok [e] := by cbv
    refine ⟨e, hplan, ?_⟩
    have hnew := planned_at_once.2 _ _ _ _ _ hplan e List.mem_cons_self (by decide)
    exact hnew.trans (by decide)

end HashtagIndex
