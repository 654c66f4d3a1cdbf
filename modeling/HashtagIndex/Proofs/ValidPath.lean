import HashtagIndex.Tag.Name
import HashtagIndex.Tag.Parser

/-!
# `Proofs.ValidPath` — the paths that documents can spell

A tag's text is read by cutting it at slashes and written by joining segments with slashes. On paths
whose segments are segments in the scanner's sense the two are inverse, and renaming the last segment
to an accepted name stays among these paths.
-/

namespace HashtagIndex

/-! ## Segment characters -/

theorem isSegmentChar_hash : isSegmentChar '#' = false := by decide

theorem isSegmentChar_slash : isSegmentChar '/' = false := by decide

theorem isSegmentChar_lf : isSegmentChar '\n' = false := by decide

theorem isSegmentChar_cr : isSegmentChar '\r' = false := by decide

theorem isSegment_iff {t : Text} : isSegment t = true ↔ t ≠ [] ∧ ∀ c ∈ t, isSegmentChar c = true := by
  simp [isSegment]

/-- A segment holds no character that is not a segment character. -/
theorem not_mem_of_isSegment {t : Text} {c : Char} (ht : isSegment t = true)
    (hc : isSegmentChar c = false) : c ∉ t := by
  intro hm
  have := (isSegment_iff.mp ht).2 c hm
  simp [hc] at this

/-! ## Valid paths -/

/-- A path that a document can spell: it has segments, and each of them is one. -/
def ValidPath (p : TagPath) : Prop := p ≠ [] ∧ ∀ s ∈ p, isSegment s = true

theorem ValidPath.no_slash {p : TagPath} (hp : ValidPath p) : ∀ s ∈ p, '/' ∉ s :=
  fun s hs => not_mem_of_isSegment (hp.2 s hs) isSegmentChar_slash

/-- Reading a valid path back from its text. -/
theorem ValidPath.splitOn_join {p : TagPath} (hp : ValidPath p) :
    (joinSegments p).splitOn '/' = p :=
  List.splitOn_intercalate '/' hp.no_slash hp.1

theorem joinSegments_splitOn (t : Text) : joinSegments (t.splitOn '/') = t :=
  List.intercalate_splitOn '/'

theorem joinSegments_cons_cons (s u : Text) (p : TagPath) :
    joinSegments (s :: u :: p) = s ++ '/' :: joinSegments (u :: p) := by
  simp [joinSegments, List.intercalate_cons_cons]

/-- The last segment of a path stands at the end of its text. -/
theorem joinSegments_concat {p : TagPath} (hp : p ≠ []) (s : Text) :
    joinSegments (p ++ [s]) = joinSegments p ++ '/' :: s := by
  induction p with
  | nil => exact absurd rfl hp
  | cons u q ih =>
    cases q with
    | nil => simp [joinSegments]
    | cons v r =>
      have hstep := ih (by simp)
      rw [List.cons_append, List.cons_append] at *
      rw [joinSegments_cons_cons, hstep, joinSegments_cons_cons]
      simp

/-- Every character of a valid path's text is a segment character or a slash. -/
theorem ValidPath.mem_join {p : TagPath} (hp : ValidPath p) {c : Char} (hc : c ∈ joinSegments p) :
    isSegmentChar c = true ∨ c = '/' := by
  rw [joinSegments] at hc
  rcases p with _ | ⟨s, p⟩
  · exact absurd rfl hp.1
  · induction p generalizing s with
    | nil =>
      rw [List.intercalate_singleton] at hc
      exact Or.inl ((isSegment_iff.mp (hp.2 s (by simp))).2 c hc)
    | cons u q ih =>
      rw [List.intercalate_cons_cons, List.append_assoc, List.mem_append, List.mem_append] at hc
      rcases hc with hc | hc | hc
      · exact Or.inl ((isSegment_iff.mp (hp.2 s (by simp))).2 c hc)
      · exact Or.inr (by simpa using hc)
      · exact ih u ⟨by simp, fun t ht => hp.2 t (List.mem_cons_of_mem _ ht)⟩ hc

theorem ValidPath.not_mem_join {p : TagPath} (hp : ValidPath p) {c : Char}
    (hc : isSegmentChar c = false) (hs : c ≠ '/') : c ∉ joinSegments p := by
  intro hm
  rcases hp.mem_join hm with h | h
  · simp [hc] at h
  · exact hs h

theorem ValidPath.not_mem_writtenTag {p : TagPath} (hp : ValidPath p) {c : Char}
    (hc : isSegmentChar c = false) (hs : c ≠ '/') (hh : c ≠ '#') : c ∉ writtenTag p := by
  rw [writtenTag, List.mem_cons, not_or]
  exact ⟨hh, hp.not_mem_join hc hs⟩

/-- The text of a valid path begins with a segment character. -/
theorem ValidPath.startsSegment_join {p : TagPath} (hp : ValidPath p) (r : Text) :
    startsSegment (joinSegments p ++ r) = true := by
  rcases p with _ | ⟨s, p⟩
  · exact absurd rfl hp.1
  · obtain ⟨hne, hall⟩ := isSegment_iff.mp (hp.2 s (by simp))
    obtain ⟨c, s', rfl⟩ := List.exists_cons_of_ne_nil hne
    have hc : isSegmentChar c = true := hall c (by simp)
    cases p with
    | nil => simpa [joinSegments, startsSegment] using hc
    | cons u q => simpa [joinSegments_cons_cons, startsSegment] using hc

/-- A segment in the place of the last one of any segments gives a valid path, even where there was none. -/
theorem validPath_renamedPath {p : TagPath} (hp : ∀ s ∈ p, isSegment s = true) {name : Text}
    (hname : isSegment name = true) : ValidPath (renamedPath p name) := by
  refine ⟨by simp [renamedPath], fun s hs => ?_⟩
  rw [renamedPath, List.mem_append, List.mem_singleton] at hs
  rcases hs with hs | rfl
  · exact hp s (List.dropLast_subset p hs)
  · exact hname

/-- Replacing the last segment by another one keeps a path valid. -/
theorem ValidPath.renamed {p : TagPath} (hp : ValidPath p) {name : Text}
    (hname : isSegment name = true) : ValidPath (renamedPath p name) :=
  validPath_renamedPath hp.2 hname

/-- A path whose last segment is another one is another path. -/
theorem renamedPath_ne {p : TagPath} {name : Text} (h : p.getLast? ≠ some name) :
    renamedPath p name ≠ p := by
  intro he
  rw [← he, renamedPath, List.getLast?_append] at h
  simp at h

/-! ## Accepted names -/

/-- An accepted name is one segment. -/
theorem isSegment_of_checkName {name n : Text} (h : checkName name = .ok n) :
    isSegment name = true := by
  unfold checkName at h
  split at h
  · cases h
  split at h
  · cases h
  split at h
  · cases h
  split at h
  · cases h
  next hseg => simpa using hseg

/-- The blank characters one by one. -/
def blankCodes : List Nat := blankRanges.flatMap fun r => List.range' r.1 (r.2 + 1 - r.1)

theorem mem_blankCodes {c : Char} (h : isBlank c = true) : c.toNat ∈ blankCodes := by
  unfold isBlank inRanges at h
  obtain ⟨r, hr, hrange⟩ := List.any_eq_true.mp h
  rw [Bool.and_eq_true, decide_eq_true_eq, decide_eq_true_eq] at hrange
  exact List.mem_flatMap.mpr ⟨r, hr, List.mem_range'_1.mpr (by omega)⟩

/-- No blank character is a segment character. -/
theorem isSegmentChar_of_isBlank {c : Char} (h : isBlank c = true) : isSegmentChar c = false := by
  have hcodes : ∀ n ∈ blankCodes, isSegmentChar (Char.ofNat n) = false := by decide +kernel
  have hc := hcodes c.toNat (mem_blankCodes h)
  rwa [Char.ofNat_toNat] at hc

/-- No reserved character is a segment character. -/
theorem isSegmentChar_of_reserved {c : Char} (h : c ∈ reservedChars) : isSegmentChar c = false := by
  have hreserved : (reservedChars.all fun d => !isSegmentChar d) = true := by decide
  simpa using List.all_eq_true.mp hreserved c h

/-- A segment breaks none of the rules for names. -/
theorem checkName_of_isSegment {name : Text} (h : isSegment name = true) :
    checkName name = .ok name := by
  obtain ⟨hne, hall⟩ := isSegment_iff.mp h
  have hblank : ¬name.any isBlank = true := by
    intro hany
    obtain ⟨c, hc, hb⟩ := List.any_eq_true.mp hany
    have := hall c hc
    rw [isSegmentChar_of_isBlank hb] at this
    cases this
  have hreserved : ¬name.any (reservedChars.contains ·) = true := by
    intro hany
    obtain ⟨c, hc, hr⟩ := List.any_eq_true.mp hany
    have := hall c hc
    rw [isSegmentChar_of_reserved (List.contains_iff_mem.mp hr)] at this
    cases this
  unfold checkName
  rw [if_neg hne, if_neg hblank, if_neg hreserved, if_neg (by simp [h])]

/-- **A name is accepted exactly if it is one segment**, and it is accepted as it is. The other rules
    only say what is wrong. -/
theorem checkName_eq_ok_iff {name n : Text} :
    checkName name = .ok n ↔ isSegment name = true ∧ n = name := by
  constructor
  · intro h
    have hsegment := isSegment_of_checkName h
    exact ⟨hsegment, Except.ok.inj (h.symm.trans (checkName_of_isSegment hsegment))⟩
  · rintro ⟨hsegment, rfl⟩
    exact checkName_of_isSegment hsegment

end HashtagIndex
