import HashtagIndex.Proofs.ValidPath

/-!
# `Proofs.Tagging` — what the scanner of a line finds

The scanner looks at one character after the other, but what it finds at one place depends only on
what follows that place, and no further than to the next hash sign. Two facts carry everything that
is said about rewritten lines later on:

* **A hash sign cuts a line** (`tagsInLine_append_hash`): no tag reaches over it, so the tags in front
  of it and the tags from it on can be looked for separately.
* **A written tag is found, with whatever follows it glued on** (`tagsInLine_writtenTag`): the tag that
  begins there has the written text and then the longest tag text at the head of the rest.

## Contents
- `tagBody`: what stops it, what passes through it, what it is made of.
- `tagsInLine`: cutting, written tags, moving to another place.
- `tagsInLine_bounds`, `tagsInLine_disjoint`, `slice_of_mem_tagsInLine`: where the found tags stand;
  `exists_mem_tagsInLine_iff`: when a tag stands where its text does.
- `filter_tagsInLines`: the lines of a document; `ValidPath.parseTags_writtenTag`: a text that is one tag.
-/

namespace HashtagIndex

/-! ## The longest tag text at the head of a text -/

theorem startsSegment_append_hash (t r : Text) :
    startsSegment (t ++ '#' :: r) = startsSegment t := by
  cases t with
  | nil => exact isSegmentChar_hash
  | cons c t => rfl

/-- A tag text ends in front of a hash sign. -/
theorem tagBody_append_hash (t r : Text) : tagBody (t ++ '#' :: r) = tagBody t := by
  induction t with
  | nil => simp [tagBody, isSegmentChar_hash]
  | cons c t ih => simp only [List.cons_append, tagBody, startsSegment_append_hash, ih]

/-- Segment characters are taken one by one. -/
theorem tagBody_append_of_forall {s : Text} (hs : ∀ c ∈ s, isSegmentChar c = true) (r : Text) :
    tagBody (s ++ r) = s ++ tagBody r := by
  induction s with
  | nil => rfl
  | cons c s ih =>
    have hc : isSegmentChar c = true := hs c (by simp)
    rw [List.cons_append, tagBody, hc, Bool.true_or, if_pos rfl,
      ih fun d hd => hs d (List.mem_cons_of_mem _ hd), List.cons_append]

/-- A slash is taken when a segment character follows it. -/
theorem tagBody_slash {r : Text} (hr : startsSegment r = true) :
    tagBody ('/' :: r) = '/' :: tagBody r := by
  simp [tagBody, hr]

/-- **The text of a valid path passes through**, and what follows it is read on from its end. -/
theorem ValidPath.tagBody_join {p : TagPath} (hp : ValidPath p) (r : Text) :
    tagBody (joinSegments p ++ r) = joinSegments p ++ tagBody r := by
  rcases p with _ | ⟨s, p⟩
  · exact absurd rfl hp.1
  · induction p generalizing s with
    | nil =>
      rw [joinSegments, List.intercalate_singleton]
      exact tagBody_append_of_forall (isSegment_iff.mp (hp.2 s (by simp))).2 r
    | cons u q ih =>
      have hq : ValidPath (u :: q) := ⟨by simp, fun t ht => hp.2 t (List.mem_cons_of_mem _ ht)⟩
      rw [joinSegments_cons_cons, List.append_assoc, List.cons_append,
        tagBody_append_of_forall (isSegment_iff.mp (hp.2 s (by simp))).2,
        tagBody_slash (hq.startsSegment_join r), ih u hq, List.append_assoc, List.cons_append]

/-- A tag text is a beginning of what it is read from. -/
theorem tagBody_isPrefix (t : Text) : tagBody t <+: t := by
  induction t with
  | nil => exact List.prefix_rfl
  | cons c t ih =>
    rw [tagBody]
    split
    · exact List.cons_prefix_cons.mpr ⟨rfl, ih⟩
    · exact List.nil_prefix

theorem not_mem_tagBody {c : Char} (hc : isSegmentChar c = false) (hs : c ≠ '/') (t : Text) :
    c ∉ tagBody t := by
  induction t with
  | nil => simp [tagBody]
  | cons d t ih =>
    rw [tagBody]
    split
    · next hd =>
      rw [List.mem_cons, not_or]
      refine ⟨fun he => ?_, ih⟩
      subst he
      simp [hc, hs] at hd
    · simp

/-- The pieces of a tag text: the first is empty only if no segment character begins the text, and
    all others are segments. -/
theorem splitOn_tagBody (t : Text) :
    ∃ s rest, (tagBody t).splitOn '/' = s :: rest ∧ (∀ c ∈ s, isSegmentChar c = true) ∧
      (startsSegment t = true → s ≠ []) ∧ ∀ u ∈ rest, isSegment u = true := by
  induction t with
  | nil => exact ⟨[], [], by simp [tagBody], by simp, by simp [startsSegment], by simp⟩
  | cons c t ih =>
    obtain ⟨s, rest, hsplit, hs, hne, hrest⟩ := ih
    rw [tagBody]
    by_cases hc : isSegmentChar c = true
    · -- the character joins the first piece
      have hslash : (c == '/') = false := by
        rw [beq_eq_false_iff_ne]
        rintro rfl
        simp [isSegmentChar_slash] at hc
      refine ⟨c :: s, rest, ?_, ?_, by simp, hrest⟩
      · rw [hc, Bool.true_or, if_pos rfl, List.splitOn_cons_eq_if_modifyHead, hslash, hsplit]
        rfl
      · intro d hd
        rcases List.mem_cons.mp hd with rfl | hd
        · exact hc
        · exact hs d hd
    · have hc' : isSegmentChar c = false := by simpa using hc
      have hstart : startsSegment (c :: t) = false := hc'
      by_cases hslash : c = '/' ∧ startsSegment t = true
      · -- the slash closes an empty first piece, and the next piece is a segment
        obtain ⟨rfl, ht⟩ := hslash
        refine ⟨[], s :: rest, ?_, by simp, by simp [hstart], ?_⟩
        · simp [ht, List.splitOn_cons_eq_if_modifyHead, hsplit]
        · intro u hu
          rcases List.mem_cons.mp hu with rfl | hu
          · exact isSegment_iff.mpr ⟨hne ht, hs⟩
          · exact hrest u hu
      · refine ⟨[], [], ?_, by simp, by simp [hstart], by simp⟩
        have : (isSegmentChar c || (c == '/' && startsSegment t)) = false := by
          simpa [hc'] using hslash
        simp [this]

/-- A tag text that begins with a segment character spells a valid path. -/
theorem validPath_splitOn_tagBody {t : Text} (h : startsSegment t = true) :
    ValidPath ((tagBody t).splitOn '/') := by
  obtain ⟨s, rest, hsplit, hs, hne, hrest⟩ := splitOn_tagBody t
  rw [hsplit]
  refine ⟨by simp, fun u hu => ?_⟩
  rcases List.mem_cons.mp hu with rfl | hu
  · exact isSegment_iff.mpr ⟨hne h, hs⟩
  · exact hrest u hu

/-! ## Cutting a line -/

section Line

variable (file : Text) (line column : Nat)

theorem tagsInLine_hash {r : Text} (hr : startsSegment r = true) :
    tagsInLine file line column ('#' :: r) =
      { path := (tagBody r).splitOn '/'
        file
        range := ⟨⟨line, column⟩, ⟨line, column + 1 + (tagBody r).length⟩⟩ } ::
        tagsInLine file line (column + 1) r := by
  rw [tagsInLine, if_pos ⟨rfl, hr⟩]

theorem tagsInLine_other {c : Char} {r : Text} (h : ¬(c = '#' ∧ startsSegment r = true)) :
    tagsInLine file line column (c :: r) = tagsInLine file line (column + 1) r := by
  rw [tagsInLine, if_neg h]

/-- A text without a hash sign holds no tag, and what follows it is scanned from its end. -/
theorem tagsInLine_append_of_not_mem {t : Text} (ht : '#' ∉ t) (r : Text) :
    tagsInLine file line column (t ++ r) = tagsInLine file line (column + t.length) r := by
  induction t generalizing column with
  | nil => rfl
  | cons c t ih =>
    rw [List.mem_cons, not_or] at ht
    have hc : ¬(c = '#' ∧ startsSegment (t ++ r) = true) := fun h => ht.1 h.1.symm
    rw [List.cons_append, tagsInLine_other _ _ _ hc, ih (column + 1) ht.2, List.length_cons]
    congr 1
    omega

/-- **A hash sign cuts a line.** -/
theorem tagsInLine_append_hash (t r : Text) :
    tagsInLine file line column (t ++ '#' :: r) =
      tagsInLine file line column t ++ tagsInLine file line (column + t.length) ('#' :: r) := by
  induction t generalizing column with
  | nil => simp [tagsInLine]
  | cons c t ih =>
    have harith : column + 1 + t.length = column + (t.length + 1) := by omega
    by_cases hc : c = '#' ∧ startsSegment t = true
    · obtain ⟨rfl, ht⟩ := hc
      have ht' : startsSegment (t ++ '#' :: r) = true := by rwa [startsSegment_append_hash]
      rw [List.cons_append, tagsInLine_hash _ _ _ ht', tagsInLine_hash _ _ _ ht,
        tagBody_append_hash, ih (column + 1), harith]
      rfl
    · have hc' : ¬(c = '#' ∧ startsSegment (t ++ '#' :: r) = true) := by
        rwa [startsSegment_append_hash]
      rw [List.cons_append, tagsInLine_other _ _ _ hc', tagsInLine_other _ _ _ hc,
        ih (column + 1), harith]
      rfl

/-- **A written tag is found**, with the tag text that follows it glued on; the scan goes on behind
    the written tag. -/
theorem tagsInLine_writtenTag {p : TagPath} (hp : ValidPath p) (r : Text) :
    tagsInLine file line column (writtenTag p ++ r) =
      { path := (joinSegments p ++ tagBody r).splitOn '/'
        file
        range := ⟨⟨line, column⟩,
          ⟨line, column + (writtenTag p).length + (tagBody r).length⟩⟩ } ::
        tagsInLine file line (column + (writtenTag p).length) r := by
  have hnohash : '#' ∉ joinSegments p := hp.not_mem_join isSegmentChar_hash (by decide)
  have hlength : column + 1 + (joinSegments p ++ tagBody r).length =
      column + (writtenTag p).length + (tagBody r).length := by
    simp only [writtenTag, List.length_append, List.length_cons]; omega
  have hskip : column + 1 + (joinSegments p).length = column + (writtenTag p).length := by
    simp only [writtenTag, List.length_cons]; omega
  show tagsInLine file line column ('#' :: (joinSegments p ++ r)) = _
  rw [tagsInLine_hash _ _ _ (hp.startsSegment_join r), hp.tagBody_join, hlength,
    tagsInLine_append_of_not_mem file line _ hnohash, hskip]

end Line

/-! ## The same text at another place -/

/-- An occurrence carried to another document and line and some columns to the right. -/
def Occurrence.moveTo (file : Text) (line columns : Nat) (o : Occurrence) : Occurrence :=
  { o with
    file
    range := ⟨⟨line, columns + o.range.start.character⟩, ⟨line, columns + o.range.stop.character⟩⟩ }

/-- What is found in a text does not depend on where the text stands. -/
theorem tagsInLine_eq_map_moveTo (file : Text) (line column : Nat) (f : Text) (l c : Nat)
    (t : Text) :
    tagsInLine file line (column + c) t = (tagsInLine f l c t).map (·.moveTo file line column) := by
  induction t generalizing c with
  | nil => rfl
  | cons d t ih =>
    by_cases hd : d = '#' ∧ startsSegment t = true
    · obtain ⟨rfl, ht⟩ := hd
      rw [tagsInLine_hash _ _ _ ht, tagsInLine_hash _ _ _ ht, List.map_cons,
        Nat.add_assoc column c 1, ih (c + 1), Occurrence.moveTo,
        Nat.add_assoc column (c + 1) (tagBody t).length]
    · rw [tagsInLine_other _ _ _ hd, tagsInLine_other _ _ _ hd, Nat.add_assoc, ih (c + 1)]

/-- The paths of the tags in a line. -/
def pathsInLine (t : Text) : List TagPath := (tagsInLine [] 0 0 t).map (·.path)

theorem map_path_tagsInLine (file : Text) (line column : Nat) (t : Text) :
    (tagsInLine file line column t).map (·.path) = pathsInLine t := by
  have := tagsInLine_eq_map_moveTo file line column [] 0 0 t
  rw [Nat.add_zero] at this
  rw [this, List.map_map, pathsInLine]
  rfl

/-! ## Where the found tags stand -/

/-- A found tag lies in the scanned text, on the given line of the given document, and is wider than
    its hash sign. -/
theorem tagsInLine_bounds {file : Text} {line column : Nat} {t : Text} {o : Occurrence}
    (ho : o ∈ tagsInLine file line column t) :
    o.file = file ∧ o.range.start.line = line ∧ o.range.stop.line = line ∧
      column ≤ o.range.start.character ∧ o.range.start.character + 1 < o.range.stop.character ∧
      o.range.stop.character ≤ column + t.length := by
  induction t generalizing column with
  | nil => simp [tagsInLine] at ho
  | cons c t ih =>
    have hrest : o ∈ tagsInLine file line (column + 1) t →
        o.file = file ∧ o.range.start.line = line ∧ o.range.stop.line = line ∧
          column ≤ o.range.start.character ∧ o.range.start.character + 1 < o.range.stop.character ∧
          o.range.stop.character ≤ column + (c :: t).length := by
      intro h
      obtain ⟨hf, hl, hl', h1, h2, h3⟩ := ih h
      refine ⟨hf, hl, hl', by omega, h2, ?_⟩
      rw [List.length_cons]; omega
    rw [tagsInLine] at ho
    split at ho
    · next hc =>
      rcases List.mem_cons.mp ho with rfl | ho
      · have hlen := (tagBody_isPrefix t).length_le
        have hpos : tagBody t ≠ [] := by
          intro he
          have := (validPath_splitOn_tagBody hc.2).2 [] (by simp [he])
          simp [isSegment] at this
        have := List.length_pos_iff.mpr hpos
        refine ⟨rfl, rfl, rfl, Nat.le_refl _, ?_, ?_⟩
        · show column + 1 < column + 1 + (tagBody t).length
          omega
        · show column + 1 + (tagBody t).length ≤ column + (c :: t).length
          rw [List.length_cons]; omega
      · exact hrest ho
    · exact hrest ho

/-- The tags of a line stand one behind the other. -/
theorem tagsInLine_disjoint (file : Text) (line column : Nat) (t : Text) :
    (tagsInLine file line column t).Pairwise
      fun a b => a.range.stop.character ≤ b.range.start.character := by
  induction t generalizing column with
  | nil => exact List.Pairwise.nil
  | cons c t ih =>
    rw [tagsInLine]
    split
    · refine List.Pairwise.cons (fun b hb => ?_) (ih (column + 1))
      -- the text of the first tag holds no hash sign, so no other tag begins in it
      obtain ⟨r, hr⟩ := tagBody_isPrefix t
      have hnohash : '#' ∉ tagBody t := not_mem_tagBody isSegmentChar_hash (by decide) t
      rw [← hr, tagsInLine_append_of_not_mem file line _ hnohash] at hb
      exact (tagsInLine_bounds hb).2.2.2.1
    · exact ih (column + 1)

/-- Where a tag was found, its text stands, and its path is a valid one. -/
theorem slice_of_mem_tagsInLine {file : Text} {line : Nat} (front : Text) {t : Text}
    {o : Occurrence} (ho : o ∈ tagsInLine file line front.length t) :
    (front ++ t).slice o.range.start.character o.range.stop.character = writtenTag o.path ∧
      ValidPath o.path := by
  induction t generalizing front with
  | nil => simp [tagsInLine] at ho
  | cons c t ih =>
    have hrest : o ∈ tagsInLine file line (front.length + 1) t →
        (front ++ c :: t).slice o.range.start.character o.range.stop.character =
          writtenTag o.path ∧ ValidPath o.path := by
      intro h
      have := ih (front ++ [c]) (by simpa using h)
      simpa using this
    rw [tagsInLine] at ho
    split at ho
    · next hc =>
      rcases List.mem_cons.mp ho with rfl | ho
      · refine ⟨?_, validPath_splitOn_tagBody hc.2⟩
        obtain ⟨r, hr⟩ := tagBody_isPrefix t
        have hstop : front.length + 1 + (tagBody t).length = (front ++ '#' :: tagBody t).length := by
          simp only [List.length_append, List.length_cons]; omega
        show (front ++ c :: t).slice front.length (front.length + 1 + (tagBody t).length) =
          writtenTag ((tagBody t).splitOn '/')
        have hline : front ++ c :: t = (front ++ '#' :: tagBody t) ++ r := by
          rw [List.append_assoc, List.cons_append, hr, hc.1]
        rw [writtenTag, joinSegments_splitOn, hstop, hline, Text.slice, List.take_left,
          List.drop_left]
      · exact hrest ho
    · exact hrest ho

/-- **Where a tag's text stands, a tag with its path begins exactly if nothing continues the text.** -/
theorem exists_mem_tagsInLine_iff {file : Text} {line : Nat} {p : TagPath} (hp : ValidPath p)
    {t : Text} {i j : Nat} (hslice : t.slice i j = writtenTag p) :
    (∃ o ∈ tagsInLine file line 0 t, o.path = p ∧ o.range.start.character = i) ↔
      tagBody (t.drop j) = [] := by
  have hlen := congrArg List.length hslice
  simp only [Text.slice, List.length_drop, List.length_take, writtenTag, List.length_cons] at hlen
  have hfront : (t.take i).length = i := by rw [List.length_take]; omega
  have hcut : t = t.take i ++ (writtenTag p ++ t.drop j) := by
    rw [← hslice, Text.slice_append_drop t (show i ≤ j by omega), List.take_append_drop]
  have htags : tagsInLine file line 0 t = tagsInLine file line 0 (t.take i) ++
      tagsInLine file line i (writtenTag p ++ t.drop j) := by
    conv => lhs; rw [hcut]
    have := tagsInLine_append_hash file line 0 (t.take i) (joinSegments p ++ t.drop j)
    rwa [hfront, Nat.zero_add] at this
  rw [tagsInLine_writtenTag file line i hp] at htags
  rw [htags]
  constructor
  · rintro ⟨o, ho, hpath, hstart⟩
    rcases List.mem_append.mp ho with ho | ho
    · -- a tag of the front ends in front of the place
      have := tagsInLine_bounds ho
      omega
    · rcases List.mem_cons.mp ho with rfl | ho
      · have := congrArg joinSegments hpath
        rw [joinSegments_splitOn] at this
        simpa using this
      · have := tagsInLine_bounds ho
        have : 0 < (writtenTag p).length := by simp [writtenTag]
        omega
  · intro hnil
    refine ⟨_, List.mem_append_right _ (List.mem_cons_self ..), ?_, rfl⟩
    show (joinSegments p ++ tagBody (t.drop j)).splitOn '/' = p
    rw [hnil, List.append_nil, hp.splitOn_join]

/-! ## The lines of a document -/

theorem line_le_of_mem_tagsInLines {file : Text} {line : Nat} {ls : List Text} {o : Occurrence}
    (ho : o ∈ tagsInLines file line ls) : line ≤ o.range.start.line := by
  induction ls generalizing line with
  | nil => simp [tagsInLines] at ho
  | cons l ls ih =>
    rcases List.mem_append.mp ho with ho | ho
    · exact Nat.le_of_eq (tagsInLine_bounds ho).2.1.symm
    · exact Nat.le_of_succ_le (ih ho)

/-- The tags of a document that stand on one of its lines. -/
theorem filter_tagsInLines (file : Text) (line n : Nat) (ls : List Text) :
    (tagsInLines file line ls).filter (·.range.start.line = line + n) =
      (ls[n]?.map (tagsInLine file (line + n) 0)).getD [] := by
  induction ls generalizing line n with
  | nil => rfl
  | cons l ls ih =>
    rw [tagsInLines, List.filter_append]
    cases n with
    | zero =>
      have hhere : (tagsInLine file line 0 l).filter (·.range.start.line = line + 0) =
          tagsInLine file line 0 l := by
        rw [List.filter_eq_self]
        intro o ho
        simpa using (tagsInLine_bounds ho).2.1
      have hrest : (tagsInLines file (line + 1) ls).filter (·.range.start.line = line + 0) = [] := by
        rw [List.filter_eq_nil_iff]
        intro o ho
        have := line_le_of_mem_tagsInLines ho
        simp only [decide_eq_true_eq]
        omega
      rw [hhere, hrest, List.append_nil]
      rfl
    | succ n =>
      have hhere : (tagsInLine file line 0 l).filter (·.range.start.line = line + (n + 1)) = [] := by
        rw [List.filter_eq_nil_iff]
        intro o ho
        have := (tagsInLine_bounds ho).2.1
        simp only [decide_eq_true_eq]
        omega
      rw [hhere, List.nil_append, show line + (n + 1) = line + 1 + n by omega, ih]
      rfl

/-- The tags of a text that is one line. -/
theorem parseTags_of_not_mem {t : Text} (h : '\n' ∉ t) (file : Text) :
    parseTags t file = tagsInLine file 0 0 t := by
  rw [parseTags, Text.lines, List.splitOn_eq_singleton h, tagsInLines, tagsInLines, List.append_nil]

/-- **A written tag that stands alone is the one tag of its text**, and covers it. -/
theorem ValidPath.parseTags_writtenTag {p : TagPath} (hp : ValidPath p) (file : Text) :
    parseTags (writtenTag p) file = [⟨p, file, ⟨⟨0, 0⟩, ⟨0, (writtenTag p).length⟩⟩⟩] := by
  have hline : '\n' ∉ writtenTag p := hp.not_mem_writtenTag isSegmentChar_lf (by decide) (by decide)
  have htags := tagsInLine_writtenTag file 0 0 hp []
  rw [List.append_nil, show tagBody [] = [] from rfl, List.append_nil, hp.splitOn_join] at htags
  rw [parseTags_of_not_mem hline, htags]
  simp [tagsInLine]

end HashtagIndex
