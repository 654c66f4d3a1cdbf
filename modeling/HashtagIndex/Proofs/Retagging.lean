import HashtagIndex.Proofs.Tagging
import HashtagIndex.Proofs.Weaving
import Mathlib.Data.List.Forall2

/-!
# `Proofs.Retagging` — the tags of a line before and after a replacement

A line in which the text of one path stands between gaps has the tags of the first gap and then, for
every further gap, the tag glued together from the path's text and what continues it in the gap, and
the tags of the gap (`tagsInLine_intercalate`). This holds for the old path and for the new one over
the *same* gaps, so the tags of both lines can be compared gap by gap. Two comparisons are made:

* by paths alone (`renamesSome_pathsBehind_iff`), whatever stands behind the replaced texts;
* with columns (`forall₂_retagged`), where every replaced text is a whole tag, which is so when the
  places come from scanning that very line (`exists_gaps`).

## Contents
- `tagsBehind`, `tagsInLine_intercalate`.
- `pathsBehind` and its two comparisons.
- `exists_gaps`: the gaps of a line between the tags with a given path.
- `endedBy`, `Retagged`, `Passed`, `forall₂_retagged`: how columns move.
-/

namespace HashtagIndex

/-! ## The tags of an interleaving -/

theorem writtenTag_ne_nil (p : TagPath) : writtenTag p ≠ [] := by simp [writtenTag]

/-- What an interleaving with written tags begins with is what its first gap begins with. -/
theorem startsSegment_intercalate (p : TagPath) (g : Text) (gs : List Text) :
    startsSegment ((writtenTag p).intercalate (g :: gs)) = startsSegment g := by
  cases gs with
  | nil => rw [List.intercalate_singleton]
  | cons h gs =>
    rw [intercalate_cons_ne_nil (by simp)]
    exact startsSegment_append_hash g _

theorem tagBody_intercalate (p : TagPath) (g : Text) (gs : List Text) :
    tagBody ((writtenTag p).intercalate (g :: gs)) = tagBody g := by
  cases gs with
  | nil => rw [List.intercalate_singleton]
  | cons h gs =>
    rw [intercalate_cons_ne_nil (by simp)]
    exact tagBody_append_hash g _

/-- The tags from a written tag at `column` on, with the given gaps behind it and further written
    tags between them. -/
def tagsBehind (file : Text) (line : Nat) (p : TagPath) : (column : Nat) → List Text →
    List Occurrence
  | _, [] => []
  | column, g :: gs =>
    { path := (joinSegments p ++ tagBody g).splitOn '/'
      file
      range := ⟨⟨line, column⟩,
        ⟨line, column + (writtenTag p).length + (tagBody g).length⟩⟩ } ::
      (tagsInLine file line (column + (writtenTag p).length) g ++
        tagsBehind file line p (column + (writtenTag p).length + g.length) gs)

/-- **The tags of an interleaving**: those of the first gap, and those from each written tag on. -/
theorem tagsInLine_intercalate {p : TagPath} (hp : ValidPath p) (file : Text) (line column : Nat)
    (g : Text) (gs : List Text) :
    tagsInLine file line column ((writtenTag p).intercalate (g :: gs)) =
      tagsInLine file line column g ++ tagsBehind file line p (column + g.length) gs := by
  induction gs generalizing column g with
  | nil => simp [tagsBehind]
  | cons h gs ih =>
    have hcut := tagsInLine_append_hash file line column g
      (joinSegments p ++ (writtenTag p).intercalate (h :: gs))
    have htag := tagsInLine_writtenTag file line (column + g.length) hp
      ((writtenTag p).intercalate (h :: gs))
    rw [intercalate_cons_ne_nil (by simp)]
    rw [writtenTag, List.cons_append] at htag ⊢
    rw [← writtenTag] at htag ⊢
    rw [hcut, htag, tagBody_intercalate, ih, tagsBehind]

/-! ## Comparing paths -/

/-- A gap without `p` has no tag with path `p`. -/
theorem path_ne_of_mem_gap {p : TagPath} {file : Text} {line column : Nat} {g : Text}
    (hfree : p ∉ pathsInLine g) {o : Occurrence} (ho : o ∈ tagsInLine file line column g) :
    o.path ≠ p := by
  intro hpath
  refine hfree ?_
  rw [← map_path_tagsInLine file line column]
  exact List.mem_map.mpr ⟨o, ho, hpath⟩

/-- The paths from a written tag on. -/
def pathsBehind (p : TagPath) (gs : List Text) : List TagPath :=
  gs.flatMap fun g => (joinSegments p ++ tagBody g).splitOn '/' :: pathsInLine g

theorem pathsBehind_cons (p : TagPath) (g : Text) (gs : List Text) :
    pathsBehind p (g :: gs) =
      (joinSegments p ++ tagBody g).splitOn '/' :: (pathsInLine g ++ pathsBehind p gs) := by
  simp [pathsBehind]

theorem map_path_tagsBehind (file : Text) (line : Nat) (p : TagPath) (column : Nat)
    (gs : List Text) :
    (tagsBehind file line p column gs).map (·.path) = pathsBehind p gs := by
  induction gs generalizing column with
  | nil => rfl
  | cons g gs ih =>
    rw [tagsBehind, List.map_cons, List.map_append, map_path_tagsInLine, ih, pathsBehind_cons]

theorem pathsInLine_intercalate {p : TagPath} (hp : ValidPath p) (g : Text) (gs : List Text) :
    pathsInLine ((writtenTag p).intercalate (g :: gs)) = pathsInLine g ++ pathsBehind p gs := by
  rw [pathsInLine, tagsInLine_intercalate hp, List.map_append, map_path_tagsInLine,
    map_path_tagsBehind]

/-- Lists of paths that differ at most in that some entries `p` have become `q`. -/
def RenamesSome (p q : TagPath) : List TagPath → List TagPath → Prop :=
  List.Forall₂ fun a b => b = a ∨ (a = p ∧ b = q)

instance (p q : TagPath) (ps qs : List TagPath) : Decidable (RenamesSome p q ps qs) :=
  inferInstanceAs (Decidable (List.Forall₂ _ ps qs))

theorem RenamesSome.refl (p q : TagPath) (ps : List TagPath) : RenamesSome p q ps ps :=
  List.forall₂_same.mpr fun _ _ => Or.inl rfl

/-- The text of a path determines the path glued to it, also when more is glued on. -/
theorem splitOn_join_append_eq_iff {p : TagPath} (hp : ValidPath p) (e : Text) :
    (joinSegments p ++ e).splitOn '/' = p ↔ e = [] := by
  constructor
  · intro h
    have := congrArg joinSegments h
    rw [joinSegments_splitOn] at this
    simpa using this
  · rintro rfl
    rw [List.append_nil, hp.splitOn_join]

/-- **Replacing a written tag renames whole tags only, exactly if nothing continues it.** -/
theorem renamesSome_pathsBehind_iff {p q : TagPath} (hp : ValidPath p) (hq : ValidPath q)
    (hne : q ≠ p) (gs : List Text) :
    RenamesSome p q (pathsBehind p gs) (pathsBehind q gs) ↔ ∀ g ∈ gs, tagBody g = [] := by
  induction gs with
  | nil => simp [pathsBehind, RenamesSome]
  | cons g gs ih =>
    rw [pathsBehind_cons, pathsBehind_cons, List.forall_mem_cons, ← ih, RenamesSome,
      List.forall₂_cons]
    constructor
    · rintro ⟨hhead, htail⟩
      refine ⟨?_, ?_⟩
      · rcases hhead with hsame | ⟨hold, -⟩
        · -- equal paths would have equal texts
          have := congrArg joinSegments hsame
          rw [joinSegments_splitOn, joinSegments_splitOn, List.append_cancel_right_eq] at this
          have hpq : q = p := by
            rw [← hq.splitOn_join, ← hp.splitOn_join, this]
          exact absurd hpq hne
        · exact (splitOn_join_append_eq_iff hp _).mp hold
      · have hdrop := List.forall₂_drop (pathsInLine g).length htail
        rwa [List.drop_left, List.drop_left] at hdrop
    · rintro ⟨hnil, htail⟩
      refine ⟨Or.inr ⟨?_, ?_⟩, List.rel_append (RenamesSome.refl p q _) htail⟩
      · rw [hnil, List.append_nil, hp.splitOn_join]
      · rw [hnil, List.append_nil, hq.splitOn_join]

/-! ## The gaps of a scanned line -/

/-- The paths in a line that begins with a character at which no tag with path `p` begins. -/
theorem not_mem_pathsInLine_cons {p : TagPath} {c : Char} {g : Text} (hg : p ∉ pathsInLine g)
    (hc : c = '#' → startsSegment g = true → (tagBody g).splitOn '/' ≠ p) :
    p ∉ pathsInLine (c :: g) := by
  by_cases h : c = '#' ∧ startsSegment g = true
  · obtain ⟨rfl, hstart⟩ := h
    rw [pathsInLine, tagsInLine_hash _ _ _ hstart, List.map_cons, map_path_tagsInLine,
      List.mem_cons, not_or]
    exact ⟨(hc rfl hstart).symm, hg⟩
  · rwa [pathsInLine, tagsInLine_other _ _ _ h, map_path_tagsInLine]

/-- **Every line is an interleaving of its tags with a given path**: none of them is left in a gap,
    and nothing continues one of them. -/
theorem exists_gaps {p : TagPath} (hp : ValidPath p) (t : Text) :
    ∃ g gs, t = (writtenTag p).intercalate (g :: gs) ∧ (∀ h ∈ g :: gs, p ∉ pathsInLine h) ∧
      ∀ h ∈ gs, tagBody h = [] := by
  induction hn : t.length using Nat.strongRecOn generalizing t with
  | _ n ih =>
    subst hn
    rcases t with _ | ⟨c, t⟩
    · exact ⟨[], [], by simp, by simp [pathsInLine, tagsInLine], by simp⟩
    · by_cases hfound : c = '#' ∧ startsSegment t = true ∧ (tagBody t).splitOn '/' = p
      · -- a tag with path `p` begins here: the first gap is empty
        obtain ⟨rfl, -, hpath⟩ := hfound
        obtain ⟨r, hr⟩ := tagBody_isPrefix t
        have hbody : tagBody t = joinSegments p := by rw [← hpath, joinSegments_splitOn]
        have hstop : tagBody r = [] := by
          have := hp.tagBody_join r
          rw [← hbody, hr] at this
          simpa using this
        have hshort : r.length < ('#' :: t).length := by
          rw [← hr, List.length_cons, List.length_append]; omega
        obtain ⟨g, gs, hgaps, hfree, hexact⟩ := ih _ hshort r rfl
        refine ⟨[], g :: gs, ?_, ?_, ?_⟩
        · rw [intercalate_cons_ne_nil (by simp), List.nil_append, ← hgaps, ← hr, hbody]
          rfl
        · intro h hh
          rcases List.mem_cons.mp hh with rfl | hh
          · simp [pathsInLine, tagsInLine]
          · exact hfree h hh
        · intro h hh
          rcases List.mem_cons.mp hh with rfl | hh
          · rw [← tagBody_intercalate p h gs, ← hgaps, hstop]
          · exact hexact h hh
      · -- the character joins the first gap
        obtain ⟨g, gs, hgaps, hfree, hexact⟩ := ih _ (Nat.lt_succ_self t.length) t rfl
        refine ⟨c :: g, gs, by rw [List.intercalate_cons_cons_left, ← hgaps], ?_, hexact⟩
        intro h hh
        rcases List.mem_cons.mp hh with rfl | hh
        · refine not_mem_pathsInLine_cons (hfree g (by simp)) fun hc hstart hpath => hfound ?_
          refine ⟨hc, ?_, ?_⟩
          · rwa [hgaps, startsSegment_intercalate]
          · rwa [hgaps, tagBody_intercalate]
        · exact hfree h (List.mem_cons_of_mem _ hh)

/-- The places of the written tags in an interleaving are those of its tags with that path. -/
theorem map_span_filter_tagsBehind {p : TagPath} (hp : ValidPath p) (file : Text)
    (line column : Nat) (g : Text) {gs : List Text} (hfree : ∀ h ∈ gs, p ∉ pathsInLine h)
    (hexact : ∀ h ∈ gs, tagBody h = []) :
    ((tagsBehind file line p (column + g.length) gs).filter (·.path = p)).map Occurrence.span =
      spansOf (writtenTag p).length column (g :: gs) := by
  induction gs generalizing column g with
  | nil => simp [tagsBehind, spansOf]
  | cons h gs ih =>
    have hnil : tagBody h = [] := hexact h (by simp)
    have hgap : (tagsInLine file line (column + g.length + (writtenTag p).length) h).filter
        (·.path = p) = [] := by
      rw [List.filter_eq_nil_iff]
      intro o ho
      simpa using path_ne_of_mem_gap (hfree h (by simp)) ho
    have hrest := ih (column + g.length + (writtenTag p).length) h
      (fun u hu => hfree u (List.mem_cons_of_mem _ hu))
      (fun u hu => hexact u (List.mem_cons_of_mem _ hu))
    rw [tagsBehind, List.filter_cons_of_pos (by simp [hnil, hp.splitOn_join]), List.filter_append,
      hgap, List.nil_append, List.map_cons, hrest, spansOf, hnil]
    rfl

/-! ## How columns move -/

/-- How many of the given tags with path `p` end on a line at or in front of a column. -/
def endedBy (p : TagPath) (os : List Occurrence) (line column : Nat) : Nat :=
  os.countP fun o =>
    o.path = p ∧ o.range.stop.line = line ∧ o.range.stop.character ≤ column

theorem endedBy_append (p : TagPath) (os us : List Occurrence) (line column : Nat) :
    endedBy p (os ++ us) line column = endedBy p os line column + endedBy p us line column :=
  List.countP_append

/-- Tags that end behind a column do not count. -/
theorem endedBy_eq_zero {p : TagPath} {os : List Occurrence} {line column : Nat}
    (h : ∀ o ∈ os, o.path = p → o.range.stop.line = line → column < o.range.stop.character) :
    endedBy p os line column = 0 := by
  rw [endedBy, List.countP_eq_zero]
  intro o ho hcount
  simp only [decide_eq_true_eq] at hcount
  have := h o ho hcount.1 hcount.2.1
  omega

/-- Tags of a line that all end in front of a column all count. -/
theorem endedBy_eq_countP {p : TagPath} {os : List Occurrence} {line column : Nat}
    (h : ∀ o ∈ os, o.range.stop.line = line ∧ o.range.stop.character ≤ column) :
    endedBy p os line column = os.countP fun o => o.path = p := by
  refine List.countP_congr fun o ho => ?_
  have := h o ho
  simp [this.1, this.2]

/-- **How an occurrence moves** when the tags with path `p` among `os` get the path `q` and their
    texts grow by `growth` characters: its path changes only if it is `p`, and its columns are shifted
    by the growth of every renamed tag that ends in front of them. -/
structure Retagged (p q : TagPath) (growth : Int) (os : List Occurrence) (o o' : Occurrence) :
    Prop where
  path : o'.path = if o.path = p then q else o.path
  file : o'.file = o.file
  startLine : o'.range.start.line = o.range.start.line
  stopLine : o'.range.stop.line = o.range.stop.line
  start : (o'.range.start.character : Int) = o.range.start.character +
    growth * endedBy p os o.range.start.line o.range.start.character
  stop : (o'.range.stop.character : Int) = o.range.stop.character +
    growth * endedBy p os o.range.stop.line o.range.stop.character

/-- The tags of a gap without `p` move with what stands in front of them. -/
theorem forall₂_tagsInLine_gap {p : TagPath} (q : TagPath) {growth : Int} {os : List Occurrence}
    (file : Text) {line column column' k : Nat} {g : Text} (hfree : p ∉ pathsInLine g)
    (hcolumn : (column' : Int) = column + growth * k)
    (hcount : ∀ c, column ≤ c → c ≤ column + g.length → endedBy p os line c = k) :
    List.Forall₂ (Retagged p q growth os) (tagsInLine file line column g)
      (tagsInLine file line column' g) := by
  have hleft := tagsInLine_eq_map_moveTo file line column [] 0 0 g
  have hright := tagsInLine_eq_map_moveTo file line column' [] 0 0 g
  rw [Nat.add_zero] at hleft hright
  rw [hleft, hright, List.forall₂_map_left_iff, List.forall₂_map_right_iff, List.forall₂_same]
  intro o ho
  obtain ⟨-, -, -, hstart, hwide, hstop⟩ := tagsInLine_bounds ho
  have hpath : o.path ≠ p := path_ne_of_mem_gap hfree ho
  refine ⟨by simp [Occurrence.moveTo, hpath], rfl, rfl, rfl, ?_, ?_⟩
  · have := hcount (column + o.range.start.character) (by omega) (by omega)
    simp only [Occurrence.moveTo, this]
    push_cast
    omega
  · have := hcount (column + o.range.stop.character) (by omega) (by omega)
    simp only [Occurrence.moveTo, this]
    push_cast
    omega

/-- Tags from a written tag on begin at or behind it. -/
theorem tagsBehind_bounds {file : Text} {line column : Nat} {p : TagPath} (hp : ValidPath p)
    {gs : List Text} {o : Occurrence} (ho : o ∈ tagsBehind file line p column gs) :
    o.range.stop.line = line ∧ column + 1 < o.range.stop.character := by
  have hline := tagsInLine_intercalate hp file line column [] gs
  rw [tagsInLine, List.nil_append, List.length_nil, Nat.add_zero] at hline
  rw [← hline] at ho
  obtain ⟨-, -, hl, hstart, hwide, -⟩ := tagsInLine_bounds ho
  exact ⟨hl, by omega⟩

/-- A tag that stands by itself, as it was written. -/
def writtenAt (file : Text) (line : Nat) (p : TagPath) (column : Nat) : Occurrence :=
  ⟨p, file, ⟨⟨line, column⟩, ⟨line, column + (writtenTag p).length⟩⟩⟩

/-- Where nothing continues the written tag, it stands by itself in front of its gap. -/
theorem tagsBehind_cons {p : TagPath} (hp : ValidPath p) (file : Text) (line column : Nat) {g : Text}
    (hnil : tagBody g = []) (gs : List Text) :
    tagsBehind file line p column (g :: gs) = writtenAt file line p column ::
      (tagsInLine file line (column + (writtenTag p).length) g ++
        tagsBehind file line p (column + (writtenTag p).length + g.length) gs) := by
  rw [tagsBehind, hnil, List.append_nil, hp.splitOn_join]
  rfl

theorem countP_gap {p : TagPath} {file : Text} {line column : Nat} {g : Text}
    (hfree : p ∉ pathsInLine g) :
    ((tagsInLine file line column g).countP fun o => o.path = p) = 0 := by
  rw [List.countP_eq_zero]
  intro o ho
  simpa using path_ne_of_mem_gap hfree ho

section Counting

variable {p : TagPath} (file : Text) {line column : Nat} {front : List Occurrence}

/-- Tags that were passed: all of them end on the line at or in front of the column. -/
def Passed (line column : Nat) (front : List Occurrence) : Prop :=
  ∀ o ∈ front, o.range.stop.line = line ∧ o.range.stop.character ≤ column

theorem Passed.endedBy_eq (hfront : Passed line column front) {c : Nat} (hc : column ≤ c) :
    endedBy p front line c = front.countP fun o => o.path = p :=
  endedBy_eq_countP fun o ho => ⟨(hfront o ho).1, Nat.le_trans (hfront o ho).2 hc⟩

/-- At the column of a written tag only the tags that were passed count. -/
theorem Passed.endedBy_start (hp : ValidPath p) (hfront : Passed line column front)
    (gs : List Text) : endedBy p (front ++ tagsBehind file line p column gs) line column =
      front.countP fun o => o.path = p := by
  rw [endedBy_append, hfront.endedBy_eq (Nat.le_refl _), Nat.add_eq_left]
  refine endedBy_eq_zero fun o ho _ _ => ?_
  have := (tagsBehind_bounds hp ho).2
  omega

/-- In the gap behind a written tag, that tag counts as well. -/
theorem Passed.endedBy_gap (hp : ValidPath p) (hfront : Passed line column front) {g : Text}
    (hfree : p ∉ pathsInLine g) (gs : List Text) {c : Nat} (hle : column + (writtenTag p).length ≤ c)
    (hge : c ≤ column + (writtenTag p).length + g.length) :
    endedBy p (front ++ writtenAt file line p column ::
        (tagsInLine file line (column + (writtenTag p).length) g ++
          tagsBehind file line p (column + (writtenTag p).length + g.length) gs)) line c =
      (front.countP fun o => o.path = p) + 1 := by
  have hhere : endedBy p [writtenAt file line p column] line c = 1 := by
    simp [endedBy, writtenAt, hle]
  have hgap : endedBy p (tagsInLine file line (column + (writtenTag p).length) g) line c = 0 :=
    endedBy_eq_zero fun o ho hpath => absurd hpath (path_ne_of_mem_gap hfree ho)
  have hrest : endedBy p (tagsBehind file line p (column + (writtenTag p).length + g.length) gs)
      line c = 0 := by
    refine endedBy_eq_zero fun o ho _ _ => ?_
    have := (tagsBehind_bounds hp ho).2
    omega
  rw [← List.singleton_append, endedBy_append, endedBy_append, endedBy_append, hhere, hgap, hrest,
    hfront.endedBy_eq (by omega)]

/-- A written tag and the gap behind it are passed next. -/
theorem Passed.next (hfront : Passed line column front) (g : Text) :
    Passed line (column + (writtenTag p).length + g.length)
      (front ++ writtenAt file line p column ::
        tagsInLine file line (column + (writtenTag p).length) g) := by
  intro o ho
  rcases List.mem_append.mp ho with ho | ho
  · obtain ⟨hline, hstop⟩ := hfront o ho
    exact ⟨hline, by omega⟩
  · rcases List.mem_cons.mp ho with rfl | ho
    · exact ⟨rfl, Nat.le_add_right _ _⟩
    · obtain ⟨-, -, hline, -, -, hstop⟩ := tagsInLine_bounds ho
      exact ⟨hline, hstop⟩

end Counting

/-- The invariant of the comparison from left to right: behind the tags already passed, columns
    differ by the growth of those among them that were renamed. -/
theorem forall₂_tagsBehind {p q : TagPath} (hp : ValidPath p) (hq : ValidPath q) {growth : Int}
    (hgrowth : growth = (writtenTag q).length - (writtenTag p).length) (file : Text) (line : Nat)
    {gs : List Text} (hfree : ∀ g ∈ gs, p ∉ pathsInLine g) (hexact : ∀ g ∈ gs, tagBody g = [])
    {front : List Occurrence} {column column' : Nat} (hfront : Passed line column front)
    (hcolumn : (column' : Int) = column + growth * (front.countP fun o => o.path = p : Nat)) :
    List.Forall₂ (Retagged p q growth (front ++ tagsBehind file line p column gs))
      (tagsBehind file line p column gs) (tagsBehind file line q column' gs) := by
  induction gs generalizing front column column' with
  | nil => exact List.Forall₂.nil
  | cons g gs ih =>
    have hgfree : p ∉ pathsInLine g := hfree g (by simp)
    have hcolumnBehind : ((column' + (writtenTag q).length : Nat) : Int) =
        (column + (writtenTag p).length : Nat) +
          growth * ((front.countP fun o => o.path = p) + 1 : Nat) := by
      push_cast
      rw [hcolumn, Int.mul_add, Int.mul_one]
      omega
    have hstart := hfront.endedBy_start file hp (g :: gs)
    have hgap := fun c => hfront.endedBy_gap file hp hgfree gs (c := c)
    rw [tagsBehind_cons hp file line column (hexact g (by simp))] at hstart ⊢
    rw [tagsBehind_cons hq file line column' (hexact g (by simp))]
    refine List.Forall₂.cons ⟨by simp [writtenAt], rfl, rfl, rfl, ?_, ?_⟩ (List.rel_append ?_ ?_)
    · show (column' : Int) = column + growth * endedBy p _ line column
      rw [hstart]
      exact hcolumn
    · show ((column' + (writtenTag q).length : Nat) : Int) = (column + (writtenTag p).length : Nat) +
        growth * endedBy p _ line (column + (writtenTag p).length)
      rw [hgap _ (Nat.le_refl _) (Nat.le_add_right _ _)]
      exact hcolumnBehind
    · exact forall₂_tagsInLine_gap q file hgfree hcolumnBehind hgap
    · -- the tag and its gap are passed, and the rest is compared from there
      rw [← List.cons_append, ← List.append_assoc]
      refine ih (fun u hu => hfree u (List.mem_cons_of_mem _ hu))
        (fun u hu => hexact u (List.mem_cons_of_mem _ hu)) (hfront.next file g) ?_
      rw [List.countP_append, List.countP_cons, countP_gap hgfree, Nat.zero_add,
        if_pos (by simp [writtenAt])]
      push_cast at hcolumnBehind ⊢
      omega

/-- The planner's replacement at all tags with path `p` that a scan of the line finds puts the new text
    between the gaps. -/
theorem replaceTags_tagsInLine {p : TagPath} (hp : ValidPath p) (file : Text) (line : Nat) {t g : Text}
    {gs : List Text} (hgaps : t = (writtenTag p).intercalate (g :: gs))
    (hfree : ∀ h ∈ g :: gs, p ∉ pathsInLine h) (hexact : ∀ h ∈ gs, tagBody h = []) (new : Text) :
    replaceTags (writtenTag p) new t ((tagsInLine file line 0 t).filter (·.path = p)) =
      new.intercalate (g :: gs) := by
  -- the recorded places are those of the written tags between the gaps
  have hspans : ((tagsInLine file line 0 t).filter (·.path = p)).map Occurrence.span =
      spansOf (writtenTag p).length 0 (g :: gs) := by
    have hnone : (tagsInLine file line 0 g).filter (·.path = p) = [] := by
      rw [List.filter_eq_nil_iff]
      intro o ho
      simpa using path_ne_of_mem_gap (hfree g (by simp)) ho
    rw [hgaps, tagsInLine_intercalate hp, List.filter_append, hnone, List.nil_append]
    exact map_span_filter_tagsBehind hp file line 0 g
      (fun h hh => hfree h (List.mem_cons_of_mem _ hh)) hexact
  rw [replaceTags_eq_intercalate (writtenTag_ne_nil p)
    ((tagsInLine_disjoint file line 0 t).sublist List.filter_sublist), hspans]
  · conv => lhs; rw [hgaps]
    rw [cutOut_spansOf _ _ (by simp)]
  · intro o ho
    obtain ⟨-, -, -, -, hwide, -⟩ := tagsInLine_bounds (List.mem_filter.mp ho).1
    exact Nat.lt_of_succ_lt hwide

/-- **Renaming the tags of a line moves its occurrences** as `Retagged` says, and does nothing else:
    the planner's replacement at all tags with path `p` that a scan of the line finds. -/
theorem forall₂_retagged {p q : TagPath} (hp : ValidPath p) (hq : ValidPath q)
    (file : Text) (line : Nat) (t : Text) :
    List.Forall₂
      (Retagged p q ((writtenTag q).length - (writtenTag p).length) (tagsInLine file line 0 t))
      (tagsInLine file line 0 t)
      (tagsInLine file line 0 (replaceTags (writtenTag p) (writtenTag q) t
        ((tagsInLine file line 0 t).filter (·.path = p)))) := by
  obtain ⟨g, gs, hgaps, hfree, hexact⟩ := exists_gaps hp t
  have hgfree : p ∉ pathsInLine g := hfree g (by simp)
  have htags := tagsInLine_intercalate hp file line 0 g gs
  rw [← hgaps] at htags
  rw [replaceTags_tagsInLine hp file line hgaps hfree hexact, tagsInLine_intercalate hq, htags]
  refine List.rel_append (forall₂_tagsInLine_gap q file hgfree (k := 0) (by simp) fun c _ hc => ?_) ?_
  · refine endedBy_eq_zero fun o ho hpath _ => ?_
    rcases List.mem_append.mp ho with ho | ho
    · exact absurd hpath (path_ne_of_mem_gap hgfree ho)
    · have := (tagsBehind_bounds hp ho).2
      omega
  · refine forall₂_tagsBehind hp hq rfl file line
      (fun h hh => hfree h (List.mem_cons_of_mem _ hh)) hexact ?_ ?_
    · intro o ho
      obtain ⟨-, -, hl, -, -, hstop⟩ := tagsInLine_bounds ho
      exact ⟨hl, hstop⟩
    · rw [countP_gap hgfree]
      simp

end HashtagIndex
