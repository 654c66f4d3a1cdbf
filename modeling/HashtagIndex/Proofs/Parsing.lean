import HashtagIndex.Proofs.Tagging

/-!
# `Proofs.Parsing` — the parser finds exactly the tags

What a tag of a document is can be said without a scanner. A tag *begins* wherever a hash sign stands
with a segment character right behind it; it is *matched* by the text from there to the end of its
range, and that text cannot be made longer. `IsParse` puts the two together with source order. The
parser's list is such a list, and there is no other one:

* **Soundness and completeness** (`isParse_parseTags`): every place where a tag begins is the start of
  exactly one occurrence, nothing else is, and each occurrence is the longest match from its start.
* **The specification leaves no choice** (`IsParse.unique`): two lists of this kind are equal, so
  `IsParse` says all there is to say about the parser.

## Contents
- `Position.Before`, `BeginsTag`, `MatchesTag`, `IsParse`.
- `tagBody_eq_nil_iff`, `slash_in_tagBody`: when a tag text cannot go on, and what follows a slash in it.
- `exists_mem_tagsInLine_of_beginsTag`, `matchesTag_of_mem_tagsInLine`: one line.
- `mem_parseTags_iff`: a document's tags are the tags of its lines.
- `isParse_parseTags`, `IsParse.unique`, `parseTags_exact`.
-/

namespace HashtagIndex

/-! ## What a parse is -/

/-- Source order of places. -/
def Position.Before (a b : Position) : Prop :=
  a.line < b.line ∨ a.line = b.line ∧ a.character < b.character

/-- A tag begins at a place of a line: a hash sign, and right behind it a segment character. -/
def BeginsTag (l : Text) (c : Nat) : Prop :=
  l[c]? = some '#' ∧ ∃ d ∈ l[c + 1]?, isSegmentChar d = true

instance (l : Text) (c : Nat) : Decidable (BeginsTag l c) :=
  inferInstanceAs (Decidable (_ ∧ _))

/-- An occurrence is a longest match in its line: its range lies in the line and holds the written tag,
    and behind the range stands neither a segment character nor a slash with a segment character
    behind it. -/
structure MatchesTag (l : Text) (o : Occurrence) : Prop where
  oneLine : o.range.stop.line = o.range.start.line
  inside : o.range.stop.character ≤ l.length
  written : l.slice o.range.start.character o.range.stop.character = writtenTag o.path
  segments : ValidPath o.path
  maximal : ∀ d ∈ l[o.range.stop.character]?, isSegmentChar d = false ∧
    (d = '/' → ∀ e ∈ l[o.range.stop.character + 1]?, isSegmentChar e = false)

/-- A list of occurrences lists the tags of a document: in source order, one for each place where a tag
    begins and none for another place, each a longest match in the given file. -/
structure IsParse (ls : List Text) (file : Text) (os : List Occurrence) : Prop where
  increasing : os.Pairwise fun a b => a.range.start.Before b.range.start
  counted : ∀ i c, os.countP (fun o => o.range.start = ⟨i, c⟩) =
    if ∃ l ∈ ls[i]?, BeginsTag l c then 1 else 0
  matched : ∀ o ∈ os, o.file = file ∧ ∃ l ∈ ls[o.range.start.line]?, MatchesTag l o

/-! ## The end of a tag text -/

/-- A tag text is empty exactly if no segment character follows, be it behind a slash. -/
theorem tagBody_eq_nil_iff {t : Text} :
    tagBody t = [] ↔ ∀ d ∈ t[0]?, isSegmentChar d = false ∧
      (d = '/' → ∀ e ∈ t[1]?, isSegmentChar e = false) := by
  cases t with
  | nil => simp [tagBody]
  | cons c r =>
    have hnext : startsSegment r = false ↔ ∀ e, r[0]? = some e → isSegmentChar e = false := by
      cases r <;> simp [startsSegment]
    show (if isSegmentChar c || (c == '/' && startsSegment r) then c :: tagBody r else []) = [] ↔ _
    by_cases hc : isSegmentChar c = true
    · simp [hc]
    · by_cases hslash : c = '/'
      · subst hslash
        simp [isSegmentChar_slash, hnext]
      · simp [hc, hslash]

/-- Inside a tag text a segment character follows every slash. -/
theorem slash_in_tagBody {t : Text} {k : Nat} (hk : (tagBody t)[k]? = some '/') :
    ∃ d ∈ (tagBody t)[k + 1]?, isSegmentChar d = true := by
  induction t generalizing k with
  | nil => simp [tagBody] at hk
  | cons c r ih =>
    rw [tagBody] at hk ⊢
    split at hk
    · next hc =>
      rw [if_pos hc]
      cases k with
      | zero =>
        -- the slash itself was taken only because of the character behind it
        have hslash : c = '/' := by simpa using hk
        subst hslash
        have hr : startsSegment r = true := by simpa [isSegmentChar_slash] using hc
        cases r with
        | nil => simp [startsSegment] at hr
        | cons d r =>
          have hd : isSegmentChar d = true := hr
          exact ⟨d, by simp [tagBody, hd], hd⟩
      | succ k => exact ih (by simpa using hk)
    · simp at hk

/-- Inside a written tag a segment character follows every slash. -/
theorem ValidPath.slash_in_writtenTag {p : TagPath} (hp : ValidPath p) {k : Nat}
    (hk : (writtenTag p)[k]? = some '/') : ∃ d ∈ (writtenTag p)[k + 1]?, isSegmentChar d = true := by
  have hbody : tagBody (joinSegments p) = joinSegments p := by
    have := hp.tagBody_join []
    rwa [List.append_nil, show tagBody [] = [] from rfl, List.append_nil] at this
  cases k with
  | zero => simp [writtenTag] at hk
  | succ k =>
    have hk' : (tagBody (joinSegments p))[k]? = some '/' := by
      rw [hbody]
      simpa [writtenTag] using hk
    have := slash_in_tagBody hk'
    rw [hbody] at this
    simpa [writtenTag] using this

/-- A character of a slice. -/
theorem Text.getElem?_slice (t : Text) {i j k : Nat} (hj : i + k < j) :
    (t.slice i j)[k]? = t[i + k]? := by
  unfold Text.slice
  rw [List.getElem?_drop, List.getElem?_take_of_lt hj]

/-- A match is as wide as its written tag. -/
theorem MatchesTag.width {l : Text} {o : Occurrence} (h : MatchesTag l o) :
    o.range.start.character + (writtenTag o.path).length = o.range.stop.character := by
  have hinside := h.inside
  have hlen := congrArg List.length h.written
  have hpos : 0 < (writtenTag o.path).length := by simp [writtenTag]
  rw [Text.slice, List.length_drop, List.length_take] at hlen
  omega

/-- The characters of a match are those of its written tag. -/
theorem MatchesTag.getElem? {l : Text} {o : Occurrence} (h : MatchesTag l o) {k : Nat}
    (hk : k < (writtenTag o.path).length) :
    l[o.range.start.character + k]? = (writtenTag o.path)[k]? := by
  have hwidth := h.width
  rw [← h.written, Text.getElem?_slice l (by omega)]

/-- A match begins where a tag begins. -/
theorem MatchesTag.beginsTag {l : Text} {o : Occurrence} (h : MatchesTag l o) :
    BeginsTag l o.range.start.character := by
  have hstart := h.segments.startsSegment_join []
  rw [List.append_nil] at hstart
  obtain ⟨d, r, hjoin⟩ : ∃ d r, joinSegments o.path = d :: r := by
    cases hj : joinSegments o.path with
    | nil => simp [hj, startsSegment] at hstart
    | cons d r => exact ⟨d, r, rfl⟩
  have hwritten : writtenTag o.path = '#' :: d :: r := by rw [writtenTag, hjoin]
  have hd : isSegmentChar d = true := by rwa [hjoin] at hstart
  have hhash := h.getElem? (k := 0) (by rw [hwritten]; simp)
  have hnext := h.getElem? (k := 1) (by rw [hwritten]; simp)
  rw [hwritten] at hhash hnext
  exact ⟨hhash, d, hnext, hd⟩

/-- Behind its hash sign a match is the longest tag text there is. -/
theorem MatchesTag.joinSegments_eq {l : Text} {o : Occurrence} (h : MatchesTag l o) :
    joinSegments o.path = tagBody (l.drop (o.range.start.character + 1)) := by
  have hwidth := h.width
  have hinside := h.inside
  have hbehind : tagBody (l.drop o.range.stop.character) = [] := by
    rw [tagBody_eq_nil_iff]
    intro d hd
    rw [List.getElem?_drop] at hd ⊢
    exact h.maximal d hd
  have hcut : l.drop (o.range.start.character + 1) =
      joinSegments o.path ++ l.drop o.range.stop.character := by
    have hle : o.range.start.character ≤ o.range.stop.character := by omega
    have hdrop : l.drop o.range.start.character = writtenTag o.path ++ l.drop o.range.stop.character := by
      rw [← Text.slice_append_drop l hle, h.written]
    rw [← List.drop_drop, hdrop]
    rfl
  rw [hcut, h.segments.tagBody_join, hbehind, List.append_nil]

/-! ## One line -/

/-- The scan of a line comes upon every place where a tag begins. -/
theorem exists_mem_tagsInLine_of_beginsTag (file : Text) (line : Nat) {l : Text} {c : Nat}
    (h : BeginsTag l c) : ∃ o ∈ tagsInLine file line 0 l, o.range.start = ⟨line, c⟩ := by
  obtain ⟨hhash, d, hd, hsegment⟩ := h
  obtain ⟨hc, hhash⟩ := List.getElem?_eq_some_iff.mp hhash
  have hcut : l = l.take c ++ '#' :: l.drop (c + 1) := by
    conv => lhs; rw [← List.take_append_drop c l, List.drop_eq_getElem_cons hc, hhash]
  have hstart : startsSegment (l.drop (c + 1)) = true := by
    obtain ⟨hd', hget⟩ := List.getElem?_eq_some_iff.mp hd
    rw [List.drop_eq_getElem_cons hd', hget]
    exact hsegment
  have hfront : (l.take c).length = c := by rw [List.length_take]; omega
  rw [hcut, tagsInLine_append_hash, hfront, Nat.zero_add, tagsInLine_hash _ _ _ hstart]
  exact ⟨_, List.mem_append_right _ (List.mem_cons_self ..), rfl⟩

/-- Every tag that the scan of a line finds is a longest match. -/
theorem matchesTag_of_mem_tagsInLine {file : Text} {line : Nat} {l : Text} {o : Occurrence}
    (ho : o ∈ tagsInLine file line 0 l) : MatchesTag l o := by
  obtain ⟨_, hstart, hstop, _, _, hinside⟩ := tagsInLine_bounds ho
  rw [Nat.zero_add] at hinside
  obtain ⟨hwritten, hvalid⟩ := slice_of_mem_tagsInLine [] ho
  rw [List.nil_append] at hwritten
  refine ⟨by rw [hstart, hstop], hinside, hwritten, hvalid, ?_⟩
  have hbehind : tagBody (l.drop o.range.stop.character) = [] :=
    (exists_mem_tagsInLine_iff hvalid hwritten).mp ⟨o, ho, rfl, rfl⟩
  intro d hd
  have := tagBody_eq_nil_iff.mp hbehind d (by rwa [List.getElem?_drop])
  rwa [List.getElem?_drop] at this

/-! ## A document -/

/-- The tags of a document are the tags of its lines. -/
theorem mem_parseTags_iff {t file : Text} {o : Occurrence} :
    o ∈ parseTags t file ↔
      ∃ l ∈ t.lines[o.range.start.line]?, o ∈ tagsInLine file o.range.start.line 0 l := by
  have hline : o ∈ parseTags t file ↔
      o ∈ (parseTags t file).filter (·.range.start.line = 0 + o.range.start.line) := by
    rw [List.mem_filter]
    simp
  rw [hline, parseTags, filter_tagsInLines, Nat.zero_add]
  cases t.lines[o.range.start.line]? with
  | none => simp
  | some l => simp

/-- What is found in consecutive lines stands one behind the other. -/
theorem tagsInLines_ordered (file : Text) (line : Nat) (ls : List Text) :
    (tagsInLines file line ls).Pairwise fun a b =>
      a.range.stop.line < b.range.start.line ∨
        a.range.stop.line = b.range.start.line ∧
          a.range.stop.character ≤ b.range.start.character := by
  induction ls generalizing line with
  | nil => exact List.Pairwise.nil
  | cons l ls ih =>
    rw [tagsInLines, List.pairwise_append]
    refine ⟨?_, ih (line + 1), ?_⟩
    · refine (tagsInLine_disjoint file line 0 l).imp_of_mem ?_
      intro a b ha hb hdisjoint
      exact Or.inr ⟨(tagsInLine_bounds ha).2.2.1.trans (tagsInLine_bounds hb).2.1.symm, hdisjoint⟩
    · intro a ha b hb
      have hstop := (tagsInLine_bounds ha).2.2.1
      have hlater := line_le_of_mem_tagsInLines hb
      exact Or.inl (by omega)

/-- Starts that increase are all different, so at most one occurrence starts at a place. -/
theorem countP_start_eq_one {os : List Occurrence} {o : Occurrence}
    (hos : os.Pairwise fun a b => a.range.start.Before b.range.start) (ho : o ∈ os) :
    os.countP (fun a => a.range.start = o.range.start) = 1 := by
  induction os with
  | nil => simp at ho
  | cons a os ih =>
    obtain ⟨ha, hos⟩ := List.pairwise_cons.mp hos
    rw [List.countP_cons]
    rcases List.mem_cons.mp ho with rfl | ho
    · have hrest : os.countP (fun a => a.range.start = o.range.start) = 0 := by
        rw [List.countP_eq_zero]
        intro b hb heq
        have hbefore := ha b hb
        rw [of_decide_eq_true heq] at hbefore
        unfold Position.Before at hbefore
        omega
      simp [hrest]
    · have hne : a.range.start ≠ o.range.start := by
        intro heq
        have hbefore := ha o ho
        rw [heq] at hbefore
        unfold Position.Before at hbefore
        omega
      simp [hne, ih hos ho]

/-- **The parser's list is a parse.** -/
theorem isParse_parseTags (t file : Text) : IsParse t.lines file (parseTags t file) := by
  have hincreasing : (parseTags t file).Pairwise fun a b => a.range.start.Before b.range.start := by
    refine (tagsInLines_ordered file 0 t.lines).imp_of_mem ?_
    intro a b ha _ horder
    obtain ⟨l, _, ha⟩ := mem_parseTags_iff.mp ha
    obtain ⟨_, _, hstop, _, hwide, _⟩ := tagsInLine_bounds ha
    unfold Position.Before
    omega
  refine ⟨hincreasing, ?_, ?_⟩
  · intro i c
    split
    · next hbegins =>
      obtain ⟨l, hl, hbegins⟩ := hbegins
      obtain ⟨o, ho, hstart⟩ := exists_mem_tagsInLine_of_beginsTag file i hbegins
      have hmem : o ∈ parseTags t file := mem_parseTags_iff.mpr (by rw [hstart]; exact ⟨l, hl, ho⟩)
      rw [← hstart]
      exact countP_start_eq_one hincreasing hmem
    · next hnot =>
      rw [List.countP_eq_zero]
      intro o ho hstart
      obtain ⟨l, hl, ho⟩ := mem_parseTags_iff.mp ho
      have hbegins := (matchesTag_of_mem_tagsInLine ho).beginsTag
      rw [of_decide_eq_true hstart] at hl hbegins
      exact hnot ⟨l, hl, hbegins⟩
  · intro o ho
    obtain ⟨l, hl, ho⟩ := mem_parseTags_iff.mp ho
    exact ⟨(tagsInLine_bounds ho).1, l, hl, matchesTag_of_mem_tagsInLine ho⟩

/-! ## A document has one parse -/

/-- Two matches in one line of one file that begin at one place are the same. -/
theorem MatchesTag.unique {l : Text} {a b : Occurrence} (ha : MatchesTag l a) (hb : MatchesTag l b)
    (hfile : a.file = b.file) (hstart : a.range.start = b.range.start) : a = b := by
  have hjoin : joinSegments a.path = joinSegments b.path := by
    rw [ha.joinSegments_eq, hb.joinSegments_eq, hstart]
  have hpath : a.path = b.path := by
    rw [← ha.segments.splitOn_join, ← hb.segments.splitOn_join, hjoin]
  have hstop : a.range.stop = b.range.stop := by
    have hlines : a.range.stop.line = b.range.stop.line := by rw [ha.oneLine, hb.oneLine, hstart]
    have hcharacters : a.range.stop.character = b.range.stop.character := by
      rw [← ha.width, ← hb.width, hstart, hpath]
    show Position.mk a.range.stop.line a.range.stop.character = Position.mk b.range.stop.line _
    rw [hlines, hcharacters]
  obtain ⟨pa, fa, ⟨sa, ea⟩⟩ := a
  obtain ⟨pb, fb, ⟨sb, eb⟩⟩ := b
  simp only at hfile hstart hpath hstop
  rw [hfile, hstart, hpath, hstop]

/-- What one parse lists, every other parse lists too. -/
theorem IsParse.subset {ls : List Text} {file : Text} {os os' : List Occurrence}
    (h : IsParse ls file os) (h' : IsParse ls file os') : os ⊆ os' := by
  intro o ho
  obtain ⟨hfile, l, hl, hmatch⟩ := h.matched o ho
  have hcount := h'.counted o.range.start.line o.range.start.character
  rw [if_pos ⟨l, hl, hmatch.beginsTag⟩] at hcount
  obtain ⟨o', ho', hstart⟩ := List.countP_pos_iff.mp (hcount ▸ Nat.zero_lt_one)
  have hstart : o'.range.start = o.range.start := of_decide_eq_true hstart
  obtain ⟨hfile', l', hl', hmatch'⟩ := h'.matched o' ho'
  rw [hstart] at hl'
  have hsame : l' = l := Option.mem_unique hl' hl
  subst hsame
  rwa [← hmatch'.unique hmatch (hfile'.trans hfile.symm) hstart]

/-- **The lines of a document determine its parse.** -/
theorem IsParse.unique {ls : List Text} {file : Text} {os os' : List Occurrence}
    (h : IsParse ls file os) (h' : IsParse ls file os') : os = os' := by
  have hirrefl : ∀ a b : Occurrence, a.range.start.Before b.range.start → a ≠ b := by
    rintro a _ hbefore rfl
    unfold Position.Before at hbefore
    omega
  have hperm : os.Perm os' :=
    (List.perm_ext_iff_of_nodup (h.increasing.imp (hirrefl _ _)) (h'.increasing.imp (hirrefl _ _))).mpr
      fun o => ⟨fun ho => h.subset h' ho, fun ho => h'.subset h ho⟩
  refine hperm.eq_of_pairwise ?_ h.increasing h'.increasing
  intro a b _ _ hab hba
  unfold Position.Before at hab hba
  omega

/-! ## The exact list -/

/-- **The parser finds exactly the tags.** Its list is a parse of the document: strictly increasing
    starts, one occurrence for each place where a tag begins and none elsewhere, each the longest match
    from its start. Ranges on a line are therefore disjoint, and every slash in a range is followed by a
    segment character of that range. -/
theorem parseTags_exact (t file : Text) :
    IsParse t.lines file (parseTags t file) ∧
      ((parseTags t file).Pairwise fun a b => a.range.stop.line = b.range.start.line →
        a.range.stop.character ≤ b.range.start.character) ∧
      ∀ o ∈ parseTags t file, ∀ l ∈ t.lines[o.range.start.line]?, ∀ k,
        o.range.start.character ≤ k → k < o.range.stop.character → l[k]? = some '/' →
          k + 1 < o.range.stop.character ∧ ∃ d ∈ l[k + 1]?, isSegmentChar d = true := by
  refine ⟨isParse_parseTags t file, ?_, ?_⟩
  · refine (tagsInLines_ordered file 0 t.lines).imp ?_
    intro a b horder hline
    omega
  · intro o ho l hl k hstart hstop hslash
    obtain ⟨_, l', hl', hmatch⟩ := (isParse_parseTags t file).matched o ho
    have hsame : l' = l := Option.mem_unique hl' hl
    subst hsame
    obtain ⟨n, rfl⟩ := Nat.exists_eq_add_of_le hstart
    have hwidth := hmatch.width
    rw [hmatch.getElem? (by omega)] at hslash
    obtain ⟨d, hd, hsegment⟩ := hmatch.segments.slash_in_writtenTag hslash
    -- the character behind the slash is one of the written tag, so it lies in the range
    have hn : n + 1 < (writtenTag o.path).length := (List.getElem?_eq_some_iff.mp hd).1
    have hget := hmatch.getElem? hn
    refine ⟨by omega, d, ?_, hsegment⟩
    rw [Nat.add_assoc, hget]
    exact hd

end HashtagIndex
