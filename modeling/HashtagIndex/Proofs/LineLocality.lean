import HashtagIndex.Proofs.LineReplacement

/-!
# `Proofs.LineLocality` — the tags of a line are its own

A tag never reaches over a line feed, and the parser carries nothing from one line to the next but the
number of the line. Two facts say so without speaking of the parser's loop:

* **Parsing respects joining** (`parseTags_append_lf`): of two texts with a line feed between them, the tags
  are those of the first and then those of the second, moved down by the lines of the first.
* **A replaced line is the only one that changes** (`filter_parseTags_withLine`): the tags on all other lines
  stay as they are, and on the line stand the tags of the new text.

Both hold for every text: empty ones, lines without a tag, and breaks at either end are no special cases.
Replacing a line of a document on disk is replacing that line of the text which readers see
(`readDocument_replaceLine`), and so an applied edit disturbs no tag of another line.

## Contents
- `Occurrence.down`, `tagsInLines_down`, `tagsInLines_append`: lines further down, and lines cut in two.
- `length_lines`, `Text.withLine`: the number of lines, and a text with one line replaced.
- `parseTags_append_lf`, `filter_parseTags_withLine`, `parseTags_local`.
- `readDocument_replaceLine`: the same on disk.
-/

namespace HashtagIndex

variable {file : Text}

/-! ## Lines further down -/

/-- A place the given number of lines further down, in the same column. -/
def Position.down (n : Nat) (p : Position) : Position := { p with line := p.line + n }

/-- An occurrence the given number of lines further down, in the same columns. -/
def Occurrence.down (n : Nat) (o : Occurrence) : Occurrence :=
  { o with range := ⟨o.range.start.down n, o.range.stop.down n⟩ }

/-- What the scan of a line finds is moved down with the line. -/
theorem tagsInLine_down (line n column : Nat) (t : Text) :
    tagsInLine file (line + n) column t = (tagsInLine file line column t).map (·.down n) := by
  induction t generalizing column with
  | nil => rfl
  | cons c t ih =>
    by_cases hc : c = '#' ∧ startsSegment t = true
    · obtain ⟨rfl, ht⟩ := hc
      rw [tagsInLine_hash _ _ _ ht, tagsInLine_hash _ _ _ ht, List.map_cons, ih]
      rfl
    · rw [tagsInLine_other _ _ _ hc, tagsInLine_other _ _ _ hc, ih]

theorem tagsInLines_down (line n : Nat) (ls : List Text) :
    tagsInLines file (line + n) ls = (tagsInLines file line ls).map (·.down n) := by
  induction ls generalizing line with
  | nil => rfl
  | cons l ls ih =>
    rw [tagsInLines, tagsInLines, List.map_append, tagsInLine_down, Nat.add_right_comm line n 1, ih]

/-- Lines that are cut in two are scanned one part after the other. -/
theorem tagsInLines_append (line : Nat) (ls us : List Text) :
    tagsInLines file line (ls ++ us) =
      tagsInLines file line ls ++ tagsInLines file (line + ls.length) us := by
  induction ls generalizing line with
  | nil => rfl
  | cons l ls ih =>
    have hnext : line + 1 + ls.length = line + (l :: ls).length := by
      rw [List.length_cons]
      omega
    rw [List.cons_append, tagsInLines, tagsInLines, ih, hnext, List.append_assoc]

/-- The tags of lines of which one was replaced: in front of it and behind it they are what they were. -/
theorem tagsInLines_set (line : Nat) {ls : List Text} {n : Nat} (hn : n < ls.length) (new : Text) :
    tagsInLines file line (ls.set n new) =
      tagsInLines file line (ls.take n) ++
        (tagsInLine file (line + n) 0 new ++ tagsInLines file (line + n + 1) (ls.drop (n + 1))) := by
  have hfront : (ls.take n).length = n := by
    rw [List.length_take]
    omega
  rw [List.set_eq_take_append_cons_drop, if_pos hn, tagsInLines_append, hfront, tagsInLines]

/-! ## The lines of a text -/

/-- A text has one line more than it has line feeds. -/
theorem length_lines (t : Text) : t.lines.length = t.count '\n' + 1 := by
  induction t with
  | nil => rfl
  | cons c t ih =>
    by_cases hc : c = '\n'
    · subst hc
      rw [lines_cons_lf, List.length_cons, ih, List.count_cons_self]
    · rw [lines_cons hc, List.length_modifyHead, ih, List.count_cons_of_ne hc]

/-- No line holds a line feed. -/
theorem lf_not_mem_of_mem_lines {t l : Text} (hl : l ∈ t.lines) : '\n' ∉ l := by
  induction t generalizing l with
  | nil =>
    obtain rfl : l = [] := by simpa [Text.lines] using hl
    exact List.not_mem_nil
  | cons c t ih =>
    by_cases hc : c = '\n'
    · subst hc
      rw [lines_cons_lf] at hl
      rcases List.mem_cons.mp hl with rfl | hl
      · exact List.not_mem_nil
      · exact ih hl
    · obtain ⟨u, us, hlines⟩ : ∃ u us, Text.lines t = u :: us :=
        List.exists_cons_of_ne_nil (List.splitOn_ne_nil _ _)
      rw [hlines] at ih
      rw [lines_cons hc, hlines, List.modifyHead_cons] at hl
      rcases List.mem_cons.mp hl with rfl | hl
      · -- the first line got one more character, which is no line feed
        have hu : '\n' ∉ u := ih (List.mem_cons_self ..)
        simp [hu, Ne.symm hc]
      · exact ih (List.mem_cons_of_mem _ hl)

/-- A text with the line of the given number replaced. -/
def Text.withLine (t : Text) (n : Nat) (new : Text) : Text := List.intercalate ['\n'] (t.lines.set n new)

/-- A line that holds no line feed stays one line. -/
theorem lines_withLine (t : Text) (n : Nat) {new : Text} (hnew : '\n' ∉ new) :
    (t.withLine n new).lines = t.lines.set n new := by
  apply List.splitOn_intercalate
  · intro l hl
    rcases List.mem_or_eq_of_mem_set hl with hl | rfl
    · exact lf_not_mem_of_mem_lines hl
    · exact hnew
  · rw [ne_eq, List.set_eq_nil_iff]
    exact List.splitOn_ne_nil _ _

/-- A text is what its lines say: if they are those of another one with a line replaced, so is the text. -/
theorem eq_withLine_of_lines {t u new : Text} {n : Nat} (h : u.lines = t.lines.set n new) :
    u = t.withLine n new := by
  rw [Text.withLine, ← h]
  exact (List.intercalate_splitOn '\n').symm

/-! ## Parsing -/

/-- **Parsing respects joining.** -/
theorem parseTags_append_lf (a b file : Text) :
    parseTags (a ++ '\n' :: b) file =
      parseTags a file ++ (parseTags b file).map (·.down (a.count '\n' + 1)) := by
  have hlines : Text.lines (a ++ '\n' :: b) = a.lines ++ b.lines := List.splitOn_append_cons_self a b
  rw [parseTags, hlines, tagsInLines_append, length_lines, tagsInLines_down]
  rfl

/-- The scan of a line finds nothing on another line. -/
theorem filter_tagsInLine_elsewhere (n : Nat) (l : Text) :
    (tagsInLine file n 0 l).filter (·.range.start.line ≠ n) = [] := by
  rw [List.filter_eq_nil_iff]
  intro o ho
  simpa using (tagsInLine_bounds ho).2.1

/-- **A replaced line is the only one that changes**: the tags on all other lines are what they were. -/
theorem filter_parseTags_withLine {t new : Text} {n : Nat} (hnew : '\n' ∉ new) (hn : n < t.lines.length) :
    (parseTags (t.withLine n new) file).filter (·.range.start.line ≠ n) =
      (parseTags t file).filter (·.range.start.line ≠ n) := by
  have hself : parseTags t file = tagsInLines file 0 (t.lines.set n t.lines[n]) := by
    rw [List.set_getElem_self]
    rfl
  rw [hself, parseTags, lines_withLine t n hnew, tagsInLines_set 0 hn, tagsInLines_set 0 hn, Nat.zero_add]
  simp only [List.filter_append, filter_tagsInLine_elsewhere]

/-- On the replaced line stand the tags of the new text. -/
theorem filter_parseTags_withLine_self {t new : Text} {n : Nat} (hnew : '\n' ∉ new)
    (hn : n < t.lines.length) :
    (parseTags (t.withLine n new) file).filter (·.range.start.line = n) =
      (parseTags new file).map (·.down n) := by
  have hline := filter_tagsInLines file 0 n (t.lines.set n new)
  rw [List.getElem?_set_self hn, Nat.zero_add] at hline
  rw [parseTags, lines_withLine t n hnew, hline, parseTags_of_not_mem hnew, ← tagsInLine_down, Nat.zero_add]
  rfl

/-- **Parsing is local to lines**, for all texts. The tags of two texts with a line feed between them are those
    of the first, and those of the second as many lines further down as the first has, which is one more
    than it has line feeds. If one line of a text is replaced by a text without a line feed, it stays one
    line, the tags on all other lines are what they were, and on this one stand the tags of the new text. -/
theorem parseTags_local (file : Text) :
    (∀ a b, parseTags (a ++ '\n' :: b) file =
      parseTags a file ++ (parseTags b file).map (·.down (a.count '\n' + 1))) ∧
    (∀ a : Text, a.lines.length = a.count '\n' + 1) ∧
    ∀ (t new : Text) (n : Nat), '\n' ∉ new → n < t.lines.length →
      (t.withLine n new).lines = t.lines.set n new ∧
      (parseTags (t.withLine n new) file).filter (·.range.start.line ≠ n) =
        (parseTags t file).filter (·.range.start.line ≠ n) ∧
      (parseTags (t.withLine n new) file).filter (·.range.start.line = n) =
        (parseTags new file).map (·.down n) := by
  refine ⟨fun a b => parseTags_append_lf a b file, length_lines, ?_⟩
  intro t new n hnew hn
  exact ⟨lines_withLine t n hnew, filter_parseTags_withLine hnew hn, filter_parseTags_withLine_self hnew hn⟩

/-- A note with tags on its first three lines, and a line feed at its end. -/
def threeLineNote : Text := "#a #b\nsee #a/b\n#b/\n".toList

/-- The second line is replaced by one that begins and ends with a tag: the tags around it are where they
    were. -/
theorem threeLineNote_replaced :
    (parseTags (threeLineNote.withLine 1 "#c x #d".toList) []).filter (·.range.start.line ≠ 1) =
      [⟨[['a']], [], ⟨⟨0, 0⟩, ⟨0, 2⟩⟩⟩, ⟨[['b']], [], ⟨⟨0, 3⟩, ⟨0, 5⟩⟩⟩,
        ⟨[['b']], [], ⟨⟨2, 0⟩, ⟨2, 2⟩⟩⟩] ∧
    (parseTags (threeLineNote.withLine 1 "#c x #d".toList) []).filter (·.range.start.line = 1) =
      [⟨[['c']], [], ⟨⟨1, 0⟩, ⟨1, 2⟩⟩⟩, ⟨[['d']], [], ⟨⟨1, 5⟩, ⟨1, 7⟩⟩⟩] := by
  obtain ⟨-, -, hreplaced⟩ := parseTags_local []
  obtain ⟨-, helsewhere, hthere⟩ :=
    hreplaced threeLineNote "#c x #d".toList 1 (by decide) (by decide)
  rw [helsewhere, hthere]
  exact ⟨by decide, by decide⟩

/-! ## On disk -/

section Disk

variable {d d' : Disk} {n : Nat} {expected new : Text}
  (h : d.replaceLine file n expected new = (d', .ok ())) (hplain : Plain new)
  (hkeeps : new = [] → ∀ p raw, d.Holds file p raw → ¬JoinsBreaks (breaksOf raw) n)
include h hplain hkeeps

/-- Replacing a line of a document on disk is replacing that line of the text which readers see. -/
theorem readDocument_replaceLine :
    ∃ text, d.readDocument file = .ok text ∧ n < text.lines.length ∧
      d'.readDocument file = .ok (text.withLine n new) := by
  cases replaceLine_eq_iff.mp h with
  | @replaced p raw m hholds hline hexpected _ _ =>
    obtain rfl : n = m := Int.ofNat_inj.mp hline
    have hafter := (lineReplaced_put hholds n new).after
    have hlines := (lines_breaksOf_setLine raw hplain fun hnil => hkeeps hnil p raw hholds).1
    rw [renderLines_setLine, Int.toNat_natCast] at hlines
    refine ⟨raw.unifyBreaks, ?_, (List.getElem?_eq_some_iff.mp hexpected).1, ?_⟩
    · rw [Disk.readDocument, Disk.readRaw_eq_ok_iff.mpr hholds]
      rfl
    · rw [Disk.readDocument, Disk.readRaw_eq_ok_iff.mpr hafter, ← eq_withLine_of_lines hlines]
      rfl

/-- **An applied edit disturbs no tag of another line.** -/
theorem tags_elsewhere_of_replaceLine (key : Text) :
    ∃ text text', d.readDocument file = .ok text ∧ d'.readDocument file = .ok text' ∧
      (parseTags text' key).filter (·.range.start.line ≠ n) =
        (parseTags text key).filter (·.range.start.line ≠ n) := by
  obtain ⟨text, hbefore, hn, hafter⟩ := readDocument_replaceLine h hplain hkeeps
  exact ⟨text, _, hbefore, hafter, filter_parseTags_withLine hplain.2 hn⟩

end Disk

end HashtagIndex
