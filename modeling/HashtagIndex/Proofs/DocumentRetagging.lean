import HashtagIndex.Proofs.Editing
import HashtagIndex.Proofs.Planning

/-!
# `Proofs.DocumentRetagging` — the tags of a document before and after a rename

The occurrences of a document are those of its lines in turn, and how far a column moves depends on the
tags of its own line only. So the comparison of one line carries over to whole documents
(`forall₂_tagsInLines_retagged`), and the edits planned from a scan of the present text make exactly the
lines that are compared there (`editLines_eq_retaggedLines`).
-/

namespace HashtagIndex

variable {p q : TagPath}

/-- A tag without a renamed tag in front of it stays where it is. -/
theorem Retagged.of_not_mem {growth : Int} {os : List Occurrence} (h : ∀ u ∈ os, u.path ≠ p)
    {o : Occurrence} (ho : o ∈ os) : Retagged p q growth os o o := by
  have hcount : ∀ line column, endedBy p os line column = 0 := fun line column =>
    endedBy_eq_zero fun u hu hpath => absurd hpath (h u hu)
  refine ⟨by rw [if_neg (h o ho)], rfl, rfl, rfl, ?_, ?_⟩ <;> simp [hcount]

/-- How far an occurrence moves depends on the tags of its line only. -/
theorem Retagged.congr {growth : Int} {os us : List Occurrence} {o o' : Occurrence}
    (hstart : ∀ c, endedBy p us o.range.start.line c = endedBy p os o.range.start.line c)
    (hstop : ∀ c, endedBy p us o.range.stop.line c = endedBy p os o.range.stop.line c)
    (h : Retagged p q growth os o o') : Retagged p q growth us o o' :=
  ⟨h.path, h.file, h.startLine, h.stopLine, by rw [hstart]; exact h.start, by rw [hstop]; exact h.stop⟩

theorem stop_line_of_mem_tagsInLines {file : Text} {line : Nat} {ls : List Text} {o : Occurrence}
    (ho : o ∈ tagsInLines file line ls) : o.range.stop.line = o.range.start.line := by
  induction ls generalizing line with
  | nil => simp [tagsInLines] at ho
  | cons l ls ih =>
    rcases List.mem_append.mp ho with ho | ho
    · have := tagsInLine_bounds ho
      omega
    · exact ih ho

/-- On a line, what counts are the tags of that line. -/
theorem endedBy_tagsInLines (file : Text) {ls : List Text} {n : Nat} {l : Text} (hl : ls[n]? = some l)
    (column : Nat) :
    endedBy p (tagsInLines file 0 ls) n column = endedBy p (tagsInLine file n 0 l) n column := by
  have hline := filter_tagsInLines file 0 n ls
  rw [Nat.zero_add, hl, Option.map_some, Option.getD_some] at hline
  rw [← hline, endedBy, endedBy, List.countP_filter]
  refine List.countP_congr fun o ho => ?_
  have := stop_line_of_mem_tagsInLines ho
  simp only [decide_eq_true_eq, Bool.and_eq_true, this]
  constructor
  · rintro ⟨hpath, hn, hcol⟩
    exact ⟨⟨hpath, hn, hcol⟩, hn⟩
  · exact fun h => h.1

/-- Documents are compared line by line. -/
theorem forall₂_tagsInLines {R : Occurrence → Occurrence → Prop} {file : Text} {line : Nat}
    {ls : List Text} {f : Nat → Text → Text}
    (h : ∀ n l, ls[n]? = some l →
      List.Forall₂ R (tagsInLine file (line + n) 0 l) (tagsInLine file (line + n) 0 (f n l))) :
    List.Forall₂ R (tagsInLines file line ls) (tagsInLines file line (ls.mapIdx f)) := by
  induction ls generalizing line f with
  | nil => exact List.Forall₂.nil
  | cons l ls ih =>
    rw [List.mapIdx_cons, tagsInLines, tagsInLines]
    refine List.rel_append (h 0 l rfl) (ih fun n u hu => ?_)
    have := h (n + 1) u (by simpa using hu)
    rwa [show line + (n + 1) = line + 1 + n by omega] at this

/-- The lines of a document with the tags at a path replaced. -/
def retaggedLines (file : Text) (p q : TagPath) (ls : List Text) : List Text :=
  ls.mapIdx fun n l =>
    replaceTags (writtenTag p) (writtenTag q) l ((tagsInLine file n 0 l).filter (·.path = p))

/-- **Renaming the tags of a document moves its occurrences** as `Retagged` says, and does nothing
    else. A path that no document can spell does not occur. -/
theorem forall₂_tagsInLines_retagged (hq : ValidPath p → ValidPath q) (file : Text)
    (ls : List Text) :
    List.Forall₂
      (Retagged p q ((writtenTag q).length - (writtenTag p).length) (tagsInLines file 0 ls))
      (tagsInLines file 0 ls) (tagsInLines file 0 (retaggedLines file p q ls)) := by
  refine forall₂_tagsInLines fun n l hl => ?_
  rw [Nat.zero_add]
  have hcount := endedBy_tagsInLines (p := p) file hl
  have hlocal : List.Forall₂
      (Retagged p q ((writtenTag q).length - (writtenTag p).length) (tagsInLine file n 0 l))
      (tagsInLine file n 0 l) (tagsInLine file n 0 (replaceTags (writtenTag p) (writtenTag q) l
        ((tagsInLine file n 0 l).filter (·.path = p)))) := by
    by_cases hp : ValidPath p
    · exact forall₂_retagged hp (hq hp) file n l
    · have hnone : ∀ o ∈ tagsInLine file n 0 l, o.path ≠ p := fun o ho hpath =>
        hp (hpath ▸ (slice_of_mem_tagsInLine [] ho).2)
      have hfilter : (tagsInLine file n 0 l).filter (·.path = p) = [] := by
        rw [List.filter_eq_nil_iff]
        exact fun o ho => by simpa using hnone o ho
      rw [hfilter, replaceTags_nil, List.forall₂_same]
      exact fun o ho => Retagged.of_not_mem hnone ho
  -- the count over the document is the count over the line
  have hlines : ∀ o ∈ tagsInLine file n 0 l, o.range.start.line = n ∧ o.range.stop.line = n :=
    fun o ho => ⟨(tagsInLine_bounds ho).2.1, (tagsInLine_bounds ho).2.2.1⟩
  refine ((List.forall₂_and_left _ _).mpr ⟨hlines, hlocal⟩).imp ?_
  rintro o o' ⟨⟨hstart, hstop⟩, h⟩
  exact h.congr (by rw [hstart]; exact hcount) (by rw [hstop]; exact hcount)

/-- What a document's record has for a path on a line is what a scan of that line finds. -/
theorem filter_occurrences_line {file t : Text} {n : Nat} {l : Text} (hl : t.lines[n]? = some l) :
    ((parseTags t file).filter (·.path = p)).filter (·.range.start.line = n) =
      (tagsInLine file n 0 l).filter (·.path = p) := by
  have hline := filter_tagsInLines file 0 n t.lines
  rw [Nat.zero_add, hl, Option.map_some, Option.getD_some] at hline
  rw [← hline, parseTags, List.filter_filter, List.filter_filter]
  exact List.filter_congr fun o _ => Bool.and_comm _ _

/-- **Edits planned from a scan of the present text** make the lines with the tags replaced. -/
theorem editLines_eq_retaggedLines {file t : Text} {es : List Edit}
    (hdistinct : es.Pairwise (·.line ≠ ·.line))
    (hmem : ∀ e, e ∈ es ↔ e ∈ planLines file (writtenTag p) (writtenTag q) t.lines
      ((parseTags t file).filter (·.path = p))) :
    editLines es t.lines = retaggedLines file p q t.lines := by
  refine List.ext_getElem? fun n => ?_
  rw [retaggedLines, List.getElem?_mapIdx]
  cases hl : t.lines[n]? with
  | none =>
    have hno : ∀ e ∈ es, e.line ≠ n := by
      rintro e he rfl
      have := (mem_planLines.mp ((hmem e).mp he)).2.1
      rw [hl] at this
      cases this
    rw [getElem?_editLines_of_not_mem hno, hl, Option.map_none]
  | some l =>
    rw [Option.map_some, ← filter_occurrences_line hl]
    set text := replaceTags (writtenTag p) (writtenTag q) l
      (((parseTags t file).filter (·.path = p)).filter (·.range.start.line = n)) with htext
    by_cases hchanged : text = l
    · have hno : ∀ e ∈ es, e.line ≠ n := by
        rintro e he rfl
        obtain ⟨-, hold, hnew, hne⟩ := mem_planLines.mp ((hmem e).mp he)
        rw [hl] at hold
        rw [← Option.some.inj hold] at hnew hne
        exact hne (hnew.trans hchanged)
      rw [getElem?_editLines_of_not_mem hno, hl, hchanged]
    · have he : (⟨file, n, l, text⟩ : Edit) ∈ es :=
        (hmem _).mpr (mem_planLines.mpr ⟨rfl, hl, htext, hchanged⟩)
      have hin : n < t.lines.length := (List.getElem?_eq_some_iff.mp hl).1
      exact getElem?_editLines_of_mem hdistinct he hin

/-- How much longer a tag's text becomes when its last segment is replaced. -/
theorem length_writtenTag_renamedPath {p : TagPath} (hp : p ≠ []) (name : Text) :
    ((writtenTag (renamedPath p name)).length : Int) - (writtenTag p).length =
      name.length - (p.getLast hp).length := by
  have hlength : ∀ s : Text, ((joinSegments (p.dropLast ++ [s])).length : Int) =
      (joinSegments (p.dropLast ++ [[]])).length + s.length := by
    intro s
    by_cases h : p.dropLast = []
    · simp [h, joinSegments]
    · rw [joinSegments_concat h, joinSegments_concat h]
      simp only [List.length_append, List.length_cons, List.length_nil]
      omega
  have hpath := hlength (p.getLast hp)
  rw [List.dropLast_append_getLast] at hpath
  have hrenamed := hlength name
  simp only [writtenTag, renamedPath, List.length_cons]
  push_cast
  omega

end HashtagIndex
