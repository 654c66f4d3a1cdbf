import HashtagIndex.Proofs.Planning
import Mathlib

/-!
# `Proofs.StalePlan` — what a plan from a stale index does to a line

A snapshot remembers where tags stood in some earlier text of a document. A plan made from it looks at
the present text: a recorded place whose text still reads as the old tag is rewritten. That comparison
ends where the recorded place ends. If the present line goes on there with more tag text, the tag that
stands there is a longer one, and it is rewritten all the same.

The main result says exactly when an edit renames whole tags only: when at each recorded place that is
rewritten the present line has a tag with exactly the old path. A note whose tag grew shows that this
can fail, a note whose tag moved that it can hold although the note was edited.

## Contents
- `renamesSome_replaceTags_iff`: one line and any separated places.
- The edits of a plan, and the two notes.
-/

namespace HashtagIndex

/-- The paths of the tags in a document. -/
def pathsOf (t : Text) : List TagPath := (parseTags t []).map (·.path)

/-- **Replacing at separated places of a line renames whole tags only**, exactly if every place that
    reads as the old tag is where a tag with the old path begins. -/
theorem renamesSome_replaceTags_iff {p q : TagPath} (hp : ValidPath p) (hq : ValidPath q)
    (hne : q ≠ p) {os : List Occurrence} (hdisj : os.Pairwise fun a b => a.span.2 ≤ b.span.1)
    (hwide : ∀ o ∈ os, o.span.1 < o.span.2) (line : Text) :
    RenamesSome p q (pathsInLine line)
        (pathsInLine (replaceTags (writtenTag p) (writtenTag q) line os)) ↔
      ∀ o ∈ os, line.slice o.span.1 o.span.2 = writtenTag p →
        ∃ u ∈ tagsInLine [] 0 0 line, u.path = p ∧ u.range.start.character = o.span.1 := by
  have hold := writtenTag_ne_nil p
  have hsep : Separated 0 (os.map Occurrence.span) :=
    ⟨fun _ _ => Nat.zero_le _, List.pairwise_map.mpr hdisj⟩
  obtain ⟨g, gs, hgaps⟩ : ∃ g gs, cutOut (writtenTag p) 0 (os.map Occurrence.span) line = g :: gs :=
    List.exists_cons_of_ne_nil (cutOut_ne_nil _ _ _)
  have hline : line = (writtenTag p).intercalate (g :: gs) := by
    rw [← hgaps, intercalate_cutOut hold hsep]
  -- the two lines have the same first gap, and then written tags before the same gaps
  have hpaths : RenamesSome p q (pathsInLine line)
        (pathsInLine (replaceTags (writtenTag p) (writtenTag q) line os)) ↔
      RenamesSome p q (pathsBehind p gs) (pathsBehind q gs) := by
    rw [replaceTags_eq_intercalate hold hdisj hwide, hgaps, pathsInLine_intercalate hq]
    conv => lhs; rw [hline, pathsInLine_intercalate hp]
    constructor
    · intro h
      have hdrop := List.forall₂_drop (pathsInLine g).length h
      rwa [List.drop_left, List.drop_left] at hdrop
    · intro h
      exact List.rel_append (RenamesSome.refl p q _) h
  have hbehind : (∀ h ∈ gs, tagBody h = []) ↔ ∀ s ∈ os.map Occurrence.span,
      line.slice s.1 s.2 = writtenTag p → tagBody (line.drop s.2) = [] := by
    have := forall_tail_cutOut_iff (p := fun t => tagBody t = []) hold hsep line
      fun h hs => by rw [tagBody_intercalate]
    rwa [hgaps] at this
  rw [hpaths, renamesSome_pathsBehind_iff hp hq hne, hbehind, List.forall_mem_map]
  refine forall_congr' fun o => forall_congr' fun _ => forall_congr' fun hreads => ?_
  exact (exists_mem_tagsInLine_iff hp hreads).symm

/-- **When an edit planned from a stale snapshot renames whole tags only.** The tags of the new line are
    those of the old line with some entries of the old path renamed, exactly if every recorded place on
    that line that still reads as the old tag is where the old line has a tag with the old path. -/
theorem renamesSome_planned_iff {d : Disk} {s : Index} {path : TagPath} {name : Text}
    {edits : List Edit} (hs : FromScans s) (hpath : path ≠ [])
    (hplan : planRename d s path name = .ok edits) {e : Edit} (he : e ∈ edits) :
    RenamesSome path (renamedPath path name) (pathsOf e.old) (pathsOf e.new) ↔
      ∀ o ∈ occurrencesOf s path e.file, o.range.start.line = e.line →
        e.old.slice o.range.start.character o.range.stop.character = writtenTag path →
        ∃ u ∈ parseTags e.old [], u.path = path ∧
          u.range.start.character = o.range.start.character := by
  rw [planRename] at hplan
  split at hplan
  · cases hplan
  next hname =>
  split at hplan
  · obtain rfl := Except.ok.inj hplan
    simp at he
  next hlast =>
  simp only [hpath, false_or] at hlast
  obtain ⟨text, hread, hedit⟩ := exists_of_mem_planEdits (mapError_eq_ok.mp hplan) he
  obtain ⟨-, hline, hnew, -⟩ := mem_planLines.mp hedit
  obtain ⟨hdisj, hwide, -⟩ := hs.places path e.file e.line
  have hp : ValidPath path := hs.validPath_of_mem hedit
  have hq : ValidPath (renamedPath path name) := hp.renamed (isSegment_of_checkName hname)
  have hold : '\n' ∉ e.old := by
    obtain ⟨r, -, rfl⟩ := map_eq_ok.mp hread
    exact (plain_of_mem_lines (List.mem_of_getElem? hline)).2
  have hnewline : '\n' ∉ e.new := by
    intro hc
    rw [hnew] at hc
    rcases mem_of_mem_replaceTags hc with hc | hc
    · exact hold hc
    · exact hq.not_mem_writtenTag isSegmentChar_lf (by decide) (by decide) hc
  have := renamesSome_replaceTags_iff hp hq (renamedPath_ne hlast) hdisj hwide e.old
  rw [← hnew] at this
  rw [pathsOf, pathsOf, parseTags_of_not_mem hold, parseTags_of_not_mem hnewline, ← pathsInLine,
    ← pathsInLine, this]
  simp only [List.mem_filter, decide_eq_true_eq, and_imp]
  rfl

/-! ## A note that was edited after it was scanned -/

/-- The name of the only note. -/
def notePath : Text := ['/', 'w', '/', 'n']

/-- A disk with one note. -/
def noteDisk (text : Text) : Disk :=
  { Disk.ofDirectories [] [['w']] [] with
    entries := .ofList [([['w']], .directory), ([['w'], ['n']], .file (encodeUtf8 text))] }

/-- The snapshot that a scan of the note gave when it held the given text. -/
def noteSnapshot (text : Text) : Index := .ofRecords [⟨notePath, parseTags text notePath⟩]

theorem fromScans_noteSnapshot (text : Text) : FromScans (noteSnapshot text) := by
  intro file r h
  have hget : (noteSnapshot text).get? file =
      if file = notePath then some ⟨notePath, parseTags text notePath⟩ else none :=
    OrderedMap.get?_insert _ _ _ _
  rw [hget] at h
  split at h
  · next hfile =>
    subst hfile
    exact ⟨text, (Option.some.inj h).symm⟩
  · cases h

/-- The tag moved, and the tag that begins like it stays: whole tags are renamed. -/
theorem renamesSome_note_moved :
    planRename (noteDisk "- #a #ab".toList) (noteSnapshot "- #a\n#ab".toList) [['a']] ['x'] =
        .ok [⟨notePath, 0, "- #a #ab".toList, "- #x #ab".toList⟩] ∧
      RenamesSome [['a']] [['x']] (pathsOf "- #a #ab".toList) (pathsOf "- #x #ab".toList) := by
  have hplan : planRename (noteDisk "- #a #ab".toList) (noteSnapshot "- #a\n#ab".toList)
      [['a']] ['x'] = .ok [⟨notePath, 0, "- #a #ab".toList, "- #x #ab".toList⟩] := by cbv
  refine ⟨hplan, (renamesSome_planned_iff (fromScans_noteSnapshot _) (by decide) hplan
    (List.mem_singleton.mpr rfl)).mpr ?_⟩
  decide

/-- The tag grew, and what was recorded still reads as the old tag: another tag is renamed. -/
theorem not_renamesSome_note_grown :
    FromScans (noteSnapshot "#a".toList) ∧
      planRename (noteDisk "#ab #a/c".toList) (noteSnapshot "#a".toList) [['a']] ['x'] =
        .ok [⟨notePath, 0, "#ab #a/c".toList, "#xb #a/c".toList⟩] ∧
      ¬RenamesSome [['a']] [['x']] (pathsOf "#ab #a/c".toList) (pathsOf "#xb #a/c".toList) :=
  ⟨fromScans_noteSnapshot _, by cbv, by decide⟩

end HashtagIndex
