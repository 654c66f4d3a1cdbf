import HashtagIndex.Proofs.LineViews
import HashtagIndex.Proofs.Outcomes
import HashtagIndex.Proofs.Retagging
import HashtagIndex.Proofs.Scanning
import HashtagIndex.Proofs.TextOrder

/-!
# `Proofs.Planning` — the edits of a plan

A plan has one edit for each line that the replacement changes, in the order of documents and lines,
and no other. The recorded places only say *where* to look: which line numbers are visited is not needed
to say what the edits are, because on a line without recorded places nothing is replaced.
-/

namespace HashtagIndex

variable {file old new : Text} {lines : List Text} {os : List Occurrence}

/-- A line that the replacement changes has a recorded place. -/
theorem exists_of_replaceTags_ne {line : Text} {n : Nat}
    (h : replaceTags old new line (os.filter (·.range.start.line = n)) ≠ line) :
    ∃ o ∈ os, o.range.start.line = n := by
  cases hos : os.filter (·.range.start.line = n) with
  | nil =>
    rw [hos, replaceTags_nil] at h
    exact absurd rfl h
  | cons o rest =>
    have ho : o ∈ os.filter (·.range.start.line = n) := by
      rw [hos]
      simp
    obtain ⟨ho, hline⟩ := List.mem_filter.mp ho
    exact ⟨o, ho, by simpa using hline⟩

/-- **The edits of a document**: one for each line that the replacement changes. -/
theorem mem_planLines {e : Edit} :
    e ∈ planLines file old new lines os ↔
      e.file = file ∧ lines[e.line]? = some e.old ∧
        e.new = replaceTags old new e.old (os.filter (·.range.start.line = e.line)) ∧
        e.new ≠ e.old := by
  simp only [planLines, List.mem_filterMap, List.mem_mergeSort, List.mem_eraseDups, List.mem_map]
  constructor
  · rintro ⟨n, -, hn⟩
    split at hn
    · cases hn
    · next line hline =>
      split at hn
      · cases hn
      · next hchanged =>
        obtain rfl := Option.some.inj hn
        exact ⟨rfl, hline, rfl, hchanged⟩
  · rintro ⟨rfl, hline, hnew, hchanged⟩
    have hplace := exists_of_replaceTags_ne (hnew ▸ hchanged)
    refine ⟨e.line, hplace, ?_⟩
    rw [hline]
    simp only
    rw [← hnew, if_neg hchanged]

/-- An edit is for a line with a recorded place. -/
theorem exists_place_of_mem_planLines {e : Edit} (h : e ∈ planLines file old new lines os) :
    ∃ o ∈ os, o.range.start.line = e.line := by
  obtain ⟨-, -, hnew, hchanged⟩ := mem_planLines.mp h
  exact exists_of_replaceTags_ne (hnew ▸ hchanged)

/-- The edits of a document come in the order of their lines, at most one for each. -/
theorem pairwise_planLines : (planLines file old new lines os).Pairwise (·.line < ·.line) := by
  have hsorted : ((os.map (·.range.start.line)).eraseDups.mergeSort).Pairwise (· < ·) := by
    have hle := @List.pairwise_mergeSort Nat (fun a b => decide (a ≤ b))
      (by simp only [decide_eq_true_eq]; omega) (by simp only [Bool.or_eq_true, decide_eq_true_eq]; omega)
      (os.map (·.range.start.line)).eraseDups
    have hnodup := (List.mergeSort_perm (os.map (·.range.start.line)).eraseDups (· ≤ ·)).nodup_iff.mpr
      (nodup_eraseDups _)
    refine (hle.and hnodup).imp fun h => ?_
    have := of_decide_eq_true h.1
    have := h.2
    omega
  rw [planLines, List.pairwise_filterMap]
  refine hsorted.imp fun {n m} hlt a ha b hb => ?_
  -- an edit is for the line that it was made from
  cases hn : lines[n]? with
  | none => simp [hn] at ha
  | some line =>
    cases hm : lines[m]? with
    | none => simp [hm] at hb
    | some line' =>
      simp only [hn, Option.ite_none_left_eq_some, Option.some.injEq] at ha
      simp only [hm, Option.ite_none_left_eq_some, Option.some.injEq] at hb
      rw [← ha.2, ← hb.2]
      exact hlt

/-! ## Snapshots from scans -/

/-- A snapshot each record of which comes from scanning some text of its document. -/
def FromScans (s : Index) : Prop := ∀ file r, s.get? file = some r → ∃ t, r = ⟨file, parseTags t file⟩

/-- What a snapshot from scans has recorded for a tag on a line: places that stand one behind the
    other, each of a valid path. -/
theorem FromScans.places {s : Index} (hs : FromScans s) (path : TagPath) (file : Text) (n : Nat) :
    let os := (occurrencesOf s path file).filter (·.range.start.line = n)
    (os.Pairwise fun a b => a.span.2 ≤ b.span.1) ∧ (∀ o ∈ os, o.span.1 < o.span.2) ∧
      ∀ o ∈ os, o.path = path ∧ ValidPath path := by
  intro os
  cases hget : s.get? file with
  | none => simp [os, occurrencesOf, hget]
  | some r =>
    obtain ⟨t, rfl⟩ := hs file r hget
    have hos : os = ((parseTags t file).filter (·.range.start.line = n)).filter (·.path = path) := by
      simp only [os, occurrencesOf, hget, Option.map_some, Option.getD_some, List.filter_filter]
      exact List.filter_congr fun o _ => Bool.and_comm _ _
    have hline := filter_tagsInLines file 0 n t.lines
    rw [Nat.zero_add] at hline
    rw [hos, parseTags, hline]
    cases t.lines[n]? with
    | none => simp
    | some line =>
      refine ⟨(tagsInLine_disjoint file n 0 line).sublist List.filter_sublist, ?_, ?_⟩
      · intro o ho
        have := tagsInLine_bounds (List.mem_filter.mp ho).1
        exact Nat.lt_of_succ_lt this.2.2.2.2.1
      · intro o ho
        obtain ⟨ho, hpath⟩ := List.mem_filter.mp ho
        have hpath : o.path = path := by simpa using hpath
        exact ⟨hpath, hpath ▸ (slice_of_mem_tagsInLine [] ho).2⟩

/-- A snapshot from scans changes a line only for a path that documents can spell. -/
theorem FromScans.validPath_of_mem {s : Index} (hs : FromScans s) {path : TagPath} {e : Edit}
    (he : e ∈ planLines file old new lines (occurrencesOf s path e.file)) : ValidPath path := by
  obtain ⟨o, ho, hline⟩ := exists_place_of_mem_planLines he
  have ho : o ∈ (occurrencesOf s path e.file).filter (·.range.start.line = e.line) :=
    List.mem_filter.mpr ⟨ho, decide_eq_true hline⟩
  exact ((hs.places path e.file e.line).2.2 o ho).2

/-- A snapshot has places only for its documents. -/
theorem mem_keys_of_mem_occurrencesOf {s : Index} {path : TagPath} {o : Occurrence}
    (h : o ∈ occurrencesOf s path file) : file ∈ s.keys := by
  unfold occurrencesOf at h
  cases hr : s.get? file with
  | none =>
    rw [hr] at h
    cases h
  | some r => exact OrderedMap.mem_keys_iff.mpr ⟨r, hr⟩

/-! ## Plans for all documents -/

/-- **Where an edit of a plan comes from**: the present text of its document, and the places that the
    snapshot has for its line. -/
theorem exists_of_mem_planEdits {d : Disk} {s : Index} {path : TagPath} {name : Text}
    {edits : List Edit} (h : planEdits d s path name = .ok edits) {e : Edit} (he : e ∈ edits) :
    ∃ text, d.readDocument e.file = .ok text ∧
      e ∈ planLines e.file (writtenTag path) (writtenTag (renamedPath path name)) text.lines
        (occurrencesOf s path e.file) := by
  obtain ⟨plans, hplans, hflat⟩ := bind_eq_ok.mp h
  obtain rfl := Except.ok.inj hflat
  obtain ⟨plan, hplan, he⟩ := List.mem_flatten.mp he
  obtain ⟨file, -, hfile⟩ := exists_of_mem_mapM hplans hplan
  rw [planFile] at hfile
  split at hfile
  · obtain rfl := Except.ok.inj hfile
    simp at he
  · split at hfile
    · obtain rfl := Except.ok.inj hfile
      simp at he
    · cases hfile
    · next text htext =>
      obtain rfl := Except.ok.inj hfile
      have hsame : e.file = file := (mem_planLines.mp he).1
      rw [hsame]
      exact ⟨text, htext, he⟩

/-- A plan edits no document that the snapshot has no record of. -/
theorem mem_keys_of_mem_planEdits {d : Disk} {s : Index} {path : TagPath} {name : Text}
    {edits : List Edit} (h : planEdits d s path name = .ok edits) {e : Edit} (he : e ∈ edits) :
    e.file ∈ s.keys := by
  obtain ⟨text, -, hmem⟩ := exists_of_mem_planEdits h he
  obtain ⟨o, ho, -⟩ := exists_place_of_mem_planLines hmem
  exact mem_keys_of_mem_occurrencesOf ho

/-- A rename plans an edit only for a name that is accepted and not the present one, and takes it from the
    plan for all documents. -/
theorem planEdits_of_mem_planRename {d : Disk} {s : Index} {path : TagPath} {name : Text}
    {edits : List Edit} (h : planRename d s path name = .ok edits) {e : Edit} (he : e ∈ edits) :
    isSegment name = true ∧ planEdits d s path name = .ok edits := by
  unfold planRename at h
  split at h
  · cases h
  · next hname =>
    split at h
    · obtain rfl := Except.ok.inj h
      exact absurd he List.not_mem_nil
    · exact ⟨isSegment_of_checkName hname, mapError_eq_ok.mp h⟩

theorem mem_keys_of_mem_planRename {d : Disk} {s : Index} {path : TagPath} {name : Text}
    {edits : List Edit} (h : planRename d s path name = .ok edits) {e : Edit} (he : e ∈ edits) :
    e.file ∈ s.keys :=
  mem_keys_of_mem_planEdits (planEdits_of_mem_planRename h he).2 he

/-- A rename to another name plans what the plan for all documents has. -/
theorem planRename_of_planEdits {d : Disk} {s : Index} {path : TagPath} {name checked : Text}
    {edits : List Edit} (hname : checkName name = .ok checked) (hpath : path ≠ [])
    (hlast : path.getLast? ≠ some name) (h : planEdits d s path name = .ok edits) :
    planRename d s path name = .ok edits := by
  unfold planRename
  simp only [hname, hpath, hlast, or_self, if_false, h]
  rfl

/-- The edits that a plan has for a document as it reads at present. -/
def planOf (d : Disk) (s : Index) (path : TagPath) (name file : Text) : List Edit :=
  match d.readDocument file with
  | .ok text =>
    planLines file (writtenTag path) (writtenTag (renamedPath path name)) text.lines
      (occurrencesOf s path file)
  | .error _ => []

theorem planFile_eq_ok {d : Disk} {s : Index} {path : TagPath} {name file : Text}
    (hfile : '\x00' ∉ file) :
    planFile d (writtenTag path) (writtenTag (renamedPath path name)) file
      (occurrencesOf s path file) = .ok (planOf d s path name file) := by
  rw [planFile, planOf]
  cases hread : d.readDocument file with
  | error f =>
    cases f with
    | path f => exact absurd (readDocument_eq_path_iff.mp ⟨f, hread⟩) hfile
    | document f => simp
  | ok text =>
    split
    · next hnone => simp [hnone, planLines]
    · rfl

theorem file_of_mem_planOf {d : Disk} {s : Index} {path : TagPath} {name : Text} {e : Edit}
    (h : e ∈ planOf d s path name file) : e.file = file := by
  rw [planOf] at h
  split at h
  · exact (mem_planLines.mp h).1
  · cases h

/-- The order of a plan: documents by their names, and the edits of a document by their lines. -/
def Edit.Before (a b : Edit) : Prop :=
  (Text.le a.file b.file = true ∧ a.file ≠ b.file) ∨ (a.file = b.file ∧ a.line < b.line)

/-- In this order there is at most one edit for each line. -/
theorem Edit.Before.line_ne {a b : Edit} (h : a.Before b) (hfile : a.file = b.file) :
    a.line ≠ b.line := by
  rcases h with ⟨-, hne⟩ | ⟨-, hlt⟩
  · exact absurd hfile hne
  · exact Nat.ne_of_lt hlt

/-- **The whole plan**: the edits of each document that can be read, in the order of names and lines. -/
theorem planEdits_eq_ok {d : Disk} {s : Index} {path : TagPath} {name : Text}
    (hkeys : ∀ file ∈ s.keys, '\x00' ∉ file) :
    ∃ edits, planEdits d s path name = .ok edits ∧
      (∀ e, e ∈ edits ↔ e.file ∈ s.keys ∧ e ∈ planOf d s path name e.file) ∧
      edits.Pairwise Edit.Before := by
  have hplans : (Text.sort s.keys).mapM (fun file =>
      planFile d (writtenTag path) (writtenTag (renamedPath path name)) file
        (occurrencesOf s path file)) = .ok ((Text.sort s.keys).map (planOf d s path name)) := by
    rw [mapM_eq_ok, List.forall₂_map_right_iff, List.forall₂_same]
    exact fun file hfile => planFile_eq_ok (hkeys file (Text.mem_sort.mp hfile))
  refine ⟨_, bind_eq_ok.mpr ⟨_, hplans, rfl⟩, fun e => ?_, ?_⟩
  · rw [List.mem_flatten]
    constructor
    · rintro ⟨plan, hplan, he⟩
      obtain ⟨file, hfile, rfl⟩ := List.mem_map.mp hplan
      rw [file_of_mem_planOf he]
      exact ⟨Text.mem_sort.mp hfile, he⟩
    · rintro ⟨hfile, he⟩
      exact ⟨_, List.mem_map.mpr ⟨e.file, Text.mem_sort.mpr hfile, rfl⟩, he⟩
  · rw [List.pairwise_flatten]
    constructor
    · intro plan hplan
      obtain ⟨file, -, rfl⟩ := List.mem_map.mp hplan
      rw [planOf]
      split
      · refine pairwise_planLines.imp_of_mem fun {a b} ha hb hlt => Or.inr ⟨?_, hlt⟩
        rw [(mem_planLines.mp ha).1, (mem_planLines.mp hb).1]
      · exact List.Pairwise.nil
    · -- edits of different documents stand in the order of the documents
      rw [List.pairwise_map]
      have hnodup : (Text.sort s.keys).Nodup := (Text.perm_sort _).nodup_iff.mpr s.nodup_keys
      refine ((Text.pairwise_sort s.keys).and hnodup).imp fun {k k'} hkk' a ha b hb => ?_
      rw [Edit.Before, file_of_mem_planOf ha, file_of_mem_planOf hb]
      exact Or.inl hkk'

end HashtagIndex
