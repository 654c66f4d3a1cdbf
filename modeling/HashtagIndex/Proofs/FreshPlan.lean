import HashtagIndex.Proofs.Accounting

/-!
# `Proofs.FreshPlan` — a plan that is applied before anything changes

A snapshot may be stale, for documents may have changed since they were scanned. A plan made from it is
not: it was made from what documents read as at that moment. Applied to the same disk it meets no
conflict, as long as its documents can be written and the snapshot knows no file by two names.

What has to be shown is that the edits do not get in each other's way. They come in the order of names
and lines (`Edit.Before`), so no two are for one line of one file. An edit leaves every other edit as
applicable as it was (`Applicable.of_rewritten`), and that carries over to the whole list
(`applyEdits_of_applicable`). What documents then read as is what any list of applied edits makes of them
(`Accounted.linesEdited`); as no line is named twice, the order of the edits does not show in it.

## Contents
- `Edit.Fresh`, `exists_planRename`: the edits of a plan.
- `editsAt_eq_filter`, `pairwise_editsAt`: the edits of one file.
- `LinesReplaced`, `PlanApplied`: what an applied plan makes of documents.
- `linesReplaced_of_accounted`, `applyEdits_of_fresh`: all edits of a plan.
- `fresh_plan_applies`, and a diary that was written on.
-/

namespace HashtagIndex

variable {d d' : Disk} {s : Index} {path : TagPath} {name : Text} {edits : List Edit} {e : Edit}

/-! ## The edits of a plan -/

/-- The documents of a snapshot are different files, each under a name that can be used. -/
structure DistinctFiles (d : Disk) (s : Index) : Prop where
  usable : ∀ k ∈ s.keys, '\x00' ∉ k
  apart : ∀ k ∈ s.keys, ∀ k' ∈ s.keys, d.Apart k k'

/-- An edit of a document of the snapshot as it reads now: its old text is what the line reads as, its
    new text is another one, and neither holds a break. -/
structure Edit.Fresh (d : Disk) (s : Index) (e : Edit) : Prop where
  indexed : e.file ∈ s.keys
  present : ∃ text, d.readDocument e.file = .ok text ∧ text.lines[e.line]? = some e.old
  changed : e.new ≠ e.old
  oldPlain : Plain e.old
  newPlain : Plain e.new

theorem fresh_of_mem_planOf (hs : FromScans s) (hname : isSegment name = true)
    (hfile : e.file ∈ s.keys) (he : e ∈ planOf d s path name e.file) : e.Fresh d s := by
  unfold planOf at he
  split at he
  · next text hread =>
    obtain ⟨-, hline, -, hchanged⟩ := mem_planLines.mp he
    obtain ⟨⟨p, raw⟩, -, rfl⟩ := map_eq_ok.mp hread
    exact ⟨hfile, ⟨_, hread, hline⟩, hchanged, plain_of_mem_lines (List.mem_of_getElem? hline),
      (new_of_mem_planLines hs hname he).1⟩
  · cases he

/-- **A plan is made** for every accepted name, and its edits come in order. -/
theorem exists_planRename (hfiles : DistinctFiles d s) (hname : checkName name = .ok name)
    (path : TagPath) :
    ∃ edits, planRename d s path name = .ok edits ∧ edits.Pairwise Edit.Before ∧
      ∀ e ∈ edits, e.file ∈ s.keys ∧ e ∈ planOf d s path name e.file := by
  by_cases hsame : path = [] ∨ path.getLast? = some name
  · -- there is nothing to rename
    refine ⟨[], ?_, List.Pairwise.nil, fun e he => absurd he List.not_mem_nil⟩
    unfold planRename
    simp only [hname, if_pos hsame]
  · obtain ⟨hpath, hlast⟩ := not_or.mp hsame
    obtain ⟨edits, hplan, hmem, hordered⟩ := @planEdits_eq_ok d s path name hfiles.usable
    exact ⟨edits, planRename_of_planEdits hname hpath hlast hplan, hordered, fun e => (hmem e).mp⟩

/-! ## Edits of one file -/

/-- To be for the file of a document of the snapshot is to be for its name. -/
theorem editsAt_eq_filter (hfiles : DistinctFiles d s) (hindexed : ∀ e ∈ edits, e.file ∈ s.keys)
    {file : Text} (hfile : file ∈ s.keys) {p : Path} {raw : Text}
    (hreads : d.readRaw file = .ok (p, raw)) :
    editsAt d p edits = edits.filter (·.file = file) := by
  apply List.filter_congr
  intro e he
  rw [decide_eq_decide, Disk.fileOf?_eq_some]
  constructor
  · rintro ⟨raw', hreads'⟩
    exact hfiles.apart _ (hindexed e he) _ hfile p raw' raw hreads' hreads
  · rintro rfl
    exact ⟨raw, hreads⟩

/-- Of the edits for one file no two are for one line. -/
theorem pairwise_editsAt (hfiles : DistinctFiles d s) (hindexed : ∀ e ∈ edits, e.file ∈ s.keys)
    (hordered : edits.Pairwise Edit.Before) (p : Path) :
    (editsAt d p edits).Pairwise (·.line ≠ ·.line) := by
  refine (hordered.filter _).imp_of_mem fun {a b} ha hb hab => ?_
  obtain ⟨ha, hap⟩ := List.mem_filter.mp ha
  obtain ⟨hb, hbp⟩ := List.mem_filter.mp hb
  obtain ⟨raw, hreads⟩ := Disk.fileOf?_eq_some.mp (of_decide_eq_true hap)
  obtain ⟨raw', hreads'⟩ := Disk.fileOf?_eq_some.mp (of_decide_eq_true hbp)
  exact hab.line_ne (hfiles.apart _ (hindexed a ha) _ (hindexed b hb) p raw raw' hreads hreads')

/-! ## What an applied plan makes of documents -/

/-- The lines of a document before and after edits: exactly those that the edits name are replaced. -/
structure LinesReplaced (es : List Edit) (before after : List Text) : Prop where
  planned : ∀ e ∈ es, before[e.line]? = some e.old ∧ after[e.line]? = some e.new
  kept : ∀ n, (∀ e ∈ es, e.line ≠ n) → after[n]? = before[n]?

/-- What an applied plan makes of a disk. In every document that can be read, under whatever name, the
    planned lines of its file are replaced and all breaks stay; what cannot be read stays so, and files
    without an edit hold what they held. The documents of the snapshot have the edits with their names. -/
structure PlanApplied (d : Disk) (s : Index) (edits : List Edit) (d' : Disk) : Prop where
  documents : ∀ file p raw, d.readRaw file = .ok (p, raw) → ∃ raw', d'.readRaw file = .ok (p, raw') ∧
    breaksOf raw' = breaksOf raw ∧
    LinesReplaced (editsAt d p edits) raw.unifyBreaks.lines raw'.unifyBreaks.lines
  reread : ∀ file ∈ s.keys, ∀ text, d.readDocument file = .ok text → ∃ text',
    d'.readDocument file = .ok text' ∧
    LinesReplaced (edits.filter (·.file = file)) text.lines text'.lines
  unreadable : ∀ file f, d.readRaw file = .error f → d'.readRaw file = .error f
  elsewhere : ∀ p, editsAt d p edits = [] → d'.entries.get? p = d.entries.get? p
  layout : SameLayout d d'

/-- Lines that edits make one after the other are replaced, if no line is named twice. -/
theorem linesReplaced_editLines {es : List Edit} (hdistinct : es.Pairwise (·.line ≠ ·.line))
    {ls : List Text} (hold : ∀ e ∈ es, ls[e.line]? = some e.old) :
    LinesReplaced es ls (editLines es ls) where
  planned e he := by
    obtain ⟨hin, -⟩ := List.getElem?_eq_some_iff.mp (hold e he)
    exact ⟨hold e he, getElem?_editLines_of_mem hdistinct he hin⟩
  kept n hn := getElem?_editLines_of_not_mem hn ls

/-- Edits that can be carried out find their lines in whatever is read from their file. -/
theorem expected_of_mem_editsAt (happlicable : ∀ e ∈ edits, ∃ p raw, Applicable d e p raw)
    {file : Text} {p : Path} {raw : Text} (hreads : d.readRaw file = .ok (p, raw)) :
    ∀ e ∈ editsAt d p edits, raw.unifyBreaks.lines[e.line]? = some e.old := by
  intro e he
  obtain ⟨he, hp⟩ := List.mem_filter.mp he
  obtain ⟨q, t, hfits⟩ := happlicable e he
  obtain ⟨t', hreads'⟩ := Disk.fileOf?_eq_some.mp (of_decide_eq_true hp)
  obtain ⟨rfl, rfl⟩ := Prod.mk.inj (Except.ok.inj (hreads'.symm.trans hfits.reads))
  rw [Disk.eq_of_readRaw hreads hreads']
  exact hfits.expected

/-- **A document of which all edits were applied.** No edit of the plan empties a line, so its breaks
    stay, and as no line is named twice each named line has its own new text. -/
theorem linesReplaced_of_accounted (hfiles : DistinctFiles d s)
    (hindexed : ∀ e ∈ edits, e.file ∈ s.keys) (hordered : edits.Pairwise Edit.Before)
    (happlicable : ∀ e ∈ edits, ∃ p raw, Applicable d e p raw)
    (hdecided : Accounted d edits d' edits []) {file : Text} {p : Path} {raw : Text}
    (hreads : d.readRaw file = .ok (p, raw)) :
    ∃ raw', d'.readRaw file = .ok (p, raw') ∧ breaksOf raw' = breaksOf raw ∧
      LinesReplaced (editsAt d p edits) raw.unifyBreaks.lines raw'.unifyBreaks.lines := by
  have hnew : ∀ e ∈ edits, Plain e.new ∧ e.new ≠ [] := by
    intro e he
    obtain ⟨q, t, hfits⟩ := happlicable e he
    exact ⟨hfits.plain, hfits.nonempty⟩
  obtain ⟨⟨raw', hreads', hlines, hbreaks⟩, -⟩ := hdecided.linesEdited (fun e he => (hnew e he).1)
    hreads rfl fun e he hempty => absurd hempty (hnew e (List.mem_of_mem_filter he)).2
  refine ⟨raw', hreads', hbreaks, ?_⟩
  rw [hlines]
  apply linesReplaced_editLines
  · exact pairwise_editsAt hfiles hindexed hordered p
  · exact expected_of_mem_editsAt happlicable hreads

/-- **The edits of a plan are all applied**, and documents read as planned. -/
theorem applyEdits_of_fresh (hs : FromScans s) (hfiles : DistinctFiles d s)
    (hname : isSegment name = true) (hordered : edits.Pairwise Edit.Before)
    (hmem : ∀ e ∈ edits, e.file ∈ s.keys ∧ e ∈ planOf d s path name e.file)
    (hwritable : ∀ e ∈ edits, d.Writable e.file) :
    ∃ d', applyEdits d edits = (d', .ok (edits, [])) ∧ PlanApplied d s edits d' := by
  have hindexed : ∀ e ∈ edits, e.file ∈ s.keys := fun e he => (hmem e he).1
  have happlicable : ∀ e ∈ edits, ∃ p raw, Applicable d e p raw := fun e he =>
    applicable_of_mem_plan hs hname (hmem e he).2 (hwritable e he)
  obtain ⟨d', happly, hlayout, hedited⟩ := applyEdits_of_applicable happlicable
    (hordered.imp Edit.Before.line_ne)
    fun a ha b hb => hfiles.apart _ (hindexed a ha) _ (hindexed b hb)
  -- every decision was to apply the edit
  have hdecided : Accounted d edits d' edits [] := accounted_of_applyEdits happly
  have hdocuments := fun file p raw (hreads : d.readRaw file = .ok (p, raw)) =>
    linesReplaced_of_accounted hfiles hindexed hordered happlicable hdecided hreads
  refine ⟨d', happly, hdocuments, ?_, ?_, fun p hp => hdecided.get?_eq hp rfl, hlayout⟩
  · intro file hfile text htext
    obtain ⟨⟨p, raw⟩, hreads, rfl⟩ := map_eq_ok.mp htext
    obtain ⟨raw', hreads', -, hlines⟩ := hdocuments file p raw hreads
    rw [editsAt_eq_filter hfiles hindexed hfile hreads] at hlines
    exact ⟨raw'.unifyBreaks, map_eq_ok.mpr ⟨_, hreads', rfl⟩, hlines⟩
  · -- a document that cannot be read is apart from every document
    intro file f hfails
    have hedit := hedited file fun e _ p raw raw' _ hreads => by cases hfails.symm.trans hreads
    rw [hfails] at hedit
    generalize d'.readRaw file = r at hedit
    cases hedit with
    | failed f => rfl

/-- **A fresh plan applies without conflict.** From a snapshot whose records come from scans, however
    stale, and whose documents are different files, a rename to an accepted name plans edits in the order
    of names and lines, no two for one line, each for a line as it reads now. If its documents can be
    written and nothing changes before, applying the plan applies every edit and skips none, and then
    documents read as before with exactly the planned lines replaced. -/
theorem fresh_plan_applies (hs : FromScans s) (hfiles : DistinctFiles d s)
    (hname : checkName name = .ok name) (path : TagPath) :
    ∃ edits, planRename d s path name = .ok edits ∧ edits.Pairwise Edit.Before ∧
      (∀ e ∈ edits, e.Fresh d s) ∧
      ((∀ e ∈ edits, d.Writable e.file) → ∀ oldTag newTag, ∃ d',
        applyPlan d edits oldTag newTag = (d', .ok ⟨oldTag, newTag, edits, []⟩) ∧
          PlanApplied d s edits d') := by
  have hsegment := isSegment_of_checkName hname
  obtain ⟨edits, hplan, hordered, hmem⟩ := exists_planRename hfiles hname path
  refine ⟨edits, hplan, hordered, fun e he => ?_, ?_⟩
  · exact fresh_of_mem_planOf hs hsegment (hmem e he).1 (hmem e he).2
  · intro hwritable oldTag newTag
    obtain ⟨d', happly, hdone⟩ := applyEdits_of_fresh hs hfiles hsegment hordered hmem hwritable
    refine ⟨d', ?_, hdone⟩
    unfold applyPlan
    rw [happly]
    rfl

/-! ## A diary that was written on -/

theorem distinctFiles_writtenDiary : DistinctFiles writtenDiary diary.index where
  usable := by decide
  apart := by
    have hm : writtenDiary.readRaw "/w/m.md".toList =
        .ok ([['w'], "m.md".toList], "#a #a/b #ab\r\nlate #a#a".toList) := by cbv
    have ht : writtenDiary.readRaw "/w/t.md".toList =
        .ok ([['w'], "t.md".toList], "no #b/a\n#a more".toList) := by cbv
    rw [keys_diary]
    exact Disk.apart_pair hm ht (by decide)

/-- The index of the diary is out of date for the second day. A rename planned from it all the same
    changes two lines of the first day and one of the second, as they read now; no edit is skipped, and
    the line that the plan does not name stays. -/
theorem writtenDiary_plan_applied :
    ∃ edits d', planRename writtenDiary diary.index [['a']] "long".toList = .ok edits ∧
      edits.map (fun e => (e.file, e.line)) =
        [("/w/m.md".toList, 0), ("/w/m.md".toList, 1), ("/w/t.md".toList, 1)] ∧
      edits.Pairwise Edit.Before ∧
      applyPlan writtenDiary edits "#a".toList "#long".toList =
        (d', .ok ⟨"#a".toList, "#long".toList, edits, []⟩) ∧
      ∃ text, d'.readDocument "/w/t.md".toList = .ok text ∧
        text.lines[0]? = some "no #b/a".toList ∧ text.lines[1]? = some "#long more".toList := by
  have hname : checkName "long".toList = .ok "long".toList := by decide
  obtain ⟨edits, hplan, hordered, -, happlies⟩ := fresh_plan_applies inStep_diary.fromScans
    distinctFiles_writtenDiary hname [['a']]
  let planned : List Edit :=
    [⟨"/w/m.md".toList, 0, "#a #a/b #ab".toList, "#long #a/b #ab".toList⟩,
      ⟨"/w/m.md".toList, 1, "late #a#a".toList, "late #long#long".toList⟩,
      ⟨"/w/t.md".toList, 1, "#a more".toList, "#long more".toList⟩]
  have hplanned : planRename writtenDiary diary.index [['a']] "long".toList = .ok planned := by cbv
  obtain rfl := Except.ok.inj (hplan.symm.trans hplanned)
  obtain ⟨d', happly, hdone⟩ := happlies (by decide) "#a".toList "#long".toList
  refine ⟨planned, d', hplan, rfl, hordered, happly, ?_⟩
  obtain ⟨text, hread, hlines⟩ :=
    hdone.reread "/w/t.md".toList (by decide) "no #b/a\n#a more".toList (by cbv)
  refine ⟨text, hread, ?_, ?_⟩
  · exact (hlines.kept 0 (by decide)).trans (by decide)
  · exact (hlines.planned ⟨"/w/t.md".toList, 1, "#a more".toList, "#long more".toList⟩ (by decide)).2

end HashtagIndex
