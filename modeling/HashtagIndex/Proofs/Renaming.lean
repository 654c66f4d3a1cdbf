import HashtagIndex.Proofs.DocumentRetagging
import Mathlib

/-!
# `Proofs.Renaming` — a rename from end to end

A service whose index is in step with the disk plans a rename from what the documents really hold. Then
every planned edit finds the line it expects, none is skipped, and the full scan that follows sees each
document with exactly the tags at the old path replaced. The main result says so for the whole service:
which documents are indexed, how every occurrence moved, and which tags there are.

The steps: the plan is made of applicable edits (`applicable_of_mem_plan`), what a document reads as
afterwards (`Service.InStep.applyEdits_planned`), and the index that the full scan then gives.
-/

namespace HashtagIndex

variable {d d' : Disk} {s : Index} {path : TagPath} {name : Text}

/-- An edit of a plan from scans puts in one line, and not an empty one. -/
theorem new_of_mem_planLines (hs : FromScans s) (hname : isSegment name = true) {raw : Text} {e : Edit}
    (he : e ∈ planLines e.file (writtenTag path) (writtenTag (renamedPath path name))
      raw.unifyBreaks.lines (occurrencesOf s path e.file)) :
    Plain e.new ∧ e.new ≠ [] := by
  obtain ⟨-, hline, hnew, hchanged⟩ := mem_planLines.mp he
  have hold : Plain e.old := plain_of_mem_lines (List.mem_of_getElem? hline)
  have hq : ValidPath (renamedPath path name) := (hs.validPath_of_mem he).renamed hname
  have hplain : ∀ c, c ∉ e.old → c ∉ writtenTag (renamedPath path name) → c ∉ e.new := by
    intro c hc hc' hm
    rw [hnew] at hm
    rcases mem_of_mem_replaceTags hm with hm | hm
    · exact hc hm
    · exact hc' hm
  refine ⟨⟨?_, ?_⟩, fun hnil => ?_⟩
  · exact hplain _ hold.1 (hq.not_mem_writtenTag isSegmentChar_cr (by decide) (by decide))
  · exact hplain _ hold.2 (hq.not_mem_writtenTag isSegmentChar_lf (by decide) (by decide))
  · -- an empty line would have stayed as it was
    by_cases hempty : e.old = []
    · rw [hempty, replaceTags_empty_line (writtenTag_ne_nil _)] at hnew
      exact hchanged (hnew.trans hempty.symm)
    · rw [hnew] at hnil
      exact replaceTags_ne_nil (writtenTag_ne_nil _) hempty _ hnil

/-- An edit of a plan from scans can be carried out if its document can be written. -/
theorem applicable_of_mem_plan (hs : FromScans s) (hname : isSegment name = true) {e : Edit}
    (he : e ∈ planOf d s path name e.file)
    (hwritable : d.Writable e.file) :
    ∃ p raw, Applicable d e p raw := by
  rw [planOf] at he
  split at he
  · next text hread =>
    obtain ⟨⟨p, raw⟩, hraw, rfl⟩ := map_eq_ok.mp hread
    obtain ⟨-, hline, -, -⟩ := mem_planLines.mp he
    obtain ⟨hplain, hnonempty⟩ := new_of_mem_planLines hs hname he
    exact ⟨p, raw, hraw, hline, hwritable, hplain, hnonempty⟩
  · cases he

/-- A document that cannot be read as text before edits cannot be read afterwards. -/
theorem Edited.recordOf_eq_none {file : Text} {es : List Edit}
    (h : Edited es (d.readRaw file) (d'.readRaw file)) (hnone : recordOf d file = none) :
    recordOf d' file = none := by
  rw [recordOf, Disk.readDocument] at hnone ⊢
  generalize d.readRaw file = r at h hnone
  generalize d'.readRaw file = r' at h ⊢
  cases h with
  | failed f => rfl
  | read p _ _ => cases hnone

/-- What a document that could be read holds after its lines were edited. -/
theorem Edited.exists_raw {file : Text} {es : List Edit} {p : Path} {raw : Text}
    (h : Edited es (d.readRaw file) (d'.readRaw file)) (hraw : d.readRaw file = .ok (p, raw)) :
    ∃ raw', d'.readRaw file = .ok (p, raw') ∧
      raw'.unifyBreaks.lines = editLines es raw.unifyBreaks.lines ∧ breaksOf raw' = breaksOf raw := by
  rw [hraw] at h
  generalize d'.readRaw file = r' at h ⊢
  cases h with
  | read _ hlines hbreaks => exact ⟨_, rfl, hlines, hbreaks⟩

theorem Service.InStep.fromScans {sv : Service} (h : sv.InStep d) : FromScans sv.index := by
  intro file r hr
  obtain ⟨t, -, rfl⟩ := recordOf_eq_some.mp (h.recordOf_eq hr)
  exact ⟨t, rfl⟩

/-- A document before and after its tags at a path were replaced: the same file with the same breaks,
    and with the lines in which the tags are replaced. -/
def DocumentRetagged (d d' : Disk) (p q : TagPath) (file : Text) : Prop :=
  ∃ x raw raw', d.readRaw file = .ok (x, raw) ∧ d'.readRaw file = .ok (x, raw') ∧
    raw'.unifyBreaks.lines = retaggedLines file p q raw.unifyBreaks.lines ∧
    breaksOf raw' = breaksOf raw

/-- What a reader sees of a document whose tags were replaced. -/
theorem DocumentRetagged.exists_lines {p q : TagPath} {file : Text}
    (h : DocumentRetagged d d' p q file) :
    ∃ t t', d.readDocument file = .ok t ∧ d'.readDocument file = .ok t' ∧
      t'.lines = retaggedLines file p q t.lines := by
  obtain ⟨x, raw, raw', hraw, hraw', hlines, -⟩ := h
  refine ⟨raw.unifyBreaks, raw'.unifyBreaks, ?_, ?_, hlines⟩
  · exact map_eq_ok.mpr ⟨_, hraw, rfl⟩
  · exact map_eq_ok.mpr ⟨_, hraw', rfl⟩

/-- **The edits of a rename are all applied**, to documents of the index only, and every one of these
    then has its tags at the old path replaced; documents that could not be read still cannot. -/
theorem Service.InStep.applyEdits_planned {sv : Service} (h : sv.InStep d) (path : TagPath)
    (hname : isSegment name = true)
    (hapart : ∀ k ∈ sv.index.keys, ∀ k' ∈ sv.index.keys, d.Apart k k')
    (hwritable : ∀ k ∈ sv.index.keys, d.Writable k) :
    ∃ d' edits, planEdits d sv.index path name = .ok edits ∧
      applyEdits d edits = (d', .ok (edits, [])) ∧ SameLayout d d' ∧
      (∀ e ∈ edits, e.file ∈ sv.index.keys) ∧
      (∀ file, recordOf d file = none → recordOf d' file = none) ∧
      ∀ k ∈ sv.index.keys, DocumentRetagged d d' path (renamedPath path name) k := by
  have hscans := h.fromScans
  obtain ⟨edits, hplan, hmem, hordered⟩ :=
    planEdits_eq_ok (d := d) fun k hk => (h.exists_of_mem_keys hk).1
  have hlines : edits.Pairwise fun a b => a.file = b.file → a.line ≠ b.line :=
    hordered.imp Edit.Before.line_ne
  obtain ⟨d', happly, hlayout, hedited⟩ := applyEdits_of_applicable
    (fun e he => applicable_of_mem_plan hscans hname ((hmem e).mp he).2
      (hwritable _ ((hmem e).mp he).1)) hlines
    fun a ha b hb => hapart _ ((hmem a).mp ha).1 _ ((hmem b).mp hb).1
  refine ⟨d', edits, hplan, happly, hlayout, fun e he => ((hmem e).mp he).1, ?_, ?_⟩
  · -- a document that cannot be read is apart from every document
    intro file hnone
    refine (hedited file fun e _ p raw raw' _ hread => ?_).recordOf_eq_none hnone
    rw [recordOf, Disk.readDocument, hread] at hnone
    cases hnone
  · intro k hk
    obtain ⟨-, t, ht, hrecord⟩ := h.exists_of_mem_keys hk
    obtain ⟨⟨x, raw⟩, hraw, rfl⟩ := map_eq_ok.mp ht
    have hk' := hedited k fun e he => hapart _ ((hmem e).mp he).1 _ hk
    obtain ⟨raw', hraw', hlines', hbreaks⟩ := hk'.exists_raw hraw
    refine ⟨x, raw, raw', hraw, hraw', hlines'.trans (editLines_eq_retaggedLines ?_ fun e => ?_),
      hbreaks⟩
    · rw [List.pairwise_filter]
      refine hlines.imp fun {a b} hab ha hb => hab ?_
      rw [of_decide_eq_true ha, of_decide_eq_true hb]
    · have hplanOf : planOf d sv.index path name k =
          planLines k (writtenTag path) (writtenTag (renamedPath path name)) raw.unifyBreaks.lines
            ((parseTags raw.unifyBreaks k).filter (·.path = path)) := by
        rw [planOf, ht, occurrencesOf, hrecord]
        rfl
      rw [List.mem_filter, hmem, ← hplanOf]
      constructor
      · rintro ⟨⟨-, he⟩, hfile⟩
        have hfile : e.file = k := by simpa using hfile
        rwa [hfile] at he
      · intro he
        have hfile : e.file = k := (mem_planLines.mp (hplanOf ▸ he)).1
        refine ⟨⟨hfile ▸ hk, ?_⟩, by simpa using hfile⟩
        rwa [hfile]

/-- The lines that documents have after a rename, as a reader sees them. -/
theorem Service.InStep.applyPlan {sv : Service} (h : sv.InStep d) (path : TagPath)
    (hname : isSegment name = true)
    (hapart : ∀ k ∈ sv.index.keys, ∀ k' ∈ sv.index.keys, d.Apart k k')
    (hwritable : ∀ k ∈ sv.index.keys, d.Writable k) :
    ∃ d' edits, planEdits d sv.index path name = .ok edits ∧
      applyEdits d edits = (d', .ok (edits, [])) ∧ SameLayout d d' ∧
      (∀ file, recordOf d file = none → recordOf d' file = none) ∧
      ∀ k ∈ sv.index.keys, ∃ t t', d.readDocument k = .ok t ∧ d'.readDocument k = .ok t' ∧
        t'.lines = retaggedLines k path (renamedPath path name) t.lines := by
  obtain ⟨d', edits, hplan, happly, hlayout, -, hnone, hdocs⟩ :=
    h.applyEdits_planned path hname hapart hwritable
  exact ⟨d', edits, hplan, happly, hlayout, hnone, fun k hk => (hdocs k hk).exists_lines⟩

/-- **The full scan after a rename** finds the documents of the index, and no others, with the tags at
    the old path replaced. -/
theorem Service.InStep.fullIndex_applied {sv : Service} (h : sv.InStep d)
    (hlayout : SameLayout d d') (hnone : ∀ file, recordOf d file = none → recordOf d' file = none)
    (hdocs : ∀ k ∈ sv.index.keys, ∃ t t', d.readDocument k = .ok t ∧ d'.readDocument k = .ok t' ∧
      t'.lines = retaggedLines k path (renamedPath path name) t.lines) :
    ∃ full, sv.settings.fullIndex d' = .ok full ∧
      (∀ k, sv.index.get? k = none → full.get? k = none) ∧
      ∀ k r, sv.index.get? k = some r → ∃ t t', r = ⟨k, parseTags t k⟩ ∧
        full.get? k = some ⟨k, parseTags t' k⟩ ∧
        t'.lines = retaggedLines k path (renamedPath path name) t.lines := by
  obtain ⟨files, hfiles, hnul, hget⟩ := h.get?
  have hget' := get?_ofRecords d' files
  refine ⟨Index.ofRecords (files.filterMap (recordOf d')), Settings.fullIndex_eq_ok.mpr
    ⟨files, (hlayout.listDocuments _ _).trans hfiles, hnul, rfl⟩, fun k hk => ?_, fun k r hr => ?_⟩
  · rw [hget] at hk
    rw [hget']
    split at hk
    · next hfile => rw [if_pos hfile, hnone k hk]
    · next hfile => rw [if_neg hfile]
  · obtain ⟨t, t', ht, ht', hlines⟩ := hdocs k (OrderedMap.mem_keys_iff.mpr ⟨r, hr⟩)
    rw [hget] at hr
    split at hr
    · next hfile =>
      obtain ⟨u, hu, rfl⟩ := recordOf_eq_some.mp hr
      obtain rfl := Except.ok.inj (ht.symm.trans hu)
      refine ⟨t, t', rfl, ?_, hlines⟩
      rw [hget', if_pos hfile]
      exact recordOf_eq_some.mpr ⟨t', ht', rfl⟩
    · cases hr

/-- Carrying a rename out changes no more than what files hold. -/
theorem Service.sameLayout_carryOut (sv : Service) (d : Disk) (path : TagPath) (name : Text) :
    SameLayout d (sv.carryOut d path name).1 := by
  unfold carryOut
  split
  · exact SameLayout.refl d
  · next edits _ => exact sameLayout_applyEdits d edits

/-- **What a rename does** if its name is accepted and not the present one: it is carried out and the whole
    workspace is scanned, and then it answers what became of its edits, unless the scan fails. -/
theorem Service.rename_of_checkName {tag checked : Text} (sv : Service) (d : Disk)
    (hname : checkName name = .ok checked) (hpath : splitTag tag ≠ [])
    (hlast : (splitTag tag).getLast? ≠ some name) :
    sv.rename d tag name =
      (⟨(sv.scanAll (sv.carryOut d (splitTag tag) name).1).1, (sv.carryOut d (splitTag tag) name).1⟩,
        (sv.scanAll (sv.carryOut d (splitTag tag) name).1).2.mapError .path >>= fun _ =>
          (sv.carryOut d (splitTag tag) name).2) := by
  simp only [rename, hname, if_neg hpath, if_neg hlast]
  rcases sv.scanAll (sv.carryOut d (splitTag tag) name).1 with ⟨sv', f | summary⟩ <;> rfl

/-- Otherwise a rename is refused or has nothing to do, whatever stands on the disk. -/
theorem Service.rename_cases (sv : Service) (tag name : Text) :
    (∃ r, ∀ d, sv.rename d tag name = (⟨sv, d⟩, r)) ∨
    ∀ d, sv.rename d tag name =
      (⟨(sv.scanAll (sv.carryOut d (splitTag tag) name).1).1, (sv.carryOut d (splitTag tag) name).1⟩,
        (sv.scanAll (sv.carryOut d (splitTag tag) name).1).2.mapError .path >>= fun _ =>
          (sv.carryOut d (splitTag tag) name).2) := by
  cases hname : checkName name with
  | error f =>
    refine .inl ⟨.error (.name f), fun d => ?_⟩
    unfold rename
    rw [hname]
  | ok checked =>
    by_cases hpath : splitTag tag = []
    · refine .inl ⟨.error (.name (.emptyTag tag)), fun d => ?_⟩
      simp only [rename, hname, if_pos hpath]
    · by_cases hlast : (splitTag tag).getLast? = some name
      · refine .inl ⟨.ok ⟨writtenTag (splitTag tag), writtenTag (renamedPath (splitTag tag) name), [], []⟩,
          fun d => ?_⟩
        simp only [rename, hname, if_neg hpath, if_pos hlast]
      · exact .inr fun d => sv.rename_of_checkName d hname hpath hlast

/-- What a rename answers when its plan is applied without skipping an edit. -/
theorem Service.rename_eq {sv : Service} {tag : Text} {edits : List Edit} {full : Index}
    (hname : checkName name = .ok name) (hpath : splitTag tag ≠ [])
    (hlast : (splitTag tag).getLast? ≠ some name)
    (hplan : planEdits d sv.index (splitTag tag) name = .ok edits)
    (happly : applyEdits d edits = (d', .ok (edits, [])))
    (hfull : sv.settings.fullIndex d' = .ok full) :
    sv.rename d tag name = (⟨{ sv with index := full, scanned := true }, d'⟩,
      .ok ⟨writtenTag (splitTag tag), writtenTag (renamedPath (splitTag tag) name), edits, []⟩) := by
  obtain ⟨summary, hscan⟩ := scanAll_eq hfull
  have hcarry : sv.carryOut d (splitTag tag) name = (d',
      .ok ⟨writtenTag (splitTag tag), writtenTag (renamedPath (splitTag tag) name), edits, []⟩) := by
    rw [carryOut, planRename_of_planEdits hname hpath hlast hplan]
    simp only [applyPlan, happly]
    rfl
  rw [sv.rename_of_checkName d hname hpath hlast, hcarry]
  simp only [hscan]
  rfl

/-- **A rename from end to end.** A service in step with the disk, whose documents are different files
    that can be written, renames the last segment of a tag without skipping an edit. The same documents
    are indexed afterwards, and in each of them the same number of tags stands in the same order on the
    same lines: those at the old path have the new one, all others keep theirs, and each column is
    shifted by the growth of the renamed tags that end in front of it on its line. No tag at the old path
    is left, and there is no tag, except at the new path, that was not there before. -/
theorem rename_retags {sv : Service} {d : Disk} {tag name : Text} (hpath : splitTag tag ≠ [])
    (hname : checkName name = .ok name) (hlast : (splitTag tag).getLast hpath ≠ name)
    (hstep : sv.InStep d)
    (hapart : ∀ k ∈ sv.index.keys, ∀ k' ∈ sv.index.keys, d.Apart k k')
    (hwritable : ∀ k ∈ sv.index.keys, d.Writable k) :
    ∃ sv' d' out, sv.rename d tag name = (⟨sv', d'⟩, .ok out) ∧ out.skipped = [] ∧ sv'.InStep d' ∧
      (∀ k, k ∈ sv'.index.keys ↔ k ∈ sv.index.keys) ∧
      ∀ k r r', sv.index.get? k = some r → sv'.index.get? k = some r' →
        r'.file = r.file ∧
        List.Forall₂ (Retagged (splitTag tag) (renamedPath (splitTag tag) name)
          (name.length - ((splitTag tag).getLast hpath).length) r.occurrences)
          r.occurrences r'.occurrences ∧
        ∀ o' ∈ r'.occurrences, o'.path ≠ splitTag tag ∧
          (o'.path = renamedPath (splitTag tag) name ∨ ∃ o ∈ r.occurrences, o.path = o'.path) := by
  have hlast' : (splitTag tag).getLast? ≠ some name := by
    rw [List.getLast?_eq_some_getLast hpath]
    exact fun h => hlast (Option.some.inj h)
  have hsegment := isSegment_of_checkName hname
  obtain ⟨d', edits, hplan, happly, hlayout, hnone, hdocs⟩ :=
    hstep.applyPlan (splitTag tag) hsegment hapart hwritable
  obtain ⟨full, hfull, habsent, hrecords⟩ := hstep.fullIndex_applied hlayout hnone hdocs
  refine ⟨{ sv with index := full, scanned := true }, d', _,
    Service.rename_eq hname hpath hlast' hplan happly hfull, rfl,
    ⟨full, hfull, fun _ => rfl⟩, fun k => ?_, fun k r r' hr hr' => ?_⟩
  · rw [OrderedMap.mem_keys_iff, OrderedMap.mem_keys_iff]
    constructor
    · rintro ⟨r', hr'⟩
      cases hr : sv.index.get? k with
      | none =>
        have hnone' : full.get? k = none := habsent k hr
        exact absurd (hnone'.symm.trans hr') nofun
      | some r => exact ⟨r, rfl⟩
    · rintro ⟨r, hr⟩
      obtain ⟨t, t', -, hr', -⟩ := hrecords k r hr
      exact ⟨_, hr'⟩
  · obtain ⟨t, t', rfl, hnew, hlines⟩ := hrecords k r hr
    obtain rfl := Option.some.inj (hr'.symm.trans hnew)
    have hall := forall₂_tagsInLines_retagged (p := splitTag tag) (fun h => h.renamed hsegment) k
      t.lines
    rw [length_writtenTag_renamedPath hpath, ← hlines] at hall
    refine ⟨rfl, hall, fun o' ho' => ?_⟩
    obtain ⟨o, ho, hmoved⟩ := exists_of_forall₂_right hall ho'
    rw [hmoved.path]
    split
    · exact ⟨renamedPath_ne hlast', Or.inl rfl⟩
    · next hne => exact ⟨hne, Or.inr ⟨o, ho, rfl⟩⟩

/-! ## A diary -/

/-- The days of a diary with nested tags, tags that begin alike, tags that touch, and two kinds of line
    breaks. -/
def diaryTexts : List (Text × Text) :=
  [("m.md".toList, "#a #a/b #ab\r\nlate #a#a".toList), ("t.md".toList, "no #b/a\n#a".toList)]

/-- A disk with the diary. -/
def diaryDisk : Disk :=
  { Disk.ofDirectories [] [['w']] [] with
    entries := .ofList ((([['w']] : Path), Entry.directory) ::
      diaryTexts.map fun e => ([['w'], e.1], Entry.file (encodeUtf8 e.2))) }

/-- A service that has scanned the diary. -/
def diary : Service :=
  { settings := ⟨[['w']], [".md".toList], [], {}, []⟩
    index := .ofRecords (diaryTexts.map fun e =>
      ⟨"/w/".toList ++ e.1, parseTags e.2.unifyBreaks ("/w/".toList ++ e.1)⟩) }

theorem inStep_diary : diary.InStep diaryDisk := ⟨diary.index, by cbv, fun _ => rfl⟩

theorem keys_diary : diary.index.keys = ["/w/m.md".toList, "/w/t.md".toList] := by decide

/-- The days of the diary are different files. -/
theorem apart_diary :
    ∀ k ∈ diary.index.keys, ∀ k' ∈ diary.index.keys, diaryDisk.Apart k k' := by
  have hm : diaryDisk.readRaw "/w/m.md".toList =
      .ok ([['w'], "m.md".toList], "#a #a/b #ab\r\nlate #a#a".toList) := by cbv
  have ht : diaryDisk.readRaw "/w/t.md".toList =
      .ok ([['w'], "t.md".toList], "no #b/a\n#a".toList) := by cbv
  rw [keys_diary]
  exact Disk.apart_pair hm ht (by decide)

/-- The tag is renamed throughout the diary, three characters longer; the nested tag, the tag that
    begins alike and the tag that ends alike stay. -/
theorem diary_renamed :
    ∃ sv' d' out, diary.rename diaryDisk "#a".toList "long".toList = (⟨sv', d'⟩, .ok out) ∧
      out.skipped = [] ∧ sv'.InStep d' ∧
      ∀ k r r', diary.index.get? k = some r → sv'.index.get? k = some r' →
        List.Forall₂ (Retagged [['a']] ["long".toList] 3 r.occurrences) r.occurrences
          r'.occurrences := by
  have hwritable : ∀ k ∈ diary.index.keys, diaryDisk.Writable k := by
    decide
  have hpath : splitTag "#a".toList ≠ [] := by decide
  have hname : checkName "long".toList = .ok "long".toList := by decide
  obtain ⟨sv', d', out, hrename, hskipped, hstep', -, hrecords⟩ :=
    rename_retags hpath hname (by decide +revert) inStep_diary apart_diary hwritable
  exact ⟨sv', d', out, hrename, hskipped, hstep', fun k r r' hr hr' => (hrecords k r r' hr hr').2.1⟩

end HashtagIndex
