import HashtagIndex.Proofs.Parsing
import HashtagIndex.Proofs.Renaming

/-!
# `Proofs.Undoing` — a rename is taken back octet for octet

Replacing the tags at a path puts the new text between the gaps of a line. If no tag had the new path
before, these gaps hold none either, so the tags at the new path are exactly the ones that were put in,
and replacing them again puts the old text between the same gaps (`replaceTags_replaceTags`). The lines
of a document are therefore as they were; its breaks were never touched, and lines and breaks are the
document. Since an encoding has one text and a text one encoding, the file has its octets back.

What remains is what no edit reaches: a real path to which no indexed document leads keeps its entry in
both renames (`get?_applyEdits`). So the second rename ends on the very disk the first one began with
(`eq_of_retagged`), and its scan finds the index that was there.

## Contents
- `replaceTags_replaceTags`, `retaggedLines_retaggedLines`: lines.
- `DocumentRetagged.readRaw_eq`, `Disk.get?_of_readRaw`: documents and their octets.
- `eq_of_retagged`: the disk.
- `rename_undone`, and `diary_restored`.
-/

namespace HashtagIndex

variable {p q : TagPath}

/-! ## Lines -/

/-- A line's gaps between the tags at one path hold no tag at another path that the line does not
    hold. -/
theorem not_mem_pathsInLine_gap (hp : ValidPath p) {g : Text} {gs : List Text}
    (hfree : q ∉ pathsInLine ((writtenTag p).intercalate (g :: gs))) :
    ∀ h ∈ g :: gs, q ∉ pathsInLine h := by
  rw [pathsInLine_intercalate hp, List.mem_append, not_or] at hfree
  obtain ⟨hfirst, hbehind⟩ := hfree
  intro h hh
  rcases List.mem_cons.mp hh with rfl | hh
  · exact hfirst
  · intro hq
    apply hbehind
    unfold pathsBehind
    exact List.mem_flatMap.mpr ⟨h, hh, List.mem_cons_of_mem _ hq⟩

/-- **Replacing tags and replacing them again gives the line back**, if it held no tag at the new
    path. -/
theorem replaceTags_replaceTags (hp : ValidPath p) (hq : ValidPath q) (file : Text) (line : Nat)
    {t : Text} (hfree : q ∉ pathsInLine t) :
    let t' := replaceTags (writtenTag p) (writtenTag q) t
      ((tagsInLine file line 0 t).filter (·.path = p))
    replaceTags (writtenTag q) (writtenTag p) t'
      ((tagsInLine file line 0 t').filter (·.path = q)) = t := by
  obtain ⟨g, gs, hgaps, hpfree, hexact⟩ := exists_gaps hp t
  have hqfree : ∀ h ∈ g :: gs, q ∉ pathsInLine h := by
    rw [hgaps] at hfree
    exact not_mem_pathsInLine_gap hp hfree
  have hthere := replaceTags_tagsInLine hp file line hgaps hpfree hexact (writtenTag q)
  intro t'
  have ht' : t' = (writtenTag q).intercalate (g :: gs) := hthere
  rw [replaceTags_tagsInLine hq file line ht' hqfree hexact, ← hgaps]

/-- The lines of a document, there and back. -/
theorem retaggedLines_retaggedLines (hp : ValidPath p) (hq : ValidPath q) (file : Text)
    {ls : List Text} (hfree : ∀ l ∈ ls, q ∉ pathsInLine l) :
    retaggedLines file q p (retaggedLines file p q ls) = ls := by
  unfold retaggedLines
  refine List.ext_getElem? fun n => ?_
  rw [List.getElem?_mapIdx, List.getElem?_mapIdx]
  cases hl : ls[n]? with
  | none => rfl
  | some l =>
    have hlfree : q ∉ pathsInLine l := hfree l (List.mem_of_getElem? hl)
    show some _ = some l
    exact congrArg some (replaceTags_replaceTags hp hq file n hlfree)

/-- A document without a tag at a path has no line with one. -/
theorem not_mem_pathsInLine_of_parseTags {t file : Text}
    (hfree : ∀ o ∈ parseTags t file, o.path ≠ q) : ∀ l ∈ t.lines, q ∉ pathsInLine l := by
  intro l hl hq
  obtain ⟨n, hn⟩ := List.mem_iff_getElem?.mp hl
  rw [← map_path_tagsInLine file n 0] at hq
  obtain ⟨o, ho, hpath⟩ := List.mem_map.mp hq
  have hline : o.range.start.line = n := (tagsInLine_bounds ho).2.1
  exact hfree o (mem_parseTags_iff.mpr (by rw [hline]; exact ⟨l, hn, ho⟩)) hpath

/-! ## Documents -/

/-- A document that was read stands on the disk in the octets of its text. -/
theorem Disk.get?_of_readRaw {d : Disk} {file : Text} {x : Path} {raw : Text}
    (h : d.readRaw file = .ok (x, raw)) : d.entries.get? x = some (.file (encodeUtf8 raw)) := by
  obtain ⟨bytes, hfile, hdecode⟩ := file_of_readRaw h
  rw [encodeUtf8_of_decodeUtf8 hdecode]
  unfold entry? at hfile
  rwa [if_neg (ne_nil_of_entry?_file hfile)] at hfile

/-- **A document whose tags were replaced and replaced again** is the document it was. -/
theorem DocumentRetagged.readRaw_eq {d d' d'' : Disk} {file : Text} (hp : ValidPath p)
    (hq : ValidPath q) (hthere : DocumentRetagged d d' p q file)
    (hback : DocumentRetagged d' d'' q p file)
    (hfree : ∀ t, d.readDocument file = .ok t → ∀ o ∈ parseTags t file, o.path ≠ q) :
    ∃ x raw, d.readRaw file = .ok (x, raw) ∧ d''.readRaw file = .ok (x, raw) := by
  obtain ⟨x, raw, raw', hraw, hraw', hlines, hbreaks⟩ := hthere
  obtain ⟨x', u, raw'', hu, hraw'', hlines', hbreaks'⟩ := hback
  obtain ⟨rfl, rfl⟩ := Prod.mk.inj (Except.ok.inj (hraw'.symm.trans hu))
  have hread : d.readDocument file = .ok raw.unifyBreaks := map_eq_ok.mpr ⟨_, hraw, rfl⟩
  have hsame : raw''.unifyBreaks.lines = raw.unifyBreaks.lines := by
    rw [hlines', hlines]
    exact retaggedLines_retaggedLines hp hq file
      (not_mem_pathsInLine_of_parseTags (hfree _ hread))
  have hraw_eq : raw'' = raw := eq_of_lines_of_breaksOf hsame (hbreaks'.trans hbreaks)
  rw [hraw_eq] at hraw''
  exact ⟨x, raw, hraw, hraw''⟩

/-! ## The disk -/

/-- **There and back, the disk is the same**: documents have their octets back, and what no document
    leads to was never written. -/
theorem eq_of_retagged {d d' d'' : Disk} {keys : List Text} {es es' : List Edit} (hp : ValidPath p)
    (hq : ValidPath q) (hlayout : SameLayout d d') (hlayout' : SameLayout d' d'')
    (happly : (applyEdits d es).1 = d') (happly' : (applyEdits d' es').1 = d'')
    (hes : ∀ e ∈ es, e.file ∈ keys) (hes' : ∀ e ∈ es', e.file ∈ keys)
    (hthere : ∀ k ∈ keys, DocumentRetagged d d' p q k)
    (hback : ∀ k ∈ keys, DocumentRetagged d' d'' q p k)
    (hfree : ∀ k ∈ keys, ∀ t, d.readDocument k = .ok t → ∀ o ∈ parseTags t k, o.path ≠ q) :
    d'' = d := by
  apply (hlayout.trans hlayout').eq_of_get?
  intro x
  by_cases hled : ∃ k ∈ keys, d.LeadsTo k x
  · obtain ⟨k, hk, hlead⟩ := hled
    obtain ⟨y, raw, hraw, hraw''⟩ := (hthere k hk).readRaw_eq hp hq (hback k hk) (hfree k hk)
    have hxy : y = x := Except.ok.inj ((Disk.leadsTo_of_readRaw hraw).2.symm.trans hlead.2)
    rw [← hxy, Disk.get?_of_readRaw hraw, Disk.get?_of_readRaw hraw'']
  · have hnone : ∀ k ∈ keys, ¬d.LeadsTo k x := fun k hk hlead => hled ⟨k, hk, hlead⟩
    have hfirst : d'.entries.get? x = d.entries.get? x := by
      rw [← happly]
      exact get?_applyEdits fun e he => hnone e.file (hes e he)
    have hsecond : d''.entries.get? x = d'.entries.get? x := by
      rw [← happly']
      refine get?_applyEdits fun e he => ?_
      rw [Disk.leadsTo_iff_of_sameLayout hlayout]
      exact hnone e.file (hes' e he)
    rw [hsecond, hfirst]

/-! ## The service -/

/-- Documents that lead to different files still do when their tags were replaced. -/
theorem apart_of_retagged {d d' : Disk} {k k' : Text} (hk : DocumentRetagged d d' p q k)
    (hk' : DocumentRetagged d d' p q k') (h : d.Apart k k') : d'.Apart k k' := by
  obtain ⟨x, raw, u, hraw, hu, -, -⟩ := hk
  obtain ⟨x', raw', u', hraw', hu', -, -⟩ := hk'
  intro y t t' ht ht'
  have hx : x = y := congrArg Prod.fst (Except.ok.inj (hu.symm.trans ht))
  have hx' : x' = y := congrArg Prod.fst (Except.ok.inj (hu'.symm.trans ht'))
  subst hx hx'
  exact h _ raw raw' hraw hraw'

/-- The path of an occurrence in an index in step with the disk is one that documents can spell. -/
theorem Service.InStep.validPath {sv : Service} {d : Disk} (h : sv.InStep d) {k : Text} {r : Record}
    (hr : sv.index.get? k = some r) {o : Occurrence} (ho : o ∈ r.occurrences) : ValidPath o.path := by
  obtain ⟨t, rfl⟩ := h.fromScans k r hr
  obtain ⟨_, l, _, hmatch⟩ := (isParse_parseTags t k).matched o ho
  exact hmatch.segments

/-- Replacing the last segment and putting it back. -/
theorem renamedPath_renamedPath (hp : p ≠ []) (name : Text) :
    renamedPath (renamedPath p name) (p.getLast hp) = p := by
  unfold renamedPath
  rw [List.dropLast_concat, List.dropLast_append_getLast]

/-- **A rename is taken back octet for octet.** A service in step with the disk, whose documents are
    different files that can be written, renames the last segment of a tag that occurs to a name under
    which no tag stood. Renaming that tag back then ends on the disk that was there before the first
    rename, and with an index that finds the same under every key. -/
theorem rename_undone {sv : Service} {d : Disk} {tag back name : Text} (hpath : splitTag tag ≠ [])
    (hback : splitTag back = renamedPath (splitTag tag) name) (hname : checkName name = .ok name)
    (hlast : (splitTag tag).getLast hpath ≠ name)
    (hstep : sv.InStep d) (hapart : ∀ k ∈ sv.index.keys, ∀ k' ∈ sv.index.keys, d.Apart k k')
    (hwritable : ∀ k ∈ sv.index.keys, d.Writable k)
    (hoccurs : ∃ k r, sv.index.get? k = some r ∧ ∃ o ∈ r.occurrences, o.path = splitTag tag)
    (hfresh : ∀ k r, sv.index.get? k = some r → ∀ o ∈ r.occurrences,
      o.path ≠ renamedPath (splitTag tag) name) :
    ∃ sv' d' out sv'' out', sv.rename d tag name = (⟨sv', d'⟩, .ok out) ∧
      sv'.rename d' back ((splitTag tag).getLast hpath) = (⟨sv'', d⟩, .ok out') ∧
      ∀ k, sv''.index.get? k = sv.index.get? k := by
  obtain ⟨k₀, r₀, hr₀, o₀, ho₀, hpath₀⟩ := hoccurs
  have hp : ValidPath (splitTag tag) := hpath₀ ▸ hstep.validPath hr₀ ho₀
  have hsegment : isSegment name = true := isSegment_of_checkName hname
  have hq : ValidPath (renamedPath (splitTag tag) name) := hp.renamed hsegment
  have hold : isSegment ((splitTag tag).getLast hpath) = true := hp.2 _ (List.getLast_mem hpath)
  have hlast' : (splitTag tag).getLast? ≠ some name := by
    rw [List.getLast?_eq_some_getLast hpath]
    exact fun h => hlast (Option.some.inj h)
  -- the first rename
  obtain ⟨d', edits, hplan, happly, hlayout, hfiles, hnone, hthere⟩ :=
    hstep.applyEdits_planned (splitTag tag) hsegment hapart hwritable
  obtain ⟨full, hfull, habsent, hrecords⟩ :=
    hstep.fullIndex_applied hlayout hnone fun k hk => (hthere k hk).exists_lines
  have hfirst := Service.rename_eq hname hpath hlast' hplan happly hfull
  let sv' : Service := { sv with index := full, scanned := true }
  have hkeys : ∀ k, k ∈ sv'.index.keys ↔ k ∈ sv.index.keys := by
    intro k
    apply OrderedMap.mem_keys_congr habsent
    intro k r hr
    obtain ⟨t, t', -, hr', -⟩ := hrecords k r hr
    exact ⟨_, hr'⟩
  -- the second one, on what the first has left
  have hstep' : sv'.InStep d' := ⟨full, hfull, fun _ => rfl⟩
  have hapart' : ∀ k ∈ sv'.index.keys, ∀ k' ∈ sv'.index.keys, d'.Apart k k' := fun k hk k' hk' =>
    apart_of_retagged (hthere k ((hkeys k).mp hk)) (hthere k' ((hkeys k').mp hk'))
      (hapart k ((hkeys k).mp hk) k' ((hkeys k').mp hk'))
  have hwritable' : ∀ k ∈ sv'.index.keys, d'.Writable k := fun k hk =>
    hlayout.writable (hwritable k ((hkeys k).mp hk))
  obtain ⟨d'', edits', hplan', happly', hlayout', hfiles', -, hback'⟩ :=
    hstep'.applyEdits_planned (renamedPath (splitTag tag) name) hold hapart' hwritable'
  rw [renamedPath_renamedPath] at hback'
  have hdisk : d'' = d := by
    refine eq_of_retagged hp hq hlayout hlayout' (congrArg Prod.fst happly)
      (congrArg Prod.fst happly') hfiles (fun e he => (hkeys _).mp (hfiles' e he)) hthere
      (fun k hk => hback' k ((hkeys k).mpr hk)) ?_
    intro k hk t ht o ho
    obtain ⟨-, u, hu, hrecord⟩ := hstep.exists_of_mem_keys hk
    obtain rfl := Except.ok.inj (ht.symm.trans hu)
    exact hfresh k _ hrecord o ho
  obtain ⟨full₀, hfull₀, hindex⟩ := hstep
  subst hdisk
  have hpath' : splitTag back ≠ [] := by
    rw [hback]
    exact hq.1
  have hlast'' : (splitTag back).getLast? ≠ some ((splitTag tag).getLast hpath) := by
    rw [hback, renamedPath, List.getLast?_concat]
    exact fun h => hlast (Option.some.inj h).symm
  rw [← hback] at hplan'
  have hsecond := Service.rename_eq (checkName_of_isSegment hold) hpath' hlast'' hplan' happly' hfull₀
  exact ⟨sv', d', _, _, _, hfirst, hsecond, fun k => (hindex k).symm⟩

/-- The tag of the diary is renamed and renamed back: every octet of both days, the two kinds of line
    breaks included, and everything that the index finds is as it was. -/
theorem diary_restored :
    ∃ sv' d' out sv'' out', diary.rename diaryDisk "#a".toList "long".toList = (⟨sv', d'⟩, .ok out) ∧
      sv'.rename d' "#long".toList "a".toList = (⟨sv'', diaryDisk⟩, .ok out') ∧
      ∀ k, sv''.index.get? k = diary.index.get? k := by
  have hpath : splitTag "#a".toList ≠ [] := by decide
  have hstep : diary.InStep diaryDisk := ⟨diary.index, by cbv, fun _ => rfl⟩
  have hoccurs : ∃ e ∈ diary.index.toList, ∃ o ∈ e.2.occurrences, o.path = splitTag "#a".toList := by
    decide
  have hfresh : ∀ e ∈ diary.index.toList, ∀ o ∈ e.2.occurrences,
      o.path ≠ renamedPath (splitTag "#a".toList) "long".toList := by decide
  obtain ⟨e, he, hoccurs⟩ := hoccurs
  exact rename_undone hpath (by decide) (by decide) (by decide +revert) hstep apart_diary (by decide)
    ⟨e.1, e.2, OrderedMap.get?_eq_some_iff.mpr he, hoccurs⟩
    fun k r hr => hfresh (k, r) (OrderedMap.get?_eq_some_iff.mp hr)

end HashtagIndex
