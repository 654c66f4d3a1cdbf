import HashtagIndex.Proofs.LineReplacement
import HashtagIndex.Proofs.Renaming

/-!
# `Proofs.Accounting` — what becomes of every edit

Between planning and applying anything may happen to documents: they change, go away, stop being text,
or may not be written any more. And one edit may get in the way of the next, for several may be for one
line. So nothing is assumed about the edits' documents here. Edit after edit the disk as it is *then*
decides (`decision_replaceLine`): it takes the edit, and one line of one file is replaced; or the edit is
skipped and the disk stays; or the edit is skipped because writing broke off, and one file is cut.
`Accounted` records these decisions, and what they add up to is read off it by induction: each edit stands in
one of two lists, in order, and every file holds what it held, but for the lines that its own applied edits
name, and for files that were cut.

The work stops at a name with a null character, which is no name of a document, and at a line that is not as
expected and whose number is too long to be reported (`WorkEnds`). The edits from there on are in neither list.
And an empty line between a carriage return and a line feed is no line at all (`JoinsBreaks`).

## Contents
- `Decision`, `decision_replaceLine`: one edit.
- `Accounted`, `WorkEnds`, `exists_work`, `accounted_of_applyEdits`: a list of edits, decided one by one.
- `Disk.fileOf?`, `editsAt`, `cutOff`: the edits of one file.
- `LinesEdited`, `Accounting`, `Accounted.accounting`: what the decisions add up to.
- `Service.renameAcross`: a rename during which documents change.
- `edits_accounted`, a board of notes, and what can go wrong.
-/

namespace HashtagIndex

/-! ## One edit -/

section Edits

variable {d d₁ d' : Disk} {e : Edit} {es as : List Edit} {ss : List SkippedEdit} {p : Path}

/-- What a disk makes of an edit. It takes it, or is cut where writing broke off; otherwise it stays as it is,
    and says of the document why, or that it cannot say anything. -/
inductive Decision (d : Disk) (e : Edit) : Disk × Except LineFault Unit → Prop
  | takes {d₁ : Disk} (h : Replaces d e d₁) : Decision d e (d₁, .ok ())
  | skips {f : DocumentFault} (hrefuses : ∀ d₁, ¬Replaces d e d₁) :
      Decision d e (d, .error (.disk (.document f)))
  | cuts {d₁ : Disk} {p : Path} {raw : Text} (h : LineCut d d₁ e.file e.line e.new p raw) :
      Decision d e (d₁, .error (.disk (.document (.unwritable (PathName.ofText e.file).toText .noRoom))))
  | unusable (hnul : '\x00' ∈ e.file) : Decision d e (d, .error (.disk (.path .nulByte)))
  | unreportable {p : Path} {raw : Text} (hholds : d.Holds e.file p raw)
      (hline : raw.unifyBreaks.lines[e.line]? ≠ some e.old) (hlong : ¬Reportable e.line) :
      Decision d e (d, .error .longNumber)

/-- **One edit** is decided by the disk as it is. -/
theorem decision_replaceLine (d : Disk) (e : Edit) :
    Decision d e (d.replaceLine e.file e.line e.old e.new) := by
  have hout := lineOutcome_replaceLine d e.file e.line e.old e.new
  have htakes : ∀ d₁, Replaces d e d₁ → d.replaceLine e.file e.line e.old e.new = (d₁, .ok ()) := fun d₁ h =>
    replaceLine_eq_ok_iff.mpr h
  generalize hr : d.replaceLine e.file e.line e.old e.new = r at hout htakes
  cases hout with
  | unread hreads =>
    cases hreads with
    | unusable hnul => exact .unusable hnul
    | unopened _ _ => exact .skips fun d₁ h => nomatch htakes d₁ h
    | notText _ _ _ => exact .skips fun d₁ h => nomatch htakes d₁ h
  | gone _ _ _ => exact .skips fun d₁ h => nomatch htakes d₁ h
  | changed _ _ _ _ _ => exact .skips fun d₁ h => nomatch htakes d₁ h
  | unreportable hholds hline hlong => exact .unreportable hholds (hline _ rfl) hlong
  | unwritable _ _ _ _ => exact .skips fun d₁ h => nomatch htakes d₁ h
  | cut hholds hline _ _ hroom hfull =>
    obtain rfl := Int.natCast_inj.mp hline
    exact .cuts (lineCut_put hholds hroom hfull)
  | replaced _ _ _ _ _ => exact .takes (replaceLine_eq_ok_iff.mp hr)

/-! ## A list of edits -/

/-- A disk meets a list of edits one by one. It takes an edit whenever it can. Otherwise the edit is skipped for
    a reason, and the disk stays as it is, or is cut where writing broke off. -/
inductive Accounted : Disk → List Edit → Disk → List Edit → List SkippedEdit → Prop
  | done (d : Disk) : Accounted d [] d [] []
  | applied {d d₁ d' : Disk} {e : Edit} {es as : List Edit} {ss : List SkippedEdit}
      (htakes : Replaces d e d₁) (hrest : Accounted d₁ es d' as ss) :
      Accounted d (e :: es) d' (e :: as) ss
  | skipped {d d' : Disk} {e : Edit} {es as : List Edit} {ss : List SkippedEdit} {f : DocumentFault}
      (hrefuses : ∀ d₁, ¬Replaces d e d₁)
      (hreason : d.replaceLine e.file e.line e.old e.new = (d, .error (.disk (.document f))))
      (hrest : Accounted d es d' as ss) : Accounted d (e :: es) d' as (⟨e, f⟩ :: ss)
  | cut {d d₁ d' : Disk} {e : Edit} {es as : List Edit} {ss : List SkippedEdit} {p : Path} {raw : Text}
      (hcut : LineCut d d₁ e.file e.line e.new p raw)
      (hrest : Accounted d₁ es d' as ss) :
      Accounted d (e :: es) d' as (⟨e, .unwritable (PathName.ofText e.file).toText .noRoom⟩ :: ss)

/-- How the work ends: every edit is decided, or it stops at one whose name holds a null character, or whose
    line is not as expected and has a number that cannot be reported. -/
inductive WorkEnds (d : Disk) (as : List Edit) (ss : List SkippedEdit) :
    List Edit → Except EditFault (List Edit × List SkippedEdit) → Prop
  | finished : WorkEnds d as ss [] (.ok (as, ss))
  | unusable {e : Edit} {rest : List Edit} (hnul : '\x00' ∈ e.file) :
      WorkEnds d as ss (e :: rest) (.error (.path .nulByte))
  | unreportable {e : Edit} {rest : List Edit} {p : Path} {raw : Text} (hholds : d.Holds e.file p raw)
      (hline : raw.unifyBreaks.lines[e.line]? ≠ some e.old) (hlong : ¬Reportable e.line) :
      WorkEnds d as ss (e :: rest) (.error .longNumber)

/-- The work ends in the same way with one more edit decided. -/
theorem WorkEnds.map {as' : List Edit} {ss' : List SkippedEdit} {rest : List Edit}
    {r : Except EditFault (List Edit × List SkippedEdit)} (h : WorkEnds d as ss rest r)
    {f : List Edit × List SkippedEdit → List Edit × List SkippedEdit} (hf : f (as, ss) = (as', ss')) :
    WorkEnds d as' ss' rest (r.map f) := by
  cases h with
  | finished =>
    show WorkEnds d as' ss' [] (.ok (f (as, ss)))
    rw [hf]
    exact .finished
  | unusable hnul => exact .unusable hnul
  | unreportable hholds hline hlong => exact .unreportable hholds hline hlong

/-- **Edits are decided one by one**, until the work ends. -/
theorem exists_work (d : Disk) (es : List Edit) : ∃ done rest d' as ss r, es = done ++ rest ∧
    applyEdits d es = (d', r) ∧ Accounted d done d' as ss ∧ WorkEnds d' as ss rest r := by
  induction es generalizing d with
  | nil => exact ⟨[], [], d, [], [], _, rfl, rfl, .done d, .finished⟩
  | cons e es ih =>
    have hdecision := decision_replaceLine d e
    unfold applyEdits
    generalize hr : d.replaceLine e.file e.line e.old e.new = r at hdecision
    cases hdecision with
    | @takes d₁ htakes =>
      obtain ⟨done, rest, d', as, ss, r, rfl, happly, haccounted, hends⟩ := ih d₁
      refine ⟨e :: done, rest, d', e :: as, ss, r.map fun done => (e :: done.1, done.2), rfl, ?_,
        .applied htakes haccounted, hends.map rfl⟩
      simp only [happly]
    | skips hrefuses =>
      obtain ⟨done, rest, d', as, ss, r, rfl, happly, haccounted, hends⟩ := ih d
      refine ⟨e :: done, rest, d', as, _ :: ss, r.map fun done => (done.1, _ :: done.2), rfl, ?_,
        .skipped hrefuses hr haccounted, hends.map rfl⟩
      simp only [happly]
    | @cuts d₁ _ _ hcut =>
      obtain ⟨done, rest, d', as, ss, r, rfl, happly, haccounted, hends⟩ := ih d₁
      refine ⟨e :: done, rest, d', as, _ :: ss, r.map fun done => (done.1, _ :: done.2), rfl, ?_,
        .cut hcut haccounted, hends.map rfl⟩
      simp only [happly]
    | unusable hnul => exact ⟨[], e :: es, d, [], [], _, rfl, rfl, .done d, .unusable hnul⟩
    | unreportable hholds hline hlong =>
      exact ⟨[], e :: es, d, [], [], _, rfl, rfl, .done d, .unreportable hholds hline hlong⟩

/-- If the work is finished, every edit was decided. -/
theorem accounted_of_applyEdits (h : applyEdits d es = (d', .ok (as, ss))) : Accounted d es d' as ss := by
  obtain ⟨done, rest, d₁, as₁, ss₁, r, rfl, happly, haccounted, hends⟩ := exists_work d es
  obtain ⟨rfl, rfl⟩ := Prod.mk.inj (h.symm.trans happly)
  cases hends with
  | finished => rwa [List.append_nil]

namespace Accounted

theorem applied_sublist (h : Accounted d es d' as ss) : as.Sublist es := by
  induction h with
  | done _ => exact List.Sublist.refl _
  | applied _ _ ih => exact ih.cons_cons _
  | skipped _ _ _ ih => exact ih.cons _
  | cut _ _ ih => exact ih.cons _

theorem skipped_sublist (h : Accounted d es d' as ss) : (ss.map (·.edit)).Sublist es := by
  induction h with
  | done _ => exact List.Sublist.refl _
  | applied _ _ ih => exact ih.cons _
  | skipped _ _ _ ih => exact ih.cons_cons _
  | cut _ _ ih => exact ih.cons_cons _

/-- No edit is lost, and none is counted twice. -/
theorem perm (h : Accounted d es d' as ss) : (as ++ ss.map (·.edit)).Perm es := by
  induction h with
  | done _ => exact List.Perm.refl _
  | applied _ _ ih => exact ih.cons _
  | skipped _ _ _ ih => exact List.perm_middle.trans (ih.cons _)
  | cut _ _ ih => exact List.perm_middle.trans (ih.cons _)

theorem sameLayout (h : Accounted d es d' as ss) : SameLayout d d' := by
  induction h with
  | done d => exact SameLayout.refl d
  | applied htakes _ ih => exact htakes.sameLayout.trans ih
  | skipped _ _ _ ih => exact ih
  | cut hcut _ ih => exact hcut.layout.trans ih

end Accounted

/-! ## The edits of one file -/

/-- The real path of a document that can be read. -/
def Disk.fileOf? (d : Disk) (file : Text) : Option Path := (d.readRaw file).toOption.map (·.1)

/-- The edits for documents that are a file. -/
def editsAt (d : Disk) (p : Path) (es : List Edit) : List Edit :=
  es.filter fun e => d.fileOf? e.file = some p

theorem Disk.fileOf?_eq_some {file : Text} :
    d.fileOf? file = some p ↔ ∃ raw, d.readRaw file = .ok (p, raw) := by
  unfold fileOf?
  rcases d.readRaw file with f | ⟨q, raw⟩
  · simp [Except.toOption]
  · simp [Except.toOption]

/-- What leads to one file reads alike. -/
theorem Disk.eq_of_readRaw {file file' : Text} {raw raw' : Text}
    (h : d.readRaw file = .ok (p, raw)) (h' : d.readRaw file' = .ok (p, raw')) : raw = raw' := by
  obtain ⟨bytes, hfile, hdecode⟩ := file_of_readRaw h
  obtain ⟨bytes', hfile', hdecode'⟩ := file_of_readRaw h'
  obtain rfl := Entry.file.inj (Option.some.inj (hfile.symm.trans hfile'))
  exact Except.ok.inj (hdecode.symm.trans hdecode')

/-- Which edits are for a file depends on which names lead to it and can be read. -/
theorem editsAt_congr (h : ∀ file, d₁.fileOf? file = some p ↔ d.fileOf? file = some p) (es : List Edit) :
    editsAt d₁ p es = editsAt d p es := by
  unfold editsAt
  simp only [h]

theorem editsAt_cons_of_pos (h : d.fileOf? e.file = some p) (es : List Edit) :
    editsAt d p (e :: es) = e :: editsAt d p es :=
  List.filter_cons_of_pos (by simpa using h)

theorem editsAt_cons_of_neg (h : d.fileOf? e.file ≠ some p) (es : List Edit) :
    editsAt d p (e :: es) = editsAt d p es :=
  List.filter_cons_of_neg (by simpa using h)

/-- The skipped edits whose files were cut because writing broke off. -/
def cutOff (ss : List SkippedEdit) : List Edit :=
  (ss.filter fun s => match s.reason with
    | .unwritable _ .noRoom => true
    | _ => false).map (·.edit)

theorem mem_cutOff : e ∈ cutOff ss ↔ ∃ file, (⟨e, .unwritable file .noRoom⟩ : SkippedEdit) ∈ ss := by
  unfold cutOff
  rw [List.mem_map]
  constructor
  · rintro ⟨⟨u, reason⟩, hs, rfl⟩
    obtain ⟨hs, hreason⟩ := List.mem_filter.mp hs
    simp only at hreason
    split at hreason
    · exact ⟨_, hs⟩
    · cases hreason
  · rintro ⟨file, hs⟩
    exact ⟨_, List.mem_filter.mpr ⟨hs, rfl⟩, rfl⟩

/-- A document that can be read, and be written only as far as there is room. -/
structure Disk.CanBeCut (d : Disk) (file : Text) : Prop where
  read : ∃ p, d.fileOf? file = some p
  room : ∃ room, d.room? (.ofText file) = some room

/-- If no file of the edits was cut for the first of them, nor for the others. -/
theorem editsAt_cutOff_cons {s : SkippedEdit} (h : editsAt d p (cutOff (s :: ss)) = []) :
    editsAt d p (cutOff ss) = [] := by
  unfold cutOff at h
  rw [List.filter_cons] at h
  split at h
  · exact List.filter_eq_nil_iff.mpr fun u hu => List.filter_eq_nil_iff.mp h u (List.mem_cons_of_mem _ hu)
  · exact h

namespace Replaces

/-- Names lead where they led. -/
theorem fileOf? (h : Replaces d e d₁) (file : Text) : d₁.fileOf? file = d.fileOf? file := by
  obtain ⟨hreads, -, -, -⟩ := h
  unfold Disk.fileOf?
  rw [Edit.octets, Disk.readRaw_put hreads]
  rcases d.readRaw file with f | ⟨q, raw⟩
  · rfl
  · show some (if q = _ then _ else (q, raw)).1 = some q
    split
    · next hq => rw [hq]
    · rfl

theorem editsAt (h : Replaces d e d₁) (p : Path) (es : List Edit) :
    editsAt d₁ p es = editsAt d p es :=
  editsAt_congr (fun file => by rw [h.fileOf?]) es

/-- A document that the edit is not for reads as before. -/
theorem readRaw_of_ne (h : Replaces d e d₁) {file : Text} {p : Path} {raw : Text}
    (hreads : d.readRaw file = .ok (p, raw)) (hp : d.fileOf? e.file ≠ some p) :
    d₁.readRaw file = .ok (p, raw) := by
  obtain ⟨hreads', -, -, -⟩ := h
  rw [Edit.octets, Disk.readRaw_put hreads', hreads]
  show Except.ok (if p = _ then _ else (p, raw)) = Except.ok (p, raw)
  rw [if_neg]
  rintro rfl
  exact hp (Disk.fileOf?_eq_some.mpr ⟨_, hreads'⟩)

/-- **A document that the edit is for** has its line replaced, and keeps all others and every break. -/
theorem readRaw_self (h : Replaces d e d₁) {file : Text} {p : Path} {raw : Text}
    (hreads : d.readRaw file = .ok (p, raw)) (hp : d.fileOf? e.file = some p) (hplain : Plain e.new)
    (hkeeps : e.new = [] → ¬JoinsBreaks (breaksOf raw) e.line) :
    raw.unifyBreaks.lines[e.line]? = some e.old ∧
      ∃ raw₁, d₁.readRaw file = .ok (p, raw₁) ∧
        raw₁.unifyBreaks.lines = raw.unifyBreaks.lines.set e.line e.new ∧
        breaksOf raw₁ = breaksOf raw := by
  obtain ⟨hreads', hexpected, -, -⟩ := h
  obtain ⟨raw', hraw'⟩ := Disk.fileOf?_eq_some.mp hp
  obtain ⟨rfl, rfl⟩ := Prod.mk.inj (Except.ok.inj (hraw'.symm.trans hreads'))
  obtain rfl := Disk.eq_of_readRaw hreads hraw'
  refine ⟨hexpected, renderLines (Disk.setLine (rawLines raw) e.line e.new), ?_,
    lines_breaksOf_setLine raw hplain hkeeps⟩
  exact Rewritten.self (Disk.readRaw_put hreads' _) hreads

end Replaces

/-- What is opened at a file that was not touched is opened as before. -/
theorem Disk.readRaw_of_get? (hlayout : SameLayout d d₁) (hget : d₁.entries.get? p = d.entries.get? p)
    {file raw : Text} (h : d.readRaw file = .ok (p, raw)) : d₁.readRaw file = .ok (p, raw) := by
  obtain ⟨husable, hopen⟩ := readRaw_eq_ok_iff.mp h
  refine readRaw_eq_ok_iff.mpr ⟨husable, ?_⟩
  obtain ⟨hlocate, hentry⟩ := openFile_eq_ok hopen
  have hentry₁ : d₁.entry? p = some (.file (encodeUtf8 raw)) := by
    unfold entry? at hentry ⊢
    rwa [hget]
  unfold openFile at hopen ⊢
  rw [hlayout.refuses, hlayout.locate?, hlayout.cwd]
  split at hopen
  · cases hopen
  · next hallowed => simp only [if_neg hallowed, hlocate, hentry₁]

namespace LineCut

variable {n : Nat} {file new raw : Text}

/-- A file that was not cut is read under the same names. -/
theorem fileOf?_iff (h : LineCut d d₁ file n new p raw) {q : Path} (hq : q ≠ p) (x : Text) :
    d₁.fileOf? x = some q ↔ d.fileOf? x = some q := by
  rw [Disk.fileOf?_eq_some, Disk.fileOf?_eq_some]
  exact ⟨fun ⟨t, ht⟩ => ⟨t, Disk.readRaw_of_get? h.layout.symm (h.elsewhere q hq).symm ht⟩,
    fun ⟨t, ht⟩ => ⟨t, Disk.readRaw_of_get? h.layout (h.elsewhere q hq) ht⟩⟩

/-- Names under which the file that was cut can be read lead to it as before. -/
theorem fileOf?_of_cut (h : LineCut d d₁ file n new p raw) {q : Path} {x : Text}
    (hx : d₁.fileOf? x = some q) : d.fileOf? x = some q := by
  by_cases hq : q = p
  · subst hq
    obtain ⟨t, ht⟩ := Disk.fileOf?_eq_some.mp hx
    obtain ⟨husable, hopen⟩ := Disk.readRaw_eq_ok_iff.mp ht
    obtain ⟨hlocate, -⟩ := Disk.openFile_eq_ok hopen
    obtain ⟨-, hentry⟩ := Disk.openFile_eq_ok h.before.opens
    refine Disk.fileOf?_eq_some.mpr ⟨raw, Disk.readRaw_eq_ok_iff.mpr ⟨husable, ?_⟩⟩
    unfold Disk.openFile at hopen ⊢
    rw [h.layout.refuses] at hopen
    rw [h.layout.locate?, h.layout.cwd] at hlocate
    split at hopen
    · cases hopen
    · next hallowed => simp only [if_neg hallowed, hlocate, hentry]
  · exact (h.fileOf?_iff hq x).mp hx

theorem fileOf? (h : LineCut d d₁ file n new p raw) : d.fileOf? file = some p :=
  Disk.fileOf?_eq_some.mpr ⟨raw, Disk.readRaw_eq_ok_iff.mpr h.before⟩

end LineCut

/-- A file that none of the edits is for is another one than that of the first of them. -/
theorem ne_of_editsAt_cons {q : Path} (h : d.fileOf? e.file = some q) (hnone : editsAt d p (e :: es) = []) : p ≠ q := by
  rintro rfl
  rw [editsAt_cons_of_pos h] at hnone
  cases hnone

/-! ## What the decisions add up to -/

/-- What became of one document. Its lines are those that the applied edits for its file make one after
    the other, its breaks are as they were, and each of these edits found its old text on its line. -/
structure LinesEdited (d d' : Disk) (as : List Edit) (file : Text) (p : Path) (raw : Text) : Prop where
  result : ∃ raw', d'.readRaw file = .ok (p, raw') ∧
    raw'.unifyBreaks.lines = editLines (editsAt d p as) raw.unifyBreaks.lines ∧
    breaksOf raw' = breaksOf raw
  moment : ∀ before e after, as = before ++ e :: after → d.fileOf? e.file = some p →
    (editLines (editsAt d p before) raw.unifyBreaks.lines)[e.line]? = some e.old

/-- The account of a list of edits. The edits were decided one by one. Each of them is in one of the two lists,
    in order. No file changed but those of the applied edits and those that were cut because there was no room
    for all of them; and of the files that were not cut only the lines that the edits name, unless one of them
    makes one break of two. -/
structure Accounting (d : Disk) (es : List Edit) (d' : Disk) (as : List Edit)
    (ss : List SkippedEdit) : Prop where
  decided : Accounted d es d' as ss
  applied : as.Sublist es
  skipped : (ss.map (·.edit)).Sublist es
  once : (as ++ ss.map (·.edit)).Perm es
  layout : SameLayout d d'
  read : ∀ e ∈ as, ∃ p, d.fileOf? e.file = some p
  cut : ∀ e ∈ cutOff ss, d.CanBeCut e.file
  elsewhere : ∀ p, editsAt d p as = [] → editsAt d p (cutOff ss) = [] → d'.entries.get? p = d.entries.get? p
  lines : ∀ file p raw, d.readRaw file = .ok (p, raw) → editsAt d p (cutOff ss) = [] →
    (∀ e ∈ editsAt d p as, e.new = [] → ¬JoinsBreaks (breaksOf raw) e.line) →
    LinesEdited d d' as file p raw

/-- An edit for the file comes before the others: it sets one line, and they go on from there. -/
theorem LinesEdited.cons_self {file : Text} {p : Path} {raw raw₁ : Text} (htakes : Replaces d e d₁)
    (hfile : d.fileOf? e.file = some p) (hexpected : raw.unifyBreaks.lines[e.line]? = some e.old)
    (hset : raw₁.unifyBreaks.lines = raw.unifyBreaks.lines.set e.line e.new)
    (hbreaks : breaksOf raw₁ = breaksOf raw) (h : LinesEdited d₁ d' as file p raw₁) :
    LinesEdited d d' (e :: as) file p raw := by
  obtain ⟨⟨raw', hreads', hlines, hbreaks'⟩, hmoment⟩ := h
  rw [htakes.editsAt, hset] at hlines
  refine ⟨⟨raw', hreads', ?_, hbreaks'.trans hbreaks⟩, ?_⟩
  · rw [hlines, editsAt_cons_of_pos hfile]
    rfl
  · intro before u after hsplit hu
    cases before with
    | nil =>
      obtain ⟨rfl, -⟩ := List.cons.inj hsplit
      exact hexpected
    | cons b before =>
      obtain ⟨rfl, hrest⟩ := List.cons.inj hsplit
      have hfound := hmoment before u after hrest ((htakes.fileOf? _).trans hu)
      rw [htakes.editsAt, hset] at hfound
      rw [editsAt_cons_of_pos hfile]
      exact hfound

/-- An edit for another file comes before the others. -/
theorem LinesEdited.cons_other {file : Text} {p : Path} {raw : Text} (htakes : Replaces d e d₁)
    (hfile : d.fileOf? e.file ≠ some p) (h : LinesEdited d₁ d' as file p raw) :
    LinesEdited d d' (e :: as) file p raw := by
  obtain ⟨⟨raw', hreads', hlines, hbreaks'⟩, hmoment⟩ := h
  rw [htakes.editsAt] at hlines
  refine ⟨⟨raw', hreads', ?_, hbreaks'⟩, ?_⟩
  · rw [hlines, editsAt_cons_of_neg hfile]
  · intro before u after hsplit hu
    cases before with
    | nil =>
      obtain ⟨rfl, -⟩ := List.cons.inj hsplit
      exact absurd hu hfile
    | cons b before =>
      obtain ⟨rfl, hrest⟩ := List.cons.inj hsplit
      have hfound := hmoment before u after hrest ((htakes.fileOf? _).trans hu)
      rw [htakes.editsAt] at hfound
      rw [editsAt_cons_of_neg hfile]
      exact hfound

/-- A cut of another file comes before the edits. -/
theorem LinesEdited.of_cut {file : Text} {p q : Path} {raw raw₀ : Text}
    (hcut : LineCut d d₁ e.file e.line e.new q raw₀) (hne : p ≠ q) (h : LinesEdited d₁ d' as file p raw) :
    LinesEdited d d' as file p raw := by
  have hat := fun es => editsAt_congr (hcut.fileOf?_iff hne) es
  obtain ⟨⟨raw', hreads', hlines, hbreaks⟩, hmoment⟩ := h
  rw [hat] at hlines
  refine ⟨⟨raw', hreads', hlines, hbreaks⟩, ?_⟩
  intro before u after hsplit hu
  have hfound := hmoment before u after hsplit ((hcut.fileOf?_iff hne _).mpr hu)
  rwa [hat] at hfound

theorem LineCut.canBeCut {n : Nat} {file new raw : Text} (h : LineCut d d₁ file n new p raw) : d.CanBeCut file := by
  obtain ⟨room, hroom, -, -⟩ := h.left
  exact ⟨⟨p, h.fileOf?⟩, ⟨room, hroom⟩⟩

/-- Only writing that breaks off says that there is no room. -/
theorem canBeCut_of_noRoom {f : Text}
    (h : (d.replaceLine e.file e.line e.old e.new).2 = .error (.disk (.document (.unwritable f .noRoom)))) :
    d.CanBeCut e.file := by
  have hdecision := lineOutcome_replaceLine d e.file e.line e.old e.new
  generalize d.replaceLine e.file e.line e.old e.new = r at h hdecision
  cases hdecision with
  | unread hreads => cases hreads <;> cases h
  | gone _ _ _ => cases h
  | changed _ _ _ _ _ => cases h
  | unreportable _ _ _ => cases h
  | unwritable _ _ _ _ => cases h
  | cut hholds _ _ _ hroom _ =>
    exact ⟨⟨_, Disk.fileOf?_eq_some.mpr ⟨_, Disk.readRaw_eq_ok_iff.mpr hholds⟩⟩, ⟨_, hroom⟩⟩
  | replaced _ _ _ _ _ => cases h

namespace Accounted

/-- An applied edit was for a document that could be read from the start. -/
theorem exists_fileOf? (h : Accounted d es d' as ss) : ∀ e ∈ as, ∃ p, d.fileOf? e.file = some p := by
  induction h with
  | done _ => exact fun e he => absurd he List.not_mem_nil
  | applied htakes _ ih =>
    obtain ⟨hreads, -, -, -⟩ := id htakes
    refine List.forall_mem_cons.mpr ⟨⟨_, Disk.fileOf?_eq_some.mpr ⟨_, hreads⟩⟩, fun u hu => ?_⟩
    obtain ⟨p, hp⟩ := ih u hu
    exact ⟨p, (htakes.fileOf? u.file).symm.trans hp⟩
  | skipped _ _ _ ih => exact ih
  | cut hcuts _ ih =>
    intro u hu
    obtain ⟨p, hp⟩ := ih u hu
    exact ⟨p, hcuts.fileOf?_of_cut hp⟩

/-- A file was cut only if there was too little room for it from the start. -/
theorem canBeCut (h : Accounted d es d' as ss) : ∀ e ∈ cutOff ss, d.CanBeCut e.file := by
  intro u hu
  rw [mem_cutOff] at hu
  obtain ⟨file, hu⟩ := hu
  induction h with
  | done _ => exact absurd hu List.not_mem_nil
  | applied htakes _ ih =>
    obtain ⟨⟨p, hp⟩, ⟨room, hroom⟩⟩ := ih hu
    exact ⟨⟨p, (htakes.fileOf? u.file).symm.trans hp⟩, ⟨room, (htakes.sameLayout.room? _).symm.trans hroom⟩⟩
  | skipped _ hreason _ ih =>
    rcases List.mem_cons.mp hu with heq | hu
    · obtain ⟨rfl, rfl⟩ := SkippedEdit.mk.inj heq
      exact canBeCut_of_noRoom (congrArg Prod.snd hreason)
    · exact ih hu
  | cut hcuts _ ih =>
    rcases List.mem_cons.mp hu with heq | hu
    · obtain ⟨rfl, -⟩ := SkippedEdit.mk.inj heq
      exact hcuts.canBeCut
    · obtain ⟨⟨p, hp⟩, ⟨room, hroom⟩⟩ := ih hu
      exact ⟨⟨p, hcuts.fileOf?_of_cut hp⟩, ⟨room, (hcuts.layout.room? _).symm.trans hroom⟩⟩

/-- **A file that no applied edit is for, and that was not cut**, holds what it held. -/
theorem get?_eq (h : Accounted d es d' as ss) (hp : editsAt d p as = []) (hcut : editsAt d p (cutOff ss) = []) :
    d'.entries.get? p = d.entries.get? p := by
  induction h with
  | done _ => rfl
  | @applied d _ _ e _ _ _ htakes _ ih =>
    have hne : d.fileOf? e.file ≠ some p := fun he => ne_of_editsAt_cons he hp rfl
    rw [editsAt_cons_of_neg hne, ← htakes.editsAt] at hp
    rw [← htakes.editsAt] at hcut
    rw [ih hp hcut, htakes.get?_of_ne fun raw hreads => hne (Disk.fileOf?_eq_some.mpr ⟨raw, hreads⟩)]
  | skipped _ _ _ ih => exact ih hp (editsAt_cutOff_cons hcut)
  | @cut d _ _ e _ _ ss q _ hcuts _ ih =>
    have hne : p ≠ q := ne_of_editsAt_cons hcuts.fileOf? hcut
    rw [← editsAt_congr (hcuts.fileOf?_iff hne)] at hp hcut
    rw [ih hp (editsAt_cutOff_cons hcut), hcuts.elsewhere p hne]

/-- **A document after its edits**, by induction on the decisions: an edit for its file sets one line and
    leaves the breaks, so what the next one finds is what the edits before it have made. -/
theorem linesEdited (h : Accounted d es d' as ss) (hplain : ∀ e ∈ as, Plain e.new) {file raw : Text}
    (hreads : d.readRaw file = .ok (p, raw)) (hcut : editsAt d p (cutOff ss) = [])
    (hkeeps : ∀ e ∈ editsAt d p as, e.new = [] → ¬JoinsBreaks (breaksOf raw) e.line) :
    LinesEdited d d' as file p raw := by
  induction h generalizing raw with
  | done d =>
    refine ⟨⟨raw, hreads, rfl, rfl⟩, ?_⟩
    intro before e after hsplit
    exact absurd hsplit.symm (by simp)
  | @applied d d₁ _ e _ as _ htakes _ ih =>
    obtain ⟨hplain₀, hplain⟩ := List.forall_mem_cons.mp hplain
    rw [← htakes.editsAt] at hcut
    by_cases hfile : d.fileOf? e.file = some p
    · rw [editsAt_cons_of_pos hfile, List.forall_mem_cons] at hkeeps
      obtain ⟨hkeeps₀, hkeeps⟩ := hkeeps
      obtain ⟨hexpected, raw₁, hreads₁, hset, hbreaks⟩ :=
        htakes.readRaw_self hreads hfile hplain₀ hkeeps₀
      -- the breaks of the document, and which edits are for it, are as they were
      rw [← htakes.editsAt, ← hbreaks] at hkeeps
      exact (ih hplain hreads₁ hcut hkeeps).cons_self htakes hfile hexpected hset hbreaks
    · rw [editsAt_cons_of_neg hfile, ← htakes.editsAt] at hkeeps
      exact (ih hplain (htakes.readRaw_of_ne hreads hfile) hcut hkeeps).cons_other htakes hfile
  | skipped _ _ _ ih => exact ih hplain hreads (editsAt_cutOff_cons hcut) hkeeps
  | @cut d _ _ e _ _ ss q _ hcuts _ ih =>
    have hne : p ≠ q := ne_of_editsAt_cons hcuts.fileOf? hcut
    have hreads₁ := Disk.readRaw_of_get? hcuts.layout (hcuts.elsewhere p hne) hreads
    rw [← editsAt_congr (hcuts.fileOf?_iff hne)] at hkeeps hcut
    exact (ih hplain hreads₁ (editsAt_cutOff_cons hcut) hkeeps).of_cut hcuts hne

/-- **What the decisions add up to.** -/
theorem accounting (h : Accounted d es d' as ss) (hplain : ∀ e ∈ es, Plain e.new) :
    Accounting d es d' as ss where
  decided := h
  applied := h.applied_sublist
  skipped := h.skipped_sublist
  once := h.perm
  layout := h.sameLayout
  read := h.exists_fileOf?
  cut := h.canBeCut
  elsewhere _ := h.get?_eq
  lines _ _ _ := h.linesEdited fun e he => hplain e (h.applied_sublist.subset he)

end Accounted

end Edits

/-! ## A rename during which documents change -/

/-- Apply a plan that was made before, if one was made. -/
def carryOutPlan (d : Disk) (path : TagPath) (name : Text) (plan : Except RenameFault (List Edit)) :
    Disk × Except RenameFault RenameOutcome :=
  match plan with
  | .error f => (d, .error f)
  | .ok edits =>
    let (d', r) := applyPlan d edits (writtenTag path) (writtenTag (renamedPath path name))
    (d', r.mapError .ofEdit)

/-- A rename that is planned on one disk and applied to what has become of it since. -/
def Service.renameAcross (sv : Service) (d₀ d : Disk) (tag name : Text) :
    Session × Except RenameFault RenameOutcome :=
  let path := splitTag tag
  match checkName name with
  | .error f => (⟨sv, d⟩, .error (.name f))
  | .ok _ =>
    if path = [] then (⟨sv, d⟩, .error (.name (.emptyTag tag)))
    else if path.getLast? = some name then
      (⟨sv, d⟩, .ok { oldTag := writtenTag path, newTag := writtenTag (renamedPath path name) })
    else
      let (d', result) := carryOutPlan d path name (planRename d₀ sv.index path name)
      match sv.scanAll d' with
      | (sv', .error f) => (⟨sv', d'⟩, .error (.path f))
      | (sv', .ok _) => (⟨sv', d'⟩, result)

/-- The rename itself is the one during which nothing changes. -/
theorem Service.renameAcross_self (sv : Service) (d : Disk) (tag name : Text) :
    sv.renameAcross d d tag name = sv.rename d tag name := by
  unfold renameAcross rename carryOut carryOutPlan
  rfl

/-- A scan of the whole workspace: its index is that of the full scan, and if there is none because a
    path cannot be used, the index stays and the scan answers with that path. -/
theorem Service.scanAll_cases (sv : Service) (d : Disk) :
    (∃ full summary, sv.settings.fullIndex d = .ok full ∧
      sv.scanAll d = ({ sv with index := full, scanned := true }, .ok summary)) ∨
    ∃ f, sv.settings.fullIndex d = .error f ∧ sv.scanAll d = (sv, .error f) := by
  cases hfull : sv.settings.fullIndex d with
  | ok full =>
    obtain ⟨summary, hscan⟩ := scanAll_eq hfull
    exact .inl ⟨full, summary, rfl, hscan⟩
  | error f =>
    refine .inr ⟨f, rfl, ?_⟩
    unfold scanAll scan Settings.scan
    simp only [hfull]

/-- What a rename leaves behind. The index is that of a full scan of the resulting disk, or the rename
    fails as that scan does; and if there was a plan, its edits are accounted for until the work on them ends,
    every one with a name that can be used and a text that keeps all breaks. -/
structure RenameAccount (sv : Service) (d₀ d : Disk) (path : TagPath) (name : Text)
    (r : Session × Except RenameFault RenameOutcome) : Prop where
  rescanned : (∃ full, sv.settings.fullIndex r.1.disk = .ok full ∧ r.1.service.index = full) ∨
    ∃ f, sv.settings.fullIndex r.1.disk = .error f ∧ r.1.service.index = sv.index ∧
      r.2 = .error (.path f)
  accounted : ∀ edits, planRename d₀ sv.index path name = .ok edits →
    (∀ e ∈ edits, '\x00' ∉ e.file ∧ Plain e.new ∧ e.new ≠ []) ∧
    ∃ done rest as ss result, edits = done ++ rest ∧ Accounting d done r.1.disk as ss ∧
      WorkEnds r.1.disk as ss rest result ∧
      ((∃ full, sv.settings.fullIndex r.1.disk = .ok full) →
        r.2 = (result.mapError .ofEdit).map fun out =>
          ⟨writtenTag path, writtenTag (renamedPath path name), out.1, out.2⟩)

/-- The edits of a plan from scans are for documents that could be read, and put in one line each. -/
theorem FromScans.of_mem_planRename {d : Disk} {s : Index} {path : TagPath} {name : Text}
    {edits : List Edit} (hs : FromScans s) (hplan : planRename d s path name = .ok edits) {e : Edit}
    (he : e ∈ edits) : '\x00' ∉ e.file ∧ Plain e.new ∧ e.new ≠ [] := by
  obtain ⟨hname, hplan⟩ := planEdits_of_mem_planRename hplan he
  obtain ⟨text, hread, hedit⟩ := exists_of_mem_planEdits hplan he
  obtain ⟨⟨p, raw⟩, hraw, rfl⟩ := map_eq_ok.mp hread
  exact ⟨(Disk.leadsTo_of_readRaw hraw).1, new_of_mem_planLines hs hname hedit⟩

/-- **A rename during which documents change.** -/
theorem Service.renameAccount {sv : Service} (hs : FromScans sv.index) (d₀ d : Disk) {tag name : Text}
    (hname : checkName name = .ok name) (hpath : splitTag tag ≠ [])
    (hlast : (splitTag tag).getLast? ≠ some name) :
    RenameAccount sv d₀ d (splitTag tag) name (sv.renameAcross d₀ d tag name) := by
  unfold renameAcross
  simp only [hname, if_neg hpath, if_neg hlast]
  constructor
  · rcases sv.scanAll_cases (carryOutPlan d (splitTag tag) name
      (planRename d₀ sv.index (splitTag tag) name)).1 with ⟨full, summary, hfull, hscan⟩ | ⟨f, hfull, hscan⟩
    · rw [hscan]
      exact .inl ⟨full, hfull, rfl⟩
    · rw [hscan]
      exact .inr ⟨f, hfull, rfl, rfl⟩
  · intro edits hplan
    have hedits : ∀ e ∈ edits, '\x00' ∉ e.file ∧ Plain e.new ∧ e.new ≠ [] := fun e he =>
      hs.of_mem_planRename hplan he
    obtain ⟨done, rest, d', as, ss, result, rfl, happly, hdecided, hends⟩ := exists_work d edits
    have hcarry : carryOutPlan d (splitTag tag) name (planRename d₀ sv.index (splitTag tag) name) =
        (d', (result.mapError .ofEdit).map fun out =>
          ⟨writtenTag (splitTag tag), writtenTag (renamedPath (splitTag tag) name), out.1, out.2⟩) := by
      rw [hplan]
      unfold carryOutPlan applyPlan
      simp only [happly]
      cases result <;> rfl
    have hplain : ∀ e ∈ done, Plain e.new := fun e he => (hedits e (List.mem_append_left _ he)).2.1
    rw [hcarry]
    refine ⟨hedits, done, rest, as, ss, result, rfl, ?_, ?_, ?_⟩
    · rcases sv.scanAll_cases d' with ⟨full, summary, -, hscan⟩ | ⟨f, -, hscan⟩ <;> rw [hscan]
      all_goals exact hdecided.accounting hplain
    · rcases sv.scanAll_cases d' with ⟨full, summary, -, hscan⟩ | ⟨f, -, hscan⟩ <;> rw [hscan]
      all_goals exact hends
    · rcases sv.scanAll_cases d' with ⟨full, summary, -, hscan⟩ | ⟨f, hfail, hscan⟩ <;> rw [hscan]
      · exact fun _ => rfl
      · rintro ⟨full, hfull⟩
        cases hfail.symm.trans hfull

/-- The work does not stop at edits whose names hold no null character and whose lines have numbers that can be
    reported. -/
theorem WorkEnds.finished_of {d : Disk} {as rest : List Edit} {ss : List SkippedEdit}
    {r : Except EditFault (List Edit × List SkippedEdit)} (h : WorkEnds d as ss rest r)
    (hrest : ∀ e ∈ rest, '\x00' ∉ e.file ∧ Reportable e.line) : rest = [] ∧ r = .ok (as, ss) := by
  cases h with
  | finished => exact ⟨rfl, rfl⟩
  | unusable hnul => exact absurd hnul (hrest _ List.mem_cons_self).1
  | unreportable _ _ hlong => exact absurd (hrest _ List.mem_cons_self).2 hlong

/-- **Every edit is accounted for**, whatever became of the documents on a disk.

    * Edits whose texts hold no break are applied or skipped one by one until the work ends. No line changes
      but those that applied edits name, except in files that were cut because writing broke off.
    * The work does not stop if no name holds a null character and all numbers of lines can be reported. And no
      file is cut if there is room.
    * A rename does this with the edits of its plan, however documents came to be on this disk after it was made,
      and leaves the index of a full scan behind, or the old one if there is no full scan. -/
theorem edits_accounted (d : Disk) :
    (∀ es oldTag newTag, (∀ e ∈ es, Plain e.new) →
      ∃ done rest d' as ss result, es = done ++ rest ∧ applyPlan d es oldTag newTag =
          (d', result.map fun out => ⟨oldTag, newTag, out.1, out.2⟩) ∧
        Accounting d done d' as ss ∧ WorkEnds d' as ss rest result) ∧
    (∀ es oldTag newTag, (∀ e ∈ es, '\x00' ∉ e.file ∧ Reportable e.line ∧ Plain e.new) →
      ∃ d' as ss, applyPlan d es oldTag newTag = (d', .ok ⟨oldTag, newTag, as, ss⟩) ∧
        Accounting d es d' as ss ∧ ((∀ e ∈ es, d.room? (.ofText e.file) = none) → cutOff ss = [])) ∧
    (∀ sv d₀ tag name, FromScans sv.index → checkName name = .ok name → splitTag tag ≠ [] →
      (splitTag tag).getLast? ≠ some name →
      RenameAccount sv d₀ d (splitTag tag) name (sv.renameAcross d₀ d tag name)) ∧
    ∀ sv tag name, Service.renameAcross sv d d tag name = sv.rename d tag name := by
  have hall : ∀ es oldTag newTag, (∀ e ∈ es, Plain e.new) →
      ∃ done rest d' as ss result, es = done ++ rest ∧ applyPlan d es oldTag newTag =
          (d', result.map fun out => ⟨oldTag, newTag, out.1, out.2⟩) ∧
        Accounting d done d' as ss ∧ WorkEnds d' as ss rest result := by
    intro es oldTag newTag hes
    obtain ⟨done, rest, d', as, ss, result, rfl, happly, hdecided, hends⟩ := exists_work d es
    refine ⟨done, rest, d', as, ss, result, rfl, ?_,
      hdecided.accounting fun e he => hes e (List.mem_append_left _ he), hends⟩
    unfold applyPlan
    rw [happly]
  refine ⟨hall, ?_, ?_, fun sv tag name => sv.renameAcross_self d tag name⟩
  · intro es oldTag newTag hes
    obtain ⟨done, rest, d', as, ss, result, rfl, happly, haccount, hends⟩ :=
      hall es oldTag newTag fun e he => (hes e he).2.2
    obtain ⟨rfl, rfl⟩ := hends.finished_of fun e he =>
      have he := hes e (List.mem_append_right _ he)
      ⟨he.1, he.2.1⟩
    rw [List.append_nil] at happly hes ⊢
    refine ⟨d', as, ss, happly, haccount, fun hroom => List.eq_nil_iff_forall_not_mem.mpr fun e he => ?_⟩
    obtain ⟨file, hs⟩ := mem_cutOff.mp he
    obtain ⟨-, room, hfull⟩ := haccount.cut e he
    have hedit : e ∈ done := haccount.skipped.subset (List.mem_map_of_mem hs)
    cases hfull.symm.trans (hroom e hedit)
  · intro sv d₀ tag name hs hname hpath hlast
    exact Service.renameAccount hs d₀ d hname hpath hlast

/-! ## A board of notes -/

/-- A board with a note of three lines, one that is no text, one that must not be written, and one for which
    there is hardly any room. -/
def boardDisk : Disk :=
  { Disk.ofDirectories [] [['w']] [] with
    entries := .ofList [([['w']], .directory), ([['w'], ['a']], .file (encodeUtf8 "x\r\ny\nz".toList)),
      ([['w'], ['b']], .file [255]), ([['w'], ['c']], .file (encodeUtf8 "x".toList)),
      ([['w'], ['d']], .file (encodeUtf8 "x".toList))]
    refusals := .ofList [("/w/c".toList, { writing := true }), ("/w/d".toList, { room := some 1 })] }

/-- The replacement of a line of a note. -/
def boardEdit (note : String) (line : Nat) (old new : String) : Edit :=
  ⟨"/w/".toList ++ note.toList, line, old.toList, new.toList⟩

/-- Two of these edits are for a line that another one has changed, and four for notes that cannot be read or
    written in full. -/
def boardEdits : List Edit :=
  [boardEdit "a" 0 "x" "v", boardEdit "a" 0 "x" "q", boardEdit "a" 0 "v" "w", boardEdit "b" 0 "x" "q",
    boardEdit "m" 0 "x" "q", boardEdit "c" 0 "x" "q", boardEdit "d" 0 "x" "qr", boardEdit "a" 1 "y" ""]

/-- The diary, one day of which was written on after the plan was made. -/
def writtenDiary : Disk :=
  diaryDisk.put [['w'], "t.md".toList] (.file (encodeUtf8 "no #b/a\n#a more".toList))

/-- Three edits of the board are applied, one of them to what another one made and one with an empty
    text, and five are skipped, one of which has cut its note; the breaks of the other note stay. A rename of the
    diary skips the day that was written on, and the index shows that day as it is. -/
theorem board_accounted :
    (∃ d' ss raw, applyPlan boardDisk boardEdits [] [] = (d', .ok ⟨[], [],
        [boardEdit "a" 0 "x" "v", boardEdit "a" 0 "v" "w", boardEdit "a" 1 "y" ""], ss⟩) ∧
      ss.map (·.edit) = [boardEdit "a" 0 "x" "q", boardEdit "b" 0 "x" "q", boardEdit "m" 0 "x" "q",
        boardEdit "c" 0 "x" "q", boardEdit "d" 0 "x" "qr"] ∧
      cutOff ss = [boardEdit "d" 0 "x" "qr"] ∧
      d'.readRaw "/w/a".toList = .ok ([['w'], ['a']], raw) ∧
      raw.unifyBreaks.lines = ["w".toList, [], "z".toList] ∧ breaksOf raw = [.crlf, .lf, .none]) ∧
    ∃ sv' d' out, diary.renameAcross diaryDisk writtenDiary "#a".toList "long".toList =
        (⟨sv', d'⟩, .ok out) ∧ out.applied.length = 2 ∧ out.skipped.length = 1 ∧
      diary.settings.fullIndex d' = .ok sv'.index := by
  constructor
  · obtain ⟨d', as, ss, happly, hacc, -⟩ := (edits_accounted boardDisk).2.1 boardEdits [] [] (by decide +kernel)
    have hlists : (applyPlan boardDisk boardEdits [] []).2.map
        (fun out => (out.applied, out.skipped.map (·.edit), cutOff out.skipped)) =
          .ok ([boardEdit "a" 0 "x" "v", boardEdit "a" 0 "v" "w", boardEdit "a" 1 "y" ""],
            [boardEdit "a" 0 "x" "q", boardEdit "b" 0 "x" "q", boardEdit "m" 0 "x" "q",
              boardEdit "c" 0 "x" "q", boardEdit "d" 0 "x" "qr"], [boardEdit "d" 0 "x" "qr"]) := by cbv
    have hread : boardDisk.readRaw "/w/a".toList = .ok ([['w'], ['a']], "x\r\ny\nz".toList) := by cbv
    rw [happly] at hlists
    obtain ⟨rfl, hlists⟩ := Prod.mk.inj (Except.ok.inj hlists)
    obtain ⟨hskipped, hcut⟩ := Prod.mk.inj hlists
    obtain ⟨⟨raw, hreads, hlines, hbreaks⟩, -⟩ :=
      hacc.lines _ _ _ hread (by rw [hcut]; decide +kernel) (by decide +kernel)
    exact ⟨d', ss, raw, happly, hskipped, hcut, hreads, by rw [hlines]; decide +kernel,
      by rw [hbreaks]; decide⟩
  · have haccount := (edits_accounted writtenDiary).2.2.1 diary diaryDisk "#a".toList "long".toList
      inStep_diary.fromScans (by decide) (by decide) (by decide)
    have hcounts : (diary.renameAcross diaryDisk writtenDiary "#a".toList "long".toList).2.map
        (fun out => (out.applied.length, out.skipped.length)) = .ok (2, 1) := by cbv
    generalize diary.renameAcross diaryDisk writtenDiary "#a".toList "long".toList = r at haccount hcounts
    obtain ⟨⟨sv', d'⟩, f | out⟩ := r
    · cases hcounts
    · obtain ⟨happlied, hskipped⟩ := Prod.mk.inj (Except.ok.inj hcounts)
      refine ⟨sv', d', out, rfl, happlied, hskipped, ?_⟩
      rcases haccount.rescanned with ⟨full, hfull, rfl⟩ | ⟨f, -, -, hfail⟩
      · exact hfull
      · cases hfail

/-! ## What can go wrong -/

/-- Settings for documents whose names end in two stars, which no pattern may. -/
def starSettings : Settings := ⟨[['w']], [".x**".toList], [], {}, []⟩

/-- A disk with a note that has this ending. -/
def starDisk : Disk :=
  { Disk.ofDirectories [] [['w']] [] with
    entries := .ofList [([['w']], .directory), ([['w'], "n.x**".toList], .file (encodeUtf8 "#a".toList))] }

/-- The service that was told that the note was saved. -/
def starService : Service :=
  (Service.handle { settings := starSettings } starDisk ⟨.saved, ["n.x**".toList], []⟩).1

/-- **What can go wrong.** A name with a null character stops the work, and so does a line behind the end of a
    note whose number is too long to be reported: such an edit is in neither list. An edit that is skipped has
    all the same cut its note, where writing breaks off. Emptying the line between a carriage return and a line
    feed is applied, and the line behind it moves up. And where the full scan fails, a rename that changed a
    document leaves the index as it was. -/
theorem edits_not_accounted :
    (applyPlan (noteDisk []) [⟨['\x00'], 0, [], []⟩] [] []).2 = .error (.path .nulByte) ∧
    (applyPlan (noteDisk "x".toList) [⟨notePath, 10 ^ mostDigits, "x".toList, "y".toList⟩] [] []).2 =
      .error .longNumber ∧
    (applyPlan (mixedDisk { room := some 4 }) [⟨notePath, 1, "b".toList, "B!".toList⟩] [] [] =
      ((mixedDisk { room := some 4 }).put [['w'], ['n']] (.file (encodeUtf8 "a\r\nB".toList)),
        .ok ⟨[], [], [], [⟨⟨notePath, 1, "b".toList, "B!".toList⟩, .unwritable notePath .noRoom⟩]⟩)) ∧
    ((∃ d', applyPlan (noteDisk "a\rx\nb".toList) [⟨notePath, 1, "x".toList, []⟩] [] [] =
        (d', .ok ⟨[], [], [⟨notePath, 1, "x".toList, []⟩], []⟩) ∧
      d'.readDocument notePath = .ok "a\nb".toList)) ∧
    (starService.index.get? "/w/n.x**".toList).map (·.occurrences.map (·.path)) = some [[['a']]] ∧
      (starService.rename starDisk "a".toList "b".toList).1.disk.readDocument "/w/n.x**".toList =
        .ok "#b".toList ∧
      starSettings.fullIndex (starService.rename starDisk "a".toList "b".toList).1.disk =
        .error .badPattern ∧
      (starService.rename starDisk "a".toList "b".toList).1.service.index = starService.index := by
  have hlong : applyPlan (noteDisk "x".toList) [⟨notePath, 10 ^ mostDigits, "x".toList, "y".toList⟩] [] [] =
      (noteDisk "x".toList, .error .longNumber) := by
    unfold applyPlan applyEdits
    rw [replaceLine_of_longNumber]
    rfl
  have hcut : (mixedDisk { room := some 4 }).replaceLine notePath (1 : Nat) "b".toList "B!".toList = _ :=
    replaceLine_of_room
  have hjoined : (applyPlan (noteDisk "a\rx\nb".toList) [⟨notePath, 1, "x".toList, []⟩] [] []).2 =
      .ok ⟨[], [], [⟨notePath, 1, "x".toList, []⟩], []⟩ := by cbv
  refine ⟨by cbv, by rw [hlong], ?_, ⟨_, Prod.ext rfl hjoined, by cbv⟩, by cbv, by cbv, by cbv, by cbv⟩
  unfold applyPlan applyEdits
  rw [hcut]
  rfl

end HashtagIndex
