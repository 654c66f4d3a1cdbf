import HashtagIndex.Proofs.Encoding
import HashtagIndex.Proofs.Layout
import HashtagIndex.Proofs.LineViews
import HashtagIndex.Proofs.Outcomes
import HashtagIndex.Workspace.Rename

/-!
# `Proofs.Editing` — applying edits to documents

Each edit of a plan rewrites a whole file. What one edit does to *all* documents is a function of what
they read as before (`readRaw_put`): a document that is the same file reads as the new text, and every
other one as before. Hence an edit that finds the line it expects leaves every further edit of another
line or another file as applicable as it was, and a list of such edits is applied without skipping any
(`applyEdits_of_applicable`).

## Contents
- `Disk.readRaw_put`: reading after a file was overwritten.
- `Disk.LeadsTo`: where a name leads.
- `Disk.Writable`, `Replaces`, `replaceLine_eq_ok_iff`: when one edit is carried out.
- `fst_replaceLine`, `sameLayout_replaceLine`, `get?_replaceLine`: what an edit changes, whatever comes of it.
- `Applicable`, `Rewritten`, `replaceLine_of_applicable`: an edit that will be.
- `editLines`: what edits make of the lines of one document.
- `Edited`, `Disk.Apart`, `Applicable.of_rewritten`: what one edit leaves as it was.
- `applyEdits_of_applicable`: a list of edits; `sameLayout_applyEdits`, `get?_applyEdits`: any list of
  them.
-/

namespace HashtagIndex

/-! ## Reading after a file was overwritten -/

namespace Disk

theorem get?_put (d : Disk) (p : Path) (e : Entry) (q : Path) :
    (d.put p e).entries.get? q = if q = p then some e else d.entries.get? q := OrderedMap.get?_insert ..

theorem entry?_put (d : Disk) {p : Path} (hp : p ≠ []) (e : Entry) (q : Path) :
    entry? (d.put p e) q = if q = p then some e else d.entry? q := by
  unfold entry?
  by_cases hq : q = []
  · rw [if_pos hq, if_neg (fun h : q = p => hp (h ▸ hq)), if_pos hq]
  · rw [if_neg hq, if_neg hq, get?_put]

/-- Opening a file goes to where its name leads. -/
theorem openFile_eq_ok {d : Disk} {name : PathName} {p : Path} {bytes : List UInt8}
    (h : d.openFile name = .ok (p, bytes)) :
    d.locate? (name.within d.cwd).parts = .ok p ∧ d.entry? p = some (.file bytes) := by
  unfold openFile at h
  split at h
  · cases h
  · split at h
    · cases h
    · next q hlocate =>
      split at h
      · next hentry =>
        cases h
        exact ⟨hlocate, hentry⟩
      · cases h
      · cases h

/-- A document that was read was opened, and its octets are its text. -/
theorem readRaw_eq_ok {d : Disk} {file : Text} {p : Path} {raw : Text}
    (h : d.readRaw file = .ok (p, raw)) :
    ∃ bytes, d.openFile (.ofText file) = .ok (p, bytes) ∧ decodeUtf8 bytes = .ok raw := by
  rw [readRaw] at h
  split at h
  · cases h
  · split at h
    · cases h
    · next q bytes hopen =>
      split at h
      · cases h
      · next text hdecode =>
        cases h
        exact ⟨bytes, hopen, hdecode⟩

theorem file_of_readRaw {d : Disk} {file : Text} {p : Path} {raw : Text}
    (h : d.readRaw file = .ok (p, raw)) :
    ∃ bytes, d.entry? p = some (.file bytes) ∧ decodeUtf8 bytes = .ok raw := by
  obtain ⟨bytes, hopen, hdecode⟩ := readRaw_eq_ok h
  exact ⟨bytes, (openFile_eq_ok hopen).2, hdecode⟩

theorem ne_nil_of_entry?_file {d : Disk} {p : Path} {bytes : List UInt8}
    (h : d.entry? p = some (.file bytes)) : p ≠ [] := by
  rintro rfl
  cases h

/-- **Reading after a file was overwritten.** What leads to this file reads as the new text, and
    everything else as before. -/
theorem readRaw_put {d : Disk} {file : Text} {p : Path} {raw : Text}
    (h : d.readRaw file = .ok (p, raw)) (text x : Text) :
    (d.put p (.file (encodeUtf8 text))).readRaw x =
      (fun r => if r.1 = p then (p, text) else r) <$> d.readRaw x := by
  obtain ⟨bytes, hfile, hdecode⟩ := file_of_readRaw h
  have hlayout : SameLayout d (d.put p (.file (encodeUtf8 text))) := layout_put hfile _
  have hentry := d.entry?_put (ne_nil_of_entry?_file hfile) (.file (encodeUtf8 text))
  rw [readRaw, readRaw, openFile, openFile, hlayout.refuses, hlayout.locate?, hlayout.cwd]
  simp only [hentry]
  split
  · rfl
  by_cases hrefused : d.refuses (PathName.ofText x) (·.reading) = true
  · simp only [if_pos hrefused]
    rfl
  simp only [if_neg hrefused]
  rcases d.locate? ((PathName.ofText x).within d.cwd).parts with e | q
  · rfl
  by_cases hq : q = p
  · subst hq
    simp only [if_pos, hfile, decodeUtf8_encodeUtf8, hdecode]
    show _ = Except.ok (if q = q then (q, text) else (q, raw))
    rw [if_pos rfl]
  · simp only [if_neg hq]
    rcases d.entry? q with _ | _ | b | t
    · rfl
    · rfl
    · simp only
      rcases decodeUtf8 b with f | u
      · rfl
      · show _ = Except.ok (if q = p then (p, text) else (q, u))
        rw [if_neg hq]
    · rfl

/-- A name can be used and leads to a real path, whatever stands there. -/
def LeadsTo (d : Disk) (file : Text) (p : Path) : Prop :=
  '\x00' ∉ file ∧ d.locate? ((PathName.ofText file).within d.cwd).parts = .ok p

theorem leadsTo_of_readRaw {d : Disk} {file : Text} {p : Path} {raw : Text}
    (h : d.readRaw file = .ok (p, raw)) : d.LeadsTo file p := by
  have hnul : '\x00' ∉ file := by
    intro hnul
    rw [readRaw, if_pos hnul] at h
    cases h
  obtain ⟨_, hopen, _⟩ := readRaw_eq_ok h
  exact ⟨hnul, (openFile_eq_ok hopen).1⟩

theorem leadsTo_iff_of_sameLayout {d d' : Disk} (h : SameLayout d d') (file : Text) (p : Path) :
    d'.LeadsTo file p ↔ d.LeadsTo file p := by
  unfold LeadsTo
  rw [h.locate?, h.cwd]

end Disk

/-! ## One edit -/

/-- A file may be written through a name, and writing it does not break off. -/
def Disk.Writable (d : Disk) (file : Text) : Prop :=
  d.refuses (.ofText file) (·.writing) = false ∧ d.room? (.ofText file) = none

instance (d : Disk) (file : Text) : Decidable (d.Writable file) := inferInstanceAs (Decidable (_ ∧ _))

theorem Disk.Writable.fits {d : Disk} {file : Text} (h : d.Writable file) (bytes : List UInt8) :
    d.fits (.ofText file) bytes = true := by
  rw [Disk.fits, h.2]
  rfl

theorem SameLayout.writable {d d' : Disk} (h : SameLayout d d') {file : Text} (hw : d.Writable file) :
    d'.Writable file :=
  ⟨(h.refuses _ _).trans hw.1, (h.room? _).trans hw.2⟩

/-- The octets of a document with a line replaced. -/
def Edit.octets (e : Edit) (raw : Text) : List UInt8 :=
  encodeUtf8 (renderLines (Disk.setLine (rawLines raw) e.line e.new))

/-- A disk takes an edit: its document can be read and written, the line that it names reads as its old
    text, there is room for the document with that line replaced, and this overwrites the file that was
    read. -/
inductive Replaces (d : Disk) (e : Edit) : Disk → Prop
  | intro {p : Path} {raw : Text} (reads : d.readRaw e.file = .ok (p, raw))
      (expected : raw.unifyBreaks.lines[e.line]? = some e.old)
      (writable : d.refuses (.ofText e.file) (·.writing) = false)
      (fits : d.fits (.ofText e.file) (e.octets raw) = true) :
      Replaces d e (d.put p (.file (e.octets raw)))

section Replaces

variable {d d₁ : Disk} {e : Edit}

/-- An editor finds the line that a reader sees. -/
theorem lineAt?_rawLines (raw : Text) (n : Nat) :
    (Disk.lineAt? (rawLines raw) n).map (·.text) = raw.unifyBreaks.lines[n]? := by
  rw [Disk.lineAt?, if_neg (by omega), Int.toNat_natCast, lines_unifyBreaks, List.getElem?_map]

/-- **A line is replaced exactly if the disk takes the edit.** -/
theorem replaceLine_eq_ok_iff :
    d.replaceLine e.file e.line e.old e.new = (d₁, .ok ()) ↔ Replaces d e d₁ := by
  constructor
  · intro h
    simp only [Disk.replaceLine] at h
    split at h
    · cases h
    next p raw hreads =>
    split at h
    · cases h
    next l hl =>
    split at h
    · cases h
    next hold =>
    have hexpected : raw.unifyBreaks.lines[e.line]? = some e.old := by
      rw [← lineAt?_rawLines, hl, Option.map_some, not_not.mp hold]
    unfold Disk.overwrite at h
    split at h
    · cases h
    next hrefused =>
    split at h
    · next hfits =>
      obtain ⟨rfl, -⟩ := Prod.mk.inj h
      exact .intro hreads hexpected (Bool.eq_false_iff.mpr hrefused) hfits
    · cases h
  · rintro ⟨hreads, hexpected, hwritable, hfits⟩
    rw [← lineAt?_rawLines, Option.map_eq_some_iff] at hexpected
    obtain ⟨l, hl, hold⟩ := hexpected
    rw [Edit.octets] at hfits
    unfold Disk.replaceLine Disk.overwrite
    simp only [hreads, hl, hold, hwritable, hfits, ne_eq, not_true, if_true, if_false, Bool.false_eq_true]
    rfl

/-- **Whatever comes of replacing a line**, the disk is as it was, or the file that the document was read
    from was overwritten. -/
theorem fst_replaceLine (d : Disk) (file : Text) (line : Int) (expected new : Text) :
    (d.replaceLine file line expected new).1 = d ∨ ∃ p raw bytes, d.readRaw file = .ok (p, raw) ∧
      (d.replaceLine file line expected new).1 = d.put p (.file bytes) := by
  unfold Disk.replaceLine
  simp only
  split
  · exact .inl rfl
  next p raw hreads =>
  split
  · exact .inl rfl
  split
  · exact .inl rfl
  unfold Disk.overwrite
  split
  · exact .inl rfl
  split
  · exact .inr ⟨p, raw, _, hreads, rfl⟩
  · exact .inr ⟨p, raw, _, hreads, rfl⟩

/-- Replacing a line does not touch the layout. -/
theorem sameLayout_replaceLine (d : Disk) (file : Text) (line : Int) (expected new : Text) :
    SameLayout d (d.replaceLine file line expected new).1 := by
  rcases fst_replaceLine d file line expected new with h | ⟨p, raw, bytes, hreads, h⟩
  · rw [h]
    exact SameLayout.refl d
  · obtain ⟨old, hfile, -⟩ := Disk.file_of_readRaw hreads
    rw [h]
    exact Disk.layout_put hfile bytes

/-- Only the file that the document was read from may change with its line. -/
theorem get?_replaceLine {file : Text} {p : Path} (hp : ∀ raw, d.readRaw file ≠ .ok (p, raw)) (line : Int)
    (expected new : Text) :
    (d.replaceLine file line expected new).1.entries.get? p = d.entries.get? p := by
  rcases fst_replaceLine d file line expected new with h | ⟨q, raw, bytes, hreads, h⟩
  · rw [h]
  · rw [h]
    rw [Disk.get?_put, if_neg]
    rintro rfl
    exact hp _ hreads

namespace Replaces

/-- Edits do not touch the layout. -/
theorem sameLayout (h : Replaces d e d₁) : SameLayout d d₁ := by
  have hlayout := sameLayout_replaceLine d e.file e.line e.old e.new
  rwa [replaceLine_eq_ok_iff.mpr h] at hlayout

/-- Only the file that its document was read from changes with an edit. -/
theorem get?_of_ne (h : Replaces d e d₁) {p : Path} (hp : ∀ raw, d.readRaw e.file ≠ .ok (p, raw)) :
    d₁.entries.get? p = d.entries.get? p := by
  have hget := get?_replaceLine hp e.line e.old e.new
  rwa [replaceLine_eq_ok_iff.mpr h] at hget

end Replaces

end Replaces

/-- An edit that will be carried out: its document can be read and written, the line is as expected,
    and the new line is one line and not empty. -/
structure Applicable (d : Disk) (e : Edit) (p : Path) (raw : Text) : Prop where
  reads : d.readRaw e.file = .ok (p, raw)
  expected : raw.unifyBreaks.lines[e.line]? = some e.old
  writable : d.Writable e.file
  plain : Plain e.new
  nonempty : e.new ≠ []

/-- A disk on which one file was rewritten, and what leads to it reads as the new text. -/
def Rewritten (d d' : Disk) (p : Path) (raw' : Text) : Prop :=
  ∀ x, d'.readRaw x = (fun r => if r.1 = p then (p, raw') else r) <$> d.readRaw x

/-- **One edit**: its line is replaced, no other line of its document is touched, none of its breaks,
    and no other document. -/
theorem replaceLine_of_applicable {d : Disk} {e : Edit} {p : Path} {raw : Text}
    (h : Applicable d e p raw) :
    ∃ d' raw', d.replaceLine e.file e.line e.old e.new = (d', .ok ()) ∧ SameLayout d d' ∧
      raw'.unifyBreaks.lines = raw.unifyBreaks.lines.set e.line e.new ∧ breaksOf raw' = breaksOf raw ∧
      Rewritten d d' p raw' := by
  have htakes := Replaces.intro h.reads h.expected h.writable.1 (h.writable.fits _)
  obtain ⟨hlines, hbreaks⟩ :=
    lines_breaksOf_setLine raw h.plain (n := e.line) fun hempty => absurd hempty h.nonempty
  exact ⟨_, _, replaceLine_eq_ok_iff.mpr htakes, htakes.sameLayout, hlines, hbreaks,
    Disk.readRaw_put h.reads _⟩

/-! ## The lines of one document -/

/-- The lines of a document after edits. -/
def editLines (es : List Edit) (ls : List Text) : List Text :=
  es.foldl (fun ls e => ls.set e.line e.new) ls

/-- A line that no edit is for stays. -/
theorem getElem?_editLines_of_not_mem {es : List Edit} {n : Nat} (h : ∀ e ∈ es, e.line ≠ n)
    (ls : List Text) : (editLines es ls)[n]? = ls[n]? := by
  induction es generalizing ls with
  | nil => rfl
  | cons e es ih =>
    rw [editLines, List.foldl_cons, ← editLines, ih fun u hu => h u (List.mem_cons_of_mem _ hu),
      List.getElem?_set_ne (h e (by simp))]

/-- A line that an edit is for is replaced by it, if no other edit is for that line. -/
theorem getElem?_editLines_of_mem {es : List Edit} (hdistinct : es.Pairwise (·.line ≠ ·.line))
    {e : Edit} (he : e ∈ es) {ls : List Text} (hin : e.line < ls.length) :
    (editLines es ls)[e.line]? = some e.new := by
  induction es generalizing ls with
  | nil => simp at he
  | cons u es ih =>
    rw [editLines, List.foldl_cons, ← editLines]
    rcases List.mem_cons.mp he with rfl | he
    · have hrest : ∀ u ∈ es, u.line ≠ e.line := fun u hu =>
        ((List.pairwise_cons.mp hdistinct).1 u hu).symm
      rw [getElem?_editLines_of_not_mem hrest, List.getElem?_set_self hin]
    · exact ih hdistinct.tail he (by rwa [List.length_set])

/-! ## A list of edits -/

/-- What a document reads as before and after edits of its lines, which keep the breaks. -/
inductive Edited (es : List Edit) :
    Except DiskFault (Path × Text) → Except DiskFault (Path × Text) → Prop
  | failed (f : DiskFault) : Edited es (.error f) (.error f)
  | read (p : Path) {raw raw' : Text}
      (h : raw'.unifyBreaks.lines = editLines es raw.unifyBreaks.lines)
      (hbreaks : breaksOf raw' = breaksOf raw) :
      Edited es (.ok (p, raw)) (.ok (p, raw'))

theorem Edited.refl (r : Except DiskFault (Path × Text)) : Edited [] r r := by
  rcases r with f | ⟨p, raw⟩
  · exact .failed f
  · exact .read p rfl rfl

/-- Two names of documents that do not lead to one file, unless they are one name. -/
def Disk.Apart (d : Disk) (file file' : Text) : Prop :=
  ∀ p raw raw', d.readRaw file = .ok (p, raw) → d.readRaw file' = .ok (p, raw') → file = file'

theorem Disk.apart_of_ne {d : Disk} {file file' : Text} {p p' : Path} {raw raw' : Text}
    (h : d.readRaw file = .ok (p, raw)) (h' : d.readRaw file' = .ok (p', raw')) (hne : p ≠ p') :
    d.Apart file file' := by
  intro q t t' ht ht'
  have hq := congrArg Prod.fst (Except.ok.inj (h.symm.trans ht))
  have hq' := congrArg Prod.fst (Except.ok.inj (h'.symm.trans ht'))
  exact absurd (hq.trans hq'.symm) hne

/-- Two documents are apart if they are read from different files. -/
theorem Disk.apart_pair {d : Disk} {file file' : Text} {p p' : Path} {raw raw' : Text}
    (h : d.readRaw file = .ok (p, raw)) (h' : d.readRaw file' = .ok (p', raw')) (hne : p ≠ p') :
    ∀ k ∈ [file, file'], ∀ k' ∈ [file, file'], d.Apart k k' := by
  intro k hk k' hk'
  simp only [List.mem_cons, List.not_mem_nil, or_false] at hk hk'
  rcases hk with rfl | rfl <;> rcases hk' with rfl | rfl
  · exact fun _ _ _ _ _ => rfl
  · exact Disk.apart_of_ne h h' hne
  · exact Disk.apart_of_ne h' h hne.symm
  · exact fun _ _ _ _ _ => rfl

/-! ## What one edit leaves as it was -/

namespace Rewritten

variable {d d' : Disk} {p : Path} {raw raw' file x y : Text}

/-- The rewritten document itself. -/
theorem self (h : Rewritten d d' p raw') (hfile : d.readRaw file = .ok (p, raw)) :
    d'.readRaw file = .ok (p, raw') := by
  rw [h, hfile]
  show Except.ok (if p = p then (p, raw') else (p, raw)) = _
  rw [if_pos rfl]

/-- A document that is another file. -/
theorem other (h : Rewritten d d' p raw') (hfile : d.readRaw file = .ok (p, raw))
    (hx : d.Apart file x) (hne : x ≠ file) : d'.readRaw x = d.readRaw x := by
  rw [h]
  rcases hr : d.readRaw x with f | ⟨q, t⟩
  · rfl
  · have hq : q ≠ p := by
      rintro rfl
      exact hne (hx q raw t hfile hr).symm
    show Except.ok (if q = p then (p, raw') else (q, t)) = _
    rw [if_neg hq]

/-- Names lead where they led. -/
theorem exists_readRaw (h : Rewritten d d' p raw') {q : Path} {t : Text}
    (hx : d'.readRaw x = .ok (q, t)) : ∃ t', d.readRaw x = .ok (q, t') := by
  rw [h] at hx
  obtain ⟨⟨q', t'⟩, hx', heq⟩ := map_eq_ok.mp hx
  split at heq
  · next hq =>
    cases heq
    exact ⟨t', hq ▸ hx'⟩
  · cases heq
    exact ⟨_, hx'⟩

/-- What is apart stays apart. -/
theorem apart (h : Rewritten d d' p raw') (hxy : d.Apart x y) : d'.Apart x y := by
  intro q t t' hx hy
  obtain ⟨u, hu⟩ := h.exists_readRaw hx
  obtain ⟨u', hu'⟩ := h.exists_readRaw hy
  exact hxy q u u' hu hu'

end Rewritten

/-- After an edit, one for another line or another file is as applicable as before. -/
theorem Applicable.of_rewritten {d d' : Disk} {e u : Edit} {p q : Path} {raw raw' t : Text}
    (hu : Applicable d u q t) (hreads : d.readRaw e.file = .ok (p, raw)) (hlayout : SameLayout d d')
    (hset : raw'.unifyBreaks.lines = raw.unifyBreaks.lines.set e.line e.new)
    (hrewritten : Rewritten d d' p raw') (hline : e.file = u.file → e.line ≠ u.line)
    (hapart : d.Apart e.file u.file) : ∃ q' t', Applicable d' u q' t' := by
  have hwritable : d'.Writable u.file := hlayout.writable hu.writable
  by_cases hfile : e.file = u.file
  · have hsame : (p, raw) = (q, t) := Except.ok.inj (hreads.symm.trans (hfile ▸ hu.reads))
    obtain ⟨rfl, rfl⟩ := Prod.mk.inj hsame
    refine ⟨p, raw', hfile ▸ hrewritten.self hreads, ?_, hwritable, hu.plain, hu.nonempty⟩
    rw [hset, List.getElem?_set_ne (hline hfile)]
    exact hu.expected
  · refine ⟨q, t, ?_, hu.expected, hwritable, hu.plain, hu.nonempty⟩
    rw [hrewritten.other hreads hapart (Ne.symm hfile)]
    exact hu.reads

/-! ## All edits -/

/-- Whatever becomes of edits, the layout stays. -/
theorem sameLayout_applyEdits (d : Disk) (es : List Edit) : SameLayout d (applyEdits d es).1 := by
  induction es generalizing d with
  | nil => exact SameLayout.refl d
  | cons e es ih =>
    have hone := sameLayout_replaceLine d e.file e.line e.old e.new
    rw [applyEdits]
    split
    · next d₁ hreplace =>
      rw [hreplace] at hone
      exact hone.trans (ih d₁)
    · next d₁ f hreplace =>
      rw [hreplace] at hone
      exact hone.trans (ih d₁)
    · next d₁ f hreplace => rwa [hreplace] at hone
    · next d₁ hreplace => rwa [hreplace] at hone

/-- **Edits stay where they lead**: whatever becomes of edits, a real path to which no edited document
    leads holds what it held. -/
theorem get?_applyEdits {d : Disk} {es : List Edit} {p : Path}
    (h : ∀ e ∈ es, ¬d.LeadsTo e.file p) :
    (applyEdits d es).1.entries.get? p = d.entries.get? p := by
  induction es generalizing d with
  | nil => rfl
  | cons e es ih =>
    obtain ⟨hhead, hrest⟩ := List.forall_mem_cons.mp h
    have hlayout := sameLayout_replaceLine d e.file e.line e.old e.new
    have hone := get?_replaceLine (fun raw hreads => hhead (Disk.leadsTo_of_readRaw hreads)) e.line e.old e.new
    -- the other edits lead where they led
    have hothers : ∀ d₁, SameLayout d d₁ → d₁.entries.get? p = d.entries.get? p →
        (applyEdits d₁ es).1.entries.get? p = d.entries.get? p := by
      intro d₁ hlayout₁ hsame
      rw [ih fun u hu => ?_, hsame]
      rw [Disk.leadsTo_iff_of_sameLayout hlayout₁]
      exact hrest u hu
    rw [applyEdits]
    split
    · next d₁ hreplace =>
      rw [hreplace] at hlayout hone
      exact hothers d₁ hlayout hone
    · next d₁ f hreplace =>
      rw [hreplace] at hlayout hone
      exact hothers d₁ hlayout hone
    · next d₁ f hreplace => rwa [hreplace] at hone
    · next d₁ hreplace => rwa [hreplace] at hone

/-- **A list of edits.** Edits each of which is applicable, for different lines or different files, are
    all applied, and each document has exactly its own lines replaced. -/
theorem applyEdits_of_applicable {d : Disk} {es : List Edit}
    (happ : ∀ e ∈ es, ∃ p raw, Applicable d e p raw)
    (hlines : es.Pairwise fun a b => a.file = b.file → a.line ≠ b.line)
    (hapart : ∀ a ∈ es, ∀ b ∈ es, d.Apart a.file b.file) :
    ∃ d', applyEdits d es = (d', .ok (es, [])) ∧ SameLayout d d' ∧
      ∀ file, (∀ e ∈ es, d.Apart e.file file) →
        Edited (es.filter (·.file = file)) (d.readRaw file) (d'.readRaw file) := by
  induction es generalizing d with
  | nil => exact ⟨d, rfl, SameLayout.refl d, fun file _ => Edited.refl _⟩
  | cons e es ih =>
    obtain ⟨p, raw, hhead⟩ := happ e (by simp)
    obtain ⟨d₁, raw₁, hreplace, hlayout₁, hset, hbreaks₁, hrewritten⟩ := replaceLine_of_applicable hhead
    have hmem : ∀ u ∈ es, u ∈ e :: es := fun u hu => List.mem_cons_of_mem _ hu
    have happ₁ : ∀ u ∈ es, ∃ q t, Applicable d₁ u q t := by
      intro u hu
      obtain ⟨q, t, hu'⟩ := happ u (hmem u hu)
      exact hu'.of_rewritten hhead.reads hlayout₁ hset hrewritten
        ((List.pairwise_cons.mp hlines).1 u hu) (hapart e (by simp) u (hmem u hu))
    obtain ⟨d', happly, hlayout', hedited⟩ := ih happ₁ hlines.tail
      fun a ha b hb => hrewritten.apart (hapart a (hmem a ha) b (hmem b hb))
    refine ⟨d', ?_, hlayout₁.trans hlayout', fun file hfile => ?_⟩
    · rw [applyEdits, hreplace]
      simp only [happly]
      rfl
    · have hrest := hedited file fun u hu => hrewritten.apart (hfile u (hmem u hu))
      by_cases heq : e.file = file
      · subst heq
        rw [List.filter_cons_of_pos (by simp), hhead.reads]
        rw [hrewritten.self hhead.reads] at hrest
        generalize d'.readRaw e.file = r at hrest
        cases hrest with
        | read _ h hbreaks =>
          refine .read p ?_ (hbreaks.trans hbreaks₁)
          rw [h, hset]
          rfl
      · rw [List.filter_cons_of_neg (by simpa using heq)]
        rwa [hrewritten.other hhead.reads (hfile e (by simp)) (Ne.symm heq)] at hrest

end HashtagIndex
