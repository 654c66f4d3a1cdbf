import HashtagIndex.Proofs.BreakPieces
import HashtagIndex.Proofs.Editing
import HashtagIndex.Proofs.StalePlan

/-!
# `Proofs.LineReplacement` — replacing one line, or what is left instead

Replacing a line goes through checks in a fixed order: the document must be read, the line must be there,
it must hold the expected text, and the file must be opened for writing. The first check that fails gives
the fault. Then the file is emptied and written, and if writing breaks off, what was written by then is all
that is left of it. `LineOutcome` lists what can come of this as rules about the disk. Its rules exclude each
other, so it does not only bound what comes out but settles it (`replaceLine_eq_iff`).

If every check passes and there is room, one file is overwritten. Its text is cut into pieces (`breakPieces`),
the piece of the line is replaced, and the pieces are joined; all others, the breaks among them, are written
as they were read. A reader counts the same lines afterwards, unless the new text brings breaks of its own or
leaves nothing between a carriage return and a line feed.

Not every failure is reported as one of the document with the disk as it was (`replaceLine_not_contained`). A
name with a null character comes before all checks: no file can have it, and the fault is about the path. The
number of a line that is not as expected is part of the report, and may have too many digits for it. And
writing that breaks off is reported, but the file is cut.

## Contents
- `Disk.Holds`, `Disk.Reading`: reading a document.
- `Reportable`, `LineOutcome`, `replaceLine_eq_iff`: what comes of replacing a line.
- `LineReplaced`, `LineCut`, `replaceLine_exact`: a line that was replaced, and what a failure leaves.
- `LineContained`, `replaceLine_not_contained`: failures that are more than a report.
-/

namespace HashtagIndex

variable {d d' : Disk} {file expected new raw : Text} {line : Int} {p : Path}

/-! ## Reading a document -/

/-- A name can be used and leads to a file that may be read and holds a text in strict UTF-8. -/
structure Disk.Holds (d : Disk) (file : Text) (p : Path) (raw : Text) : Prop where
  usable : '\x00' ∉ file
  opens : d.openFile (.ofText file) = .ok (p, encodeUtf8 raw)

/-- What comes of reading a document: a name that cannot be used, a file that is not opened, octets that
    are not text, or a text. -/
inductive Disk.Reading (d : Disk) (file : Text) : Except DiskFault (Path × Text) → Prop
  | unusable (hnul : '\x00' ∈ file) : Reading d file (.error (.path .nulByte))
  | unopened {e : OpenError} (husable : '\x00' ∉ file)
      (hopen : d.openFile (.ofText file) = .error e) :
      Reading d file (.error (.document (.unreadable (PathName.ofText file).toText (.system e))))
  | notText {p : Path} {bytes : List UInt8} {f : Utf8Fault} (husable : '\x00' ∉ file)
      (hopen : d.openFile (.ofText file) = .ok (p, bytes)) (hdecode : decodeUtf8 bytes = .error f) :
      Reading d file (.error (.document (.unreadable (PathName.ofText file).toText (.notText f))))
  | held {p : Path} {raw : Text} (h : d.Holds file p raw) : Reading d file (.ok (p, raw))

theorem Disk.reading_readRaw (d : Disk) (file : Text) : d.Reading file (d.readRaw file) := by
  unfold readRaw
  simp only
  split
  · next hnul => exact .unusable hnul
  next husable =>
  split
  · next e hopen => exact .unopened husable hopen
  next p bytes hopen =>
  split
  · next f hdecode => exact .notText husable hopen hdecode
  · next raw hdecode =>
    rw [← encodeUtf8_of_decodeUtf8 hdecode] at hopen
    exact .held ⟨husable, hopen⟩

/-- **Reading is settled by what stands on the disk.** -/
theorem Disk.readRaw_eq_iff {r : Except DiskFault (Path × Text)} :
    d.readRaw file = r ↔ d.Reading file r := by
  constructor
  · rintro rfl
    exact d.reading_readRaw file
  · intro h
    unfold readRaw
    cases h with
    | unusable hnul => exact if_pos hnul
    | unopened husable hopen => simp only [if_neg husable, hopen]
    | notText husable hopen hdecode => simp only [if_neg husable, hopen, hdecode]
    | held h => simp only [if_neg h.usable, h.opens, decodeUtf8_encodeUtf8]

theorem Disk.readRaw_eq_ok_iff : d.readRaw file = .ok (p, raw) ↔ d.Holds file p raw := by
  rw [readRaw_eq_iff]
  constructor
  · intro h
    cases h with
    | held h => exact h
  · exact .held

/-- A name leads to one file with one text. -/
theorem Disk.Holds.unique {p' : Path} {raw' : Text} (h : d.Holds file p raw)
    (h' : d.Holds file p' raw') : p = p' ∧ raw = raw' := by
  have hreads := readRaw_eq_ok_iff.mpr h
  rw [readRaw_eq_ok_iff.mpr h'] at hreads
  obtain ⟨rfl, rfl⟩ := Prod.mk.inj (Except.ok.inj hreads)
  exact ⟨rfl, rfl⟩

/-! ## The line that is looked up -/

/-- A line is there if its number is not negative and readers count further than it. -/
theorem lineAt?_eq_none_iff :
    Disk.lineAt? (rawLines raw) line = none ↔ line < 0 ∨ (raw.unifyBreaks.lines.length : Int) ≤ line := by
  unfold Disk.lineAt?
  rw [lines_unifyBreaks, List.length_map]
  split
  · next hneg => simp [hneg]
  · next hneg =>
    rw [List.getElem?_eq_none_iff]
    omega

theorem lineAt?_eq_some_iff {actual : Text} :
    (∃ l, Disk.lineAt? (rawLines raw) line = some l ∧ l.text = actual) ↔
      ∃ n : Nat, line = n ∧ raw.unifyBreaks.lines[n]? = some actual := by
  rw [← Option.map_eq_some_iff]
  constructor
  · intro h
    have hpos : ¬line < 0 := by
      intro hneg
      rw [lineAt?_eq_none_iff.mpr (.inl hneg)] at h
      cases h
    obtain ⟨n, rfl⟩ := Int.eq_ofNat_of_zero_le (not_lt.mp hpos)
    exact ⟨n, rfl, (lineAt?_rawLines raw n).symm.trans h⟩
  · rintro ⟨n, rfl, h⟩
    exact (lineAt?_rawLines raw n).trans h

/-! ## What comes of replacing a line -/

/-- A text with one line replaced: its pieces joined again, with the piece of that line replaced. -/
def replacedText (raw : Text) (n : Nat) (new : Text) : Text := ((breakPieces raw).set (2 * n) new).flatten

/-- The octets of a text with one line replaced. -/
def replacedOctets (raw : Text) (n : Nat) (new : Text) : List UInt8 := encodeUtf8 (replacedText raw n new)

/-- A number of a line that has not too many digits for a report. -/
def Reportable (line : Int) : Prop := (Nat.toDigits 10 line.natAbs).length ≤ mostDigits

instance (line : Int) : Decidable (Reportable line) := inferInstanceAs (Decidable (_ ≤ _))

theorem reportable_iff : Reportable line ↔ line.natAbs < 10 ^ mostDigits :=
  Nat.length_toDigits_le_iff (by decide) (by decide)

theorem conflict_of_reportable (h : Reportable line) (fault : DocumentFault) :
    Disk.conflict line fault = .disk (.document fault) :=
  if_neg (Nat.not_lt.mpr h)

theorem conflict_of_not_reportable (h : ¬Reportable line) (fault : DocumentFault) :
    Disk.conflict line fault = .longNumber :=
  if_pos (Nat.not_le.mp h)

/-- What comes of replacing a line, in the order in which things are checked and done. -/
inductive LineOutcome (d : Disk) (file : Text) (line : Int) (expected new : Text) :
    Disk × Except LineFault Unit → Prop
  | unread {f : DiskFault} (hreads : d.Reading file (.error f)) :
      LineOutcome d file line expected new (d, .error (.disk f))
  | gone {p : Path} {raw : Text} (hholds : d.Holds file p raw)
      (hline : line < 0 ∨ (raw.unifyBreaks.lines.length : Int) ≤ line) (hreport : Reportable line) :
      LineOutcome d file line expected new
        (d, .error (.disk (.document (.lineGone (PathName.ofText file).toText line))))
  | changed {p : Path} {raw actual : Text} {n : Nat} (hholds : d.Holds file p raw) (hline : line = n)
      (hactual : raw.unifyBreaks.lines[n]? = some actual) (hne : actual ≠ expected)
      (hreport : Reportable line) :
      LineOutcome d file line expected new
        (d, .error (.disk (.document (.lineChanged (PathName.ofText file).toText line expected actual))))
  | unreportable {p : Path} {raw : Text} (hholds : d.Holds file p raw)
      (hline : ∀ n : Nat, line = n → raw.unifyBreaks.lines[n]? ≠ some expected) (hlong : ¬Reportable line) :
      LineOutcome d file line expected new (d, .error .longNumber)
  | unwritable {p : Path} {raw : Text} {n : Nat} (hholds : d.Holds file p raw) (hline : line = n)
      (hexpected : raw.unifyBreaks.lines[n]? = some expected)
      (hrefused : d.refuses (.ofText file) (·.writing) = true) :
      LineOutcome d file line expected new
        (d, .error (.disk (.document (.unwritable (PathName.ofText file).toText (.system .permissionDenied)))))
  | cut {p : Path} {raw : Text} {n room : Nat} (hholds : d.Holds file p raw) (hline : line = n)
      (hexpected : raw.unifyBreaks.lines[n]? = some expected)
      (hwritable : d.refuses (.ofText file) (·.writing) = false)
      (hroom : d.room? (.ofText file) = some room) (hfull : room < (replacedOctets raw n new).length) :
      LineOutcome d file line expected new
        (d.put p (.file ((replacedOctets raw n new).take room)),
          .error (.disk (.document (.unwritable (PathName.ofText file).toText .noRoom))))
  | replaced {p : Path} {raw : Text} {n : Nat} (hholds : d.Holds file p raw) (hline : line = n)
      (hexpected : raw.unifyBreaks.lines[n]? = some expected)
      (hwritable : d.refuses (.ofText file) (·.writing) = false)
      (hfits : d.fits (.ofText file) (replacedOctets raw n new) = true) :
      LineOutcome d file line expected new (d.put p (.file (replacedOctets raw n new)), .ok ())

/-- Writing breaks off exactly if there is less room than there are octets. -/
theorem fits_eq_false_iff {bytes : List UInt8} : d.fits (.ofText file) bytes = false ↔
    ∃ room, d.room? (.ofText file) = some room ∧ room < bytes.length := by
  unfold Disk.fits
  cases d.room? (.ofText file) <;> simp

/-- An editor writes the text with the line replaced. -/
theorem encodeUtf8_renderLines (raw : Text) (n : Nat) (new : Text) :
    encodeUtf8 (renderLines (Disk.setLine (rawLines raw) n new)) = replacedOctets raw n new := by
  rw [renderLines_setLine, Int.toNat_natCast]
  rfl

theorem lineOutcome_replaceLine (d : Disk) (file : Text) (line : Int) (expected new : Text) :
    LineOutcome d file line expected new (d.replaceLine file line expected new) := by
  unfold Disk.replaceLine
  simp only
  split
  · next f hreads => exact .unread (Disk.readRaw_eq_iff.mp hreads)
  next p raw hreads =>
  have hholds : d.Holds file p raw := Disk.readRaw_eq_ok_iff.mp hreads
  split
  · next hnone =>
    have hgone := lineAt?_eq_none_iff.mp hnone
    by_cases hreport : Reportable line
    · rw [conflict_of_reportable hreport]
      exact .gone hholds hgone hreport
    · rw [conflict_of_not_reportable hreport]
      refine .unreportable hholds (fun n hn hexpected => ?_) hreport
      obtain ⟨hin, -⟩ := List.getElem?_eq_some_iff.mp hexpected
      omega
  next l hl =>
  obtain ⟨n, rfl, hactual⟩ := lineAt?_eq_some_iff.mp ⟨l, hl, rfl⟩
  split
  · next hne =>
    by_cases hreport : Reportable n
    · rw [conflict_of_reportable hreport]
      exact .changed hholds rfl hactual hne hreport
    · rw [conflict_of_not_reportable hreport]
      refine .unreportable hholds (fun m hm hexpected => ?_) hreport
      obtain rfl := Int.natCast_inj.mp hm
      exact hne (Option.some.inj (hactual.symm.trans hexpected))
  next hsame =>
  rw [not_not.mp hsame] at hactual
  rw [encodeUtf8_renderLines]
  unfold Disk.overwrite
  split
  · next hrefused => exact .unwritable hholds rfl hactual hrefused
  next hwritable =>
  rw [Bool.not_eq_true] at hwritable
  split
  · next hfits => exact .replaced hholds rfl hactual hwritable hfits
  · next hfull =>
    obtain ⟨room, hroom, hless⟩ := fits_eq_false_iff.mp (Bool.not_eq_true _ ▸ hfull)
    rw [hroom]
    exact .cut hholds rfl hactual hwritable hroom hless

/-- What is written if the line is as expected. -/
theorem replaceLine_of_expected {n : Nat} (hholds : d.Holds file p raw)
    (hexpected : raw.unifyBreaks.lines[n]? = some expected) : d.replaceLine file n expected new =
      ((d.overwrite (.ofText file) p (replacedOctets raw n new)).1,
        (d.overwrite (.ofText file) p (replacedOctets raw n new)).2.mapError fun c =>
          .disk (.document (.unwritable (PathName.ofText file).toText c))) := by
  obtain ⟨l, hl, hsame⟩ := lineAt?_eq_some_iff.mpr ⟨n, rfl, hexpected⟩
  unfold Disk.replaceLine
  simp only [Disk.readRaw_eq_ok_iff.mpr hholds, hl, hsame, ne_eq, not_true, if_false, encodeUtf8_renderLines]

/-- What is reported if it is not. -/
theorem replaceLine_of_unexpected (hholds : d.Holds file p raw)
    (hline : ∀ n : Nat, line = n → raw.unifyBreaks.lines[n]? ≠ some expected) :
    ∃ f, d.replaceLine file line expected new = (d, .error (Disk.conflict line f)) := by
  unfold Disk.replaceLine
  simp only [Disk.readRaw_eq_ok_iff.mpr hholds]
  split
  · exact ⟨_, rfl⟩
  · next l hl =>
    obtain ⟨n, hn, hactual⟩ := lineAt?_eq_some_iff.mp ⟨l, hl, rfl⟩
    have hne : l.text ≠ expected := fun h => hline n hn (h ▸ hactual)
    exact ⟨_, if_pos hne⟩

/-- **Replacing a line is settled by the checks**: what comes of it is the outcome for which the disk
    meets the conditions, and no other. -/
theorem replaceLine_eq_iff {r : Disk × Except LineFault Unit} :
    d.replaceLine file line expected new = r ↔ LineOutcome d file line expected new r := by
  constructor
  · rintro rfl
    exact lineOutcome_replaceLine d file line expected new
  · intro h
    cases h with
    | unread hreads =>
      unfold Disk.replaceLine
      simp only [Disk.readRaw_eq_iff.mpr hreads]
    | gone hholds hline hreport =>
      unfold Disk.replaceLine
      simp only [Disk.readRaw_eq_ok_iff.mpr hholds, lineAt?_eq_none_iff.mpr hline,
        conflict_of_reportable hreport]
    | changed hholds hline hactual hne hreport =>
      obtain ⟨l, hl, rfl⟩ := lineAt?_eq_some_iff.mpr ⟨_, hline, hactual⟩
      unfold Disk.replaceLine
      simp only [Disk.readRaw_eq_ok_iff.mpr hholds, hl, if_pos hne, conflict_of_reportable hreport]
    | unreportable hholds hline hlong =>
      obtain ⟨f, h⟩ := replaceLine_of_unexpected hholds hline
      rw [h, conflict_of_not_reportable hlong]
    | unwritable hholds hline hexpected hrefused =>
      rw [hline, replaceLine_of_expected hholds hexpected, Disk.overwrite, if_pos hrefused]
      rfl
    | cut hholds hline hexpected hwritable hroom hfull =>
      have hcut := fits_eq_false_iff.mpr ⟨_, hroom, hfull⟩
      rw [hline, replaceLine_of_expected hholds hexpected, Disk.overwrite, if_neg (by simp [hwritable]),
        if_neg (by simp [hcut]), hroom]
      rfl
    | replaced hholds hline hexpected hwritable hfits =>
      rw [hline, replaceLine_of_expected hholds hexpected, Disk.overwrite, if_neg (by simp [hwritable]),
        if_pos hfits]
      rfl

/-! ## A line that was replaced -/

/-- A line of a file was replaced, and nothing else on the disk. The name leads to the same file, whose
    pieces are joined with that one replaced; a reader who cuts it again finds these pieces, if the new
    text holds no break and does not join two. -/
structure LineReplaced (d d' : Disk) (file : Text) (n : Nat) (new : Text) (p : Path) (raw : Text) :
    Prop where
  before : d.Holds file p raw
  after : d'.Holds file p (replacedText raw n new)
  pieces : Plain new → (new = [] → ¬JoinsBreaks (breaksOf raw) n) →
    breakPieces (replacedText raw n new) = (breakPieces raw).set (2 * n) new
  elsewhere : ∀ q, q ≠ p → d'.entries.get? q = d.entries.get? q
  layout : SameLayout d d'

/-- Cutting the pieces of an edited document again. -/
theorem breakPieces_replacedText (raw : Text) {n : Nat} (hplain : Plain new)
    (hkeeps : new = [] → ¬JoinsBreaks (breaksOf raw) n) :
    breakPieces (replacedText raw n new) = (breakPieces raw).set (2 * n) new := by
  have hbroken := (wellBroken_rawLines raw).setLine hplain n hkeeps
  have hrender := renderLines_setLine raw n new
  rw [Int.toNat_natCast] at hrender
  rw [replacedText, ← hrender, breakPieces_eq_piecesOf, hbroken.rawLines_renderLines, piecesOf_setLine,
    breakPieces_eq_piecesOf]

/-- Overwriting the file of a document leaves the layout. -/
theorem Disk.Holds.sameLayout_put (h : d.Holds file p raw) (bytes : List UInt8) : SameLayout d (d.put p (.file bytes)) := by
  obtain ⟨old, hfile, -⟩ := file_of_readRaw (readRaw_eq_ok_iff.mpr h)
  exact layout_put hfile bytes

/-- Overwriting it with a line replaced. -/
theorem lineReplaced_put (hholds : d.Holds file p raw) (n : Nat) (new : Text) :
    LineReplaced d (d.put p (.file (replacedOctets raw n new))) file n new p raw where
  before := hholds
  after := by
    have hreads := Disk.readRaw_eq_ok_iff.mpr hholds
    exact Disk.readRaw_eq_ok_iff.mp (Rewritten.self (Disk.readRaw_put hreads _) hreads)
  pieces := breakPieces_replacedText raw
  elsewhere q hq := by rw [Disk.get?_put, if_neg hq]
  layout := hholds.sameLayout_put _

/-- Writing a file with a line replaced broke off. All that is left of the file is what there was room for, and
    nothing else on the disk is different. -/
structure LineCut (d d' : Disk) (file : Text) (n : Nat) (new : Text) (p : Path) (raw : Text) : Prop where
  before : d.Holds file p raw
  left : ∃ room, d.room? (.ofText file) = some room ∧ room < (replacedOctets raw n new).length ∧
    d'.entries.get? p = some (.file ((replacedOctets raw n new).take room))
  elsewhere : ∀ q, q ≠ p → d'.entries.get? q = d.entries.get? q
  layout : SameLayout d d'

/-- Writing a file in part. -/
theorem lineCut_put (hholds : d.Holds file p raw) {n room : Nat} (hroom : d.room? (.ofText file) = some room)
    (hfull : room < (replacedOctets raw n new).length) :
    LineCut d (d.put p (.file ((replacedOctets raw n new).take room))) file n new p raw where
  before := hholds
  left := ⟨room, hroom, hfull, by rw [Disk.get?_put, if_pos rfl]⟩
  elsewhere q hq := by rw [Disk.get?_put, if_neg hq]
  layout := hholds.sameLayout_put _

/-- **Replacing a line is exact**, for every disk, name, number and text. What comes of it is settled by the
    checks in their order. It succeeds exactly if the document is read, the line is there and as expected, and
    the file can be written in full; then that line is replaced, and nothing else. If it fails, the fault is
    about the document, unless its name holds a null character, or a line is not as expected whose number
    cannot be reported; and the disk is as it was, unless writing broke off, and then the file is cut. -/
theorem replaceLine_exact (d : Disk) (file : Text) (line : Int) (expected new : Text) :
    (∀ r, d.replaceLine file line expected new = r ↔ LineOutcome d file line expected new r) ∧
    ((∃ d', d.replaceLine file line expected new = (d', .ok ())) ↔
      ∃ p raw, d.Holds file p raw ∧ 0 ≤ line ∧ line < raw.unifyBreaks.lines.length ∧
        raw.unifyBreaks.lines[line.toNat]? = some expected ∧
        d.refuses (.ofText file) (·.writing) = false ∧
        d.fits (.ofText file) (replacedOctets raw line.toNat new) = true) ∧
    (∀ d', d.replaceLine file line expected new = (d', .ok ()) →
      ∃ p raw, LineReplaced d d' file line.toNat new p raw) ∧
    ∀ d' f, d.replaceLine file line expected new = (d', .error f) →
      (('\x00' ∈ file ∧ f = .disk (.path .nulByte)) ∨
        '\x00' ∉ file ∧ ((∃ g, f = .disk (.document g)) ∨ f = .longNumber ∧ ¬Reportable line)) ∧
      (d' = d ∨ f = .disk (.document (.unwritable (PathName.ofText file).toText .noRoom)) ∧
        ∃ p raw, LineCut d d' file line.toNat new p raw) := by
  refine ⟨fun r => replaceLine_eq_iff, ?_, ?_, ?_⟩
  · constructor
    · rintro ⟨d', h⟩
      cases replaceLine_eq_iff.mp h with
      | @replaced p raw n hholds hline hexpected hwritable hfits =>
        obtain ⟨hin, -⟩ := List.getElem?_eq_some_iff.mp hexpected
        obtain rfl : line.toNat = n := by omega
        exact ⟨p, raw, hholds, by omega, by omega, hexpected, hwritable, hfits⟩
    · rintro ⟨p, raw, hholds, hpos, -, hexpected, hwritable, hfits⟩
      have hline : line = line.toNat := (Int.toNat_of_nonneg hpos).symm
      exact ⟨_, replaceLine_eq_iff.mpr (.replaced hholds hline hexpected hwritable hfits)⟩
  · intro d' h
    cases replaceLine_eq_iff.mp h with
    | @replaced p raw n hholds hline _ _ _ =>
      rw [hline, Int.toNat_natCast]
      exact ⟨p, raw, lineReplaced_put hholds n new⟩
  · intro d' f h
    cases replaceLine_eq_iff.mp h with
    | unread hreads =>
      refine ⟨?_, .inl rfl⟩
      cases hreads with
      | unusable hnul => exact .inl ⟨hnul, rfl⟩
      | unopened husable _ => exact .inr ⟨husable, .inl ⟨_, rfl⟩⟩
      | notText husable _ _ => exact .inr ⟨husable, .inl ⟨_, rfl⟩⟩
    | gone hholds _ _ => exact ⟨.inr ⟨hholds.usable, .inl ⟨_, rfl⟩⟩, .inl rfl⟩
    | changed hholds _ _ _ _ => exact ⟨.inr ⟨hholds.usable, .inl ⟨_, rfl⟩⟩, .inl rfl⟩
    | unreportable hholds _ hlong => exact ⟨.inr ⟨hholds.usable, .inr ⟨rfl, hlong⟩⟩, .inl rfl⟩
    | unwritable hholds _ _ _ => exact ⟨.inr ⟨hholds.usable, .inl ⟨_, rfl⟩⟩, .inl rfl⟩
    | cut hholds hline _ _ hroom hfull =>
      refine ⟨.inr ⟨hholds.usable, .inl ⟨_, rfl⟩⟩, .inr ⟨rfl, ?_⟩⟩
      rw [hline, Int.toNat_natCast]
      exact ⟨_, _, lineCut_put hholds hroom hfull⟩

/-! ## A note with three kinds of breaks -/

/-- A note with three kinds of breaks, for which something may be refused. -/
def mixedDisk (refused : Refusal) : Disk :=
  { noteDisk "a\r\nb\rc\n".toList with refusals := .ofList [(notePath, refused)] }

theorem holds_mixedDisk {refused : Refusal} (h : refused.reading = false) (hsearching : refused.searching = false) :
    (mixedDisk refused).Holds notePath [['w'], ['n']] "a\r\nb\rc\n".toList := by
  obtain ⟨reading, writing, searching, room⟩ := refused
  cases h
  cases hsearching
  exact ⟨by decide, by cbv⟩

/-- The second line of the note gets longer and the breaks stay. There is no line with the number -1,
    nor one behind the empty last line; a line that reads as something else is not replaced; and none is
    if the note must not be written. -/
theorem mixed_line_replaced :
    (∃ d', (mixedDisk {}).replaceLine notePath 1 "b".toList "B!".toList = (d', .ok ()) ∧
      d'.Holds notePath [['w'], ['n']] "a\r\nB!\rc\n".toList) ∧
    (mixedDisk {}).replaceLine notePath (-1) "b".toList "B!".toList =
      (mixedDisk {}, .error (.disk (.document (.lineGone notePath (-1))))) ∧
    (mixedDisk {}).replaceLine notePath 4 [] "B!".toList =
      (mixedDisk {}, .error (.disk (.document (.lineGone notePath 4)))) ∧
    (mixedDisk { writing := true }).replaceLine notePath 1 "c".toList "B!".toList =
      (mixedDisk { writing := true },
        .error (.disk (.document (.lineChanged notePath 1 "c".toList "b".toList)))) ∧
    (mixedDisk { writing := true }).replaceLine notePath 1 "b".toList "B!".toList =
      (mixedDisk { writing := true },
        .error (.disk (.document (.unwritable notePath (.system .permissionDenied))))) := by
  have hfree : (mixedDisk {}).Holds notePath [['w'], ['n']] "a\r\nb\rc\n".toList := holds_mixedDisk rfl rfl
  have hkept : (mixedDisk { writing := true }).Holds notePath [['w'], ['n']] "a\r\nb\rc\n".toList :=
    holds_mixedDisk rfl rfl
  refine ⟨?_, ?_, ?_, ?_, ?_⟩
  · obtain ⟨-, hsucceeds, hreplaces, -⟩ :=
      replaceLine_exact (mixedDisk {}) notePath 1 "b".toList "B!".toList
    obtain ⟨d', hd'⟩ := hsucceeds.mpr ⟨_, _, hfree, by decide, by decide, by decide, by decide, by decide⟩
    obtain ⟨p, raw, hreplaced⟩ := hreplaces d' hd'
    obtain ⟨rfl, rfl⟩ := hreplaced.before.unique hfree
    exact ⟨d', hd', hreplaced.after⟩
  · exact ((replaceLine_exact _ _ _ _ _).1 _).mpr
      (.gone hfree (.inl (by decide)) (by decide))
  · exact ((replaceLine_exact _ _ _ _ _).1 _).mpr
      (.gone hfree (.inr (by decide)) (by decide))
  · exact ((replaceLine_exact _ _ _ _ _).1 _).mpr
      (.changed (n := 1) hkept rfl (by decide) (by decide) (by decide))
  · exact ((replaceLine_exact _ _ _ _ _).1 _).mpr
      (.unwritable (n := 1) hkept rfl (by decide) (by decide))

/-! ## Failures that are more than a report -/

/-- A line is replaced, or the document is reported and the disk is as it was. -/
def LineContained (d : Disk) (file : Text) (line : Int) (expected new : Text) : Prop :=
  ∀ d' r, d.replaceLine file line expected new = (d', r) →
    r = .ok () ∨ d' = d ∧ ∃ f, r = .error (.disk (.document f))

/-- A line behind the end of a note, whose number is too long to be reported. -/
theorem replaceLine_of_longNumber : (noteDisk "x".toList).replaceLine notePath (10 ^ mostDigits : Nat)
    "x".toList "y".toList = (noteDisk "x".toList, .error .longNumber) := by
  have hnote : (noteDisk "x".toList).Holds notePath [['w'], ['n']] "x".toList := ⟨by decide, by cbv⟩
  have hpos : 0 < 10 ^ mostDigits := Nat.pow_pos (by decide)
  have hlong : ¬Reportable (10 ^ mostDigits : Nat) := by
    rw [reportable_iff, Int.natAbs_natCast]
    exact Nat.lt_irrefl _
  refine replaceLine_eq_iff.mpr (.unreportable hnote (fun n hn hexpected => ?_) hlong)
  obtain rfl := Int.natCast_inj.mp hn
  obtain ⟨hin, -⟩ := List.getElem?_eq_some_iff.mp hexpected
  have hlength : (Text.unifyBreaks "x".toList).lines.length = 1 := by decide
  omega

/-- A note that finds no room for its last breaks. -/
theorem replaceLine_of_room : (mixedDisk { room := some 4 }).replaceLine notePath 1 "b".toList "B!".toList =
    ((mixedDisk { room := some 4 }).put [['w'], ['n']] (.file (encodeUtf8 "a\r\nB".toList)),
      .error (.disk (.document (.unwritable notePath .noRoom)))) := by
  have hleft : (replacedOctets "a\r\nb\rc\n".toList 1 "B!".toList).take 4 = encodeUtf8 "a\r\nB".toList := by decide
  rw [← hleft]
  exact replaceLine_eq_iff.mpr
    (.cut (n := 1) (holds_mixedDisk rfl rfl) rfl (by decide) (by decide) (by decide) (by decide))

/-- **Failures that are more than a report.** A name with a null character is refused for the path and not for
    a document. A line behind the end of a note is not reported if its number is too long. And where writing
    breaks off, the document is reported, but the end of the note is gone. -/
theorem replaceLine_not_contained :
    ((noteDisk "x".toList).replaceLine ['/', 'w', '/', '\x00'] 0 "x".toList "y".toList =
        (noteDisk "x".toList, .error (.disk (.path .nulByte))) ∧
      ¬LineContained (noteDisk "x".toList) ['/', 'w', '/', '\x00'] 0 "x".toList "y".toList) ∧
    ((noteDisk "x".toList).replaceLine notePath (10 ^ mostDigits : Nat) "x".toList "y".toList =
        (noteDisk "x".toList, .error .longNumber) ∧
      ¬LineContained (noteDisk "x".toList) notePath (10 ^ mostDigits : Nat) "x".toList "y".toList) ∧
    (mixedDisk { room := some 4 }).replaceLine notePath 1 "b".toList "B!".toList =
        ((mixedDisk { room := some 4 }).put [['w'], ['n']] (.file (encodeUtf8 "a\r\nB".toList)),
          .error (.disk (.document (.unwritable notePath .noRoom)))) ∧
      ¬LineContained (mixedDisk { room := some 4 }) notePath 1 "b".toList "B!".toList := by
  have hunusable : (noteDisk "x".toList).replaceLine ['/', 'w', '/', '\x00'] 0 "x".toList "y".toList =
      (noteDisk "x".toList, .error (.disk (.path .nulByte))) :=
    replaceLine_eq_iff.mpr (.unread (.unusable (by decide)))
  refine ⟨⟨hunusable, fun h => ?_⟩, ⟨replaceLine_of_longNumber, fun h => ?_⟩, replaceLine_of_room, fun h => ?_⟩
  · rcases h _ _ hunusable with hok | ⟨-, f, hf⟩
    · cases hok
    · cases hf
  · rcases h _ _ replaceLine_of_longNumber with hok | ⟨-, f, hf⟩
    · cases hok
    · cases hf
  · rcases h _ _ replaceLine_of_room with hok | ⟨hsame, -⟩
    · cases hok
    · exact absurd hsame (by decide)

end HashtagIndex
