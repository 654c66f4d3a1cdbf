import HashtagIndex.Disk.Document

/-!
# `Proofs.LineViews` — readers and editors count lines alike

A reader turns every break into a line feed and cuts at line feeds; an editor cuts the raw text and
keeps each break. They see the same lines, in number and in text (`lines_unifyBreaks`), so a line
number planned by a reader means the same line to an editor.

An editor's cut has a shape of its own, `WellBroken`: no line holds a break character, the last line
and no other has no break, and no carriage return is followed by an empty line with a line feed, for
these two would have been read as one break. On lines of this shape cutting and rendering are
inverse, and putting a text without breaks in the place of another one keeps the shape. Only an empty
text may not: between a carriage return and a line feed it makes one break of the two (`JoinsBreaks`).
Apart from that an edit neither renumbers nor changes any other line.

An edit does not touch the breaks either (`map_ending_setLine`), and lines and breaks together are the
whole document (`eq_of_lines_of_breaksOf`).
-/

namespace HashtagIndex

/-! ## The reader's lines -/

theorem lines_cons_lf (t : Text) : Text.lines ('\n' :: t) = [] :: Text.lines t := by
  simp [Text.lines, List.splitOn_cons_eq_if_modifyHead]

theorem lines_cons {c : Char} (hc : c ≠ '\n') (t : Text) :
    Text.lines (c :: t) = (Text.lines t).modifyHead (c :: ·) := by
  have : (c == '\n') = false := by simpa using hc
  rw [Text.lines, List.splitOn_cons_eq_if_modifyHead, this]
  rfl

theorem map_text_prependChar (c : Char) {ls : List RawLine} (h : ls ≠ []) :
    (prependChar c ls).map (·.text) = (ls.map (·.text)).modifyHead (c :: ·) := by
  cases ls with
  | nil => exact absurd rfl h
  | cons l ls => rfl

theorem rawLines_ne_nil (t : Text) : rawLines t ≠ [] := by
  fun_cases rawLines t with
  | case1 => simp
  | case2 r => simp
  | case3 r _ => simp
  | case4 r _ _ => simp
  | case5 c r _ _ _ =>
    cases h : rawLines r <;> simp [prependChar]

/-- **Readers and editors see the same lines.** -/
theorem lines_unifyBreaks (t : Text) : t.unifyBreaks.lines = (rawLines t).map (·.text) := by
  fun_induction rawLines t with
  | case1 => rfl
  | case2 r ih => rw [Text.unifyBreaks, lines_cons_lf, ih]; rfl
  | case3 r h ih =>
    rw [Text.unifyBreaks.eq_3 _ _ h, if_pos rfl, lines_cons_lf, ih]
    rfl
  | case4 r h _ ih =>
    rw [Text.unifyBreaks.eq_3 _ _ h, if_neg (by decide), lines_cons_lf, ih]
    rfl
  | case5 c r h hcr hlf ih =>
    rw [Text.unifyBreaks.eq_3 _ _ h, if_neg hcr, lines_cons hlf, ih,
      map_text_prependChar c (rawLines_ne_nil r)]

/-! ## The shape of an editor's lines -/

/-- A text without break characters. -/
def Plain (t : Text) : Prop := '\r' ∉ t ∧ '\n' ∉ t

instance (t : Text) : Decidable (Plain t) := inferInstanceAs (Decidable (_ ∧ _))

/-- Lines as cutting a document yields them. -/
inductive WellBroken : List RawLine → Prop
  | last {t : Text} (ht : Plain t) : WellBroken [⟨t, .none⟩]
  | lf {t : Text} {ls : List RawLine} (ht : Plain t) (hls : WellBroken ls) :
      WellBroken (⟨t, .lf⟩ :: ls)
  | crlf {t : Text} {ls : List RawLine} (ht : Plain t) (hls : WellBroken ls) :
      WellBroken (⟨t, .crlf⟩ :: ls)
  | cr {t : Text} {ls : List RawLine} (ht : Plain t) (hls : WellBroken ls)
      (hnext : ls.head? ≠ some ⟨[], .lf⟩) : WellBroken (⟨t, .cr⟩ :: ls)

theorem plain_nil : Plain [] := ⟨by simp, by simp⟩

theorem Plain.cons {c : Char} {t : Text} (hcr : c ≠ '\r') (hlf : c ≠ '\n') (ht : Plain t) :
    Plain (c :: t) :=
  ⟨by simp [ht.1, hcr.symm], by simp [ht.2, hlf.symm]⟩

theorem WellBroken.ne_nil {ls : List RawLine} (h : WellBroken ls) : ls ≠ [] := by
  cases h <;> simp

theorem WellBroken.plain {ls : List RawLine} (h : WellBroken ls) : ∀ l ∈ ls, Plain l.text := by
  induction h with
  | last ht => simpa using ht
  | lf ht _ ih => simpa using ⟨ht, ih⟩
  | crlf ht _ ih => simpa using ⟨ht, ih⟩
  | cr ht _ _ ih => simpa using ⟨ht, ih⟩

/-- A document that is cut into an empty line with a line feed and other lines begins with it. -/
theorem head?_of_rawLines {t : Text} (h : (rawLines t).head? = some ⟨[], .lf⟩) :
    t.head? = some '\n' := by
  obtain ⟨ls, hls⟩ := List.head?_eq_some_iff.mp h
  rw [← renderLines_rawLines t, hls]
  rfl

theorem WellBroken.prependChar {c : Char} {ls : List RawLine} (hcr : c ≠ '\r') (hlf : c ≠ '\n')
    (h : WellBroken ls) : WellBroken (prependChar c ls) := by
  cases h with
  | last ht => exact .last (ht.cons hcr hlf)
  | lf ht hls => exact .lf (ht.cons hcr hlf) hls
  | crlf ht hls => exact .crlf (ht.cons hcr hlf) hls
  | cr ht hls hnext => exact .cr (ht.cons hcr hlf) hls hnext

/-- Cutting a document yields well-broken lines. -/
theorem wellBroken_rawLines (t : Text) : WellBroken (rawLines t) := by
  fun_induction rawLines t with
  | case1 => exact .last plain_nil
  | case2 r ih => exact .crlf plain_nil ih
  | case3 r h ih =>
    refine .cr plain_nil ih fun hhead => ?_
    obtain ⟨r', rfl⟩ := List.head?_eq_some_iff.mp (head?_of_rawLines hhead)
    exact h r' rfl rfl
  | case4 r _ _ ih => exact .lf plain_nil ih
  | case5 c r _ hcr hlf ih => exact ih.prependChar hcr hlf

/-- Every line of a document holds no break character. -/
theorem plain_of_mem_lines {t l : Text} (h : l ∈ t.unifyBreaks.lines) : Plain l := by
  rw [lines_unifyBreaks, List.mem_map] at h
  obtain ⟨r, hr, rfl⟩ := h
  exact (wellBroken_rawLines t).plain r hr

/-! ## Rendering and cutting again -/

/-- A text without breaks in front of a document joins its first line. -/
theorem rawLines_append {t u : Text} (ht : Plain t) {l : RawLine} {ls : List RawLine}
    (hu : rawLines u = l :: ls) : rawLines (t ++ u) = { l with text := t ++ l.text } :: ls := by
  induction t with
  | nil => exact hu
  | cons c t ih =>
    simp only [Plain, List.mem_cons, not_or] at ht
    obtain ⟨⟨hcr, hcr'⟩, hlf, hlf'⟩ := ht
    have hne : ∀ r, c = '\r' → t ++ u = '\n' :: r → False := fun r h _ => hcr h.symm
    rw [List.cons_append, rawLines.eq_3 _ _ hne, if_neg (Ne.symm hcr), if_neg (Ne.symm hlf),
      ih ⟨hcr', hlf'⟩]
    rfl

/-- What well-broken lines begin with. -/
theorem WellBroken.head?_renderLines {ls : List RawLine} (h : WellBroken ls)
    (hnext : ls.head? ≠ some ⟨[], .lf⟩) : (renderLines ls).head? ≠ some '\n' := by
  obtain ⟨⟨t, e⟩, ls, rfl⟩ := List.exists_cons_of_ne_nil h.ne_nil
  have ht : Plain t := h.plain ⟨t, e⟩ (by simp)
  rcases t with _ | ⟨c, t⟩
  · cases h with
    | last _ => simp [renderLines, RawLine.chars, LineBreak.chars]
    | lf _ _ => exact absurd rfl hnext
    | crlf _ _ => simp [renderLines, RawLine.chars, LineBreak.chars]
    | cr _ _ _ => simp [renderLines, RawLine.chars, LineBreak.chars]
  · intro hhead
    have hc : c = '\n' := by simpa [renderLines, RawLine.chars] using hhead
    exact ht.2 (by simp [hc])

/-- **Well-broken lines are cut again as they were.** -/
theorem WellBroken.rawLines_renderLines {ls : List RawLine} (h : WellBroken ls) :
    rawLines (renderLines ls) = ls := by
  induction h with
  | @last t ht =>
    have := rawLines_append ht (u := []) rfl
    simpa [renderLines, RawLine.chars, LineBreak.chars] using this
  | @lf t ls ht hls ih =>
    have hrest : rawLines ('\n' :: renderLines ls) = ⟨[], .lf⟩ :: ls := by
      rw [rawLines.eq_3 _ _ (by simp), if_neg (by decide), if_pos rfl, ih]
    have := rawLines_append ht hrest
    simpa [renderLines, RawLine.chars, LineBreak.chars] using this
  | @crlf t ls ht hls ih =>
    have hrest : rawLines ('\r' :: '\n' :: renderLines ls) = ⟨[], .crlf⟩ :: ls := by
      rw [rawLines, ih]
    have := rawLines_append ht hrest
    simpa [renderLines, RawLine.chars, LineBreak.chars] using this
  | @cr t ls ht hls hnext ih =>
    have hhead : ∀ r, '\r' = '\r' → renderLines ls = '\n' :: r → False := by
      intro r _ hr
      exact hls.head?_renderLines hnext (by rw [hr]; rfl)
    have hrest : rawLines ('\r' :: renderLines ls) = ⟨[], .cr⟩ :: ls := by
      rw [rawLines.eq_3 _ _ hhead, if_pos rfl, ih]
    have := rawLines_append ht hrest
    simpa [renderLines, RawLine.chars, LineBreak.chars] using this

/-! ## Editing a line -/

/-- Emptying the line with a number would make one break of two: a carriage return ends the line in
    front of it, and a line feed ends it. -/
def JoinsBreaks (breaks : List LineBreak) (n : Nat) : Prop :=
  breaks[n]? = some .lf ∧ ∃ m, n = m + 1 ∧ breaks[m]? = some .cr

instance (breaks : List LineBreak) : (n : Nat) → Decidable (JoinsBreaks breaks n)
  | 0 => isFalse fun h => by obtain ⟨-, m, hm, -⟩ := h; cases hm
  | m + 1 => decidable_of_iff (breaks[m + 1]? = some .lf ∧ breaks[m]? = some .cr)
      ⟨fun h => ⟨h.1, m, rfl, h.2⟩, fun ⟨h, _, hm, hcr⟩ => ⟨h, Nat.succ.inj hm ▸ hcr⟩⟩

theorem JoinsBreaks.cons {breaks : List LineBreak} {n : Nat} (h : JoinsBreaks breaks n)
    (b : LineBreak) : JoinsBreaks (b :: breaks) (n + 1) := by
  obtain ⟨hlf, m, rfl, hcr⟩ := h
  exact ⟨hlf, m + 1, rfl, hcr⟩

/-- **An edit keeps the shape of a document**, if it puts in a text that holds no break, and an empty one
    only where no two breaks become one. -/
theorem WellBroken.setLine {ls : List RawLine} (h : WellBroken ls) {text : Text}
    (hplain : Plain text) (n : Nat) (hkeeps : text = [] → ¬JoinsBreaks (ls.map (·.ending)) n) :
    WellBroken (Disk.setLine ls n text) := by
  rw [Disk.setLine, Int.toNat_natCast]
  induction h generalizing n with
  | last ht =>
    cases n with
    | zero => exact .last hplain
    | succ n => rw [List.modify_succ_cons, List.modify_nil]; exact .last ht
  | lf ht hls ih =>
    cases n with
    | zero => exact .lf hplain hls
    | succ n => exact .lf ht (ih n fun htext hjoins => hkeeps htext (hjoins.cons _))
  | crlf ht hls ih =>
    cases n with
    | zero => exact .crlf hplain hls
    | succ n => exact .crlf ht (ih n fun htext hjoins => hkeeps htext (hjoins.cons _))
  | @cr t ls ht hls hnext ih =>
    cases n with
    | zero => exact .cr hplain hls hnext
    | succ n =>
      rw [List.modify_succ_cons]
      refine .cr ht (ih n fun htext hjoins => hkeeps htext (hjoins.cons _)) ?_
      -- the line behind the carriage return does not become an empty one with a line feed
      obtain ⟨⟨t', e⟩, ls, rfl⟩ := List.exists_cons_of_ne_nil hls.ne_nil
      cases n with
      | zero =>
        intro hhead
        obtain ⟨rfl, rfl⟩ : text = [] ∧ e = .lf := by simpa using hhead
        exact hkeeps rfl ⟨rfl, 0, rfl, rfl⟩
      | succ n => simpa [List.modify_succ_cons] using hnext

/-- An edit of a document in terms of the texts of its lines. -/
theorem map_text_setLine (ls : List RawLine) (n : Nat) (text : Text) :
    (Disk.setLine ls n text).map (·.text) = (ls.map (·.text)).set n text := by
  rw [Disk.setLine, Int.toNat_natCast]
  induction ls generalizing n with
  | nil => simp
  | cons l ls ih =>
    cases n with
    | zero => rfl
    | succ n => simp [ih n]

/-! ## Lines and breaks -/

/-- The breaks of a document, one for each line. -/
def breaksOf (t : Text) : List LineBreak := (rawLines t).map (·.ending)

/-- An edit of a document leaves the breaks as they are. -/
theorem map_ending_setLine (ls : List RawLine) (n : Nat) (text : Text) :
    (Disk.setLine ls n text).map (·.ending) = ls.map (·.ending) := by
  rw [Disk.setLine, Int.toNat_natCast]
  induction ls generalizing n with
  | nil => simp
  | cons l ls ih =>
    cases n with
    | zero => rfl
    | succ n => simp [ih n]

/-- **An edit of a document, as a reader sees it**: one line is replaced, every other line and every break
    stays. -/
theorem lines_breaksOf_setLine (raw : Text) {text : Text} (hplain : Plain text) {n : Nat}
    (hkeeps : text = [] → ¬JoinsBreaks (breaksOf raw) n) :
    (renderLines (Disk.setLine (rawLines raw) n text)).unifyBreaks.lines =
        raw.unifyBreaks.lines.set n text ∧
      breaksOf (renderLines (Disk.setLine (rawLines raw) n text)) = breaksOf raw := by
  have hbroken := (wellBroken_rawLines raw).setLine hplain n hkeeps
  constructor
  · rw [lines_unifyBreaks, hbroken.rawLines_renderLines, map_text_setLine, lines_unifyBreaks]
  · rw [breaksOf, hbroken.rawLines_renderLines, map_ending_setLine, breaksOf]

/-- Lines with the same texts and the same breaks are the same. -/
theorem eq_of_map_text_of_map_ending {ls us : List RawLine}
    (htexts : ls.map (·.text) = us.map (·.text)) (hbreaks : ls.map (·.ending) = us.map (·.ending)) :
    ls = us := by
  induction ls generalizing us with
  | nil => exact (List.map_eq_nil_iff.mp htexts.symm).symm
  | cons l ls ih =>
    cases us with
    | nil => cases htexts
    | cons u us =>
      obtain ⟨t, e⟩ := l
      obtain ⟨t', e'⟩ := u
      obtain ⟨htext, hrest⟩ := List.cons.inj htexts
      obtain ⟨hbreak, hrest'⟩ := List.cons.inj hbreaks
      simp only at htext hbreak
      rw [htext, hbreak, ih hrest hrest']

/-- **A document is its lines and its breaks.** -/
theorem eq_of_lines_of_breaksOf {t u : Text} (hlines : t.unifyBreaks.lines = u.unifyBreaks.lines)
    (hbreaks : breaksOf t = breaksOf u) : t = u := by
  rw [lines_unifyBreaks, lines_unifyBreaks] at hlines
  rw [← renderLines_rawLines t, eq_of_map_text_of_map_ending hlines hbreaks, renderLines_rawLines]

end HashtagIndex
