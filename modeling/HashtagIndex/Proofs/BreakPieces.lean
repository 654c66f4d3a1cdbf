import HashtagIndex.Proofs.LineViews

/-!
# `Proofs.BreakPieces` — a document cut into texts and breaks

An editor can also be described without lines that carry a break. The document is cut at its breaks from
the left, and the breaks are kept: pieces at even places are texts, pieces at odd places are the breaks
between them, and line `n` is piece `2 * n`. A carriage return takes a line feed behind it along.

This cut is made in one pass over the raw characters. A reader does something else: it writes every break
as a line feed first and cuts at line feeds afterwards. The main result is that both count the same
lines, for every mixture of breaks, and that an editor which looks up and replaces pieces does what
`Disk.lineAt?` and `Disk.setLine` do on lines.

## Contents
- `cutPieces`, `breakPieces`: the cut, with the text since the last break as accumulator.
- `piecesOf`, `cutPieces_eq_piecesOf`: the same pieces, read off lines with their breaks.
- `getElem?_piecesOf`, `length_piecesOf`, `flatten_piecesOf`, `piecesOf_setLine`: what they say of lines.
- `lines_eq_pieces`: readers and editors count alike.
-/

namespace HashtagIndex

/-! ## The cut -/

/-- Cut a text at its breaks and keep them; `front` is what stands in front of it since the last break.
    A break of two characters is looked for before one of a single character. -/
def cutPieces (front : Text) : Text → List Text
  | [] => [front]
  | '\r' :: '\n' :: r => front :: ['\r', '\n'] :: cutPieces [] r
  | c :: r =>
    if c = '\r' ∨ c = '\n' then front :: [c] :: cutPieces [] r
    else cutPieces (front ++ [c]) r

/-- The texts of a document and the breaks between them, in turn. -/
def breakPieces (t : Text) : List Text := cutPieces [] t

/-- Between two texts stands a break. -/
theorem mem_of_getElem?_cutPieces_odd {front t b : Text} {n : Nat}
    (h : (cutPieces front t)[2 * n + 1]? = some b) : b ∈ [['\r', '\n'], ['\r'], ['\n']] := by
  fun_induction cutPieces front t generalizing n with
  | case1 front => simp at h
  | case2 front r ih =>
    cases n with
    | zero =>
      obtain rfl := Option.some.inj h
      simp
    | succ n => exact ih h
  | case3 front c r _ hc ih =>
    cases n with
    | zero =>
      obtain rfl := Option.some.inj h
      rcases hc with rfl | rfl <;> simp
    | succ n => exact ih h
  | case4 front c r _ _ ih => exact ih h

/-! ## The pieces of lines -/

/-- The pieces of lines: each text is followed by its break, except that nothing follows the last. -/
def piecesOf : List RawLine → List Text
  | [] => []
  | [l] => [l.text]
  | l :: l' :: ls => l.text :: l.ending.chars :: piecesOf (l' :: ls)

theorem piecesOf_cons (l : RawLine) {ls : List RawLine} (h : ls ≠ []) :
    piecesOf (l :: ls) = l.text :: l.ending.chars :: piecesOf ls := by
  obtain ⟨l', ls, rfl⟩ := List.exists_cons_of_ne_nil h
  rfl

/-- Put a text in front of the first line. -/
def prependText (front : Text) (ls : List RawLine) : List RawLine :=
  ls.modifyHead fun l => { l with text := front ++ l.text }

theorem prependText_nil (ls : List RawLine) : prependText [] ls = ls := by
  cases ls <;> rfl

theorem prependText_prependChar (front : Text) (c : Char) {ls : List RawLine} (h : ls ≠ []) :
    prependText front (prependChar c ls) = prependText (front ++ [c]) ls := by
  obtain ⟨l, ls, rfl⟩ := List.exists_cons_of_ne_nil h
  simp [prependText, prependChar]

/-- **Cutting a document into pieces is cutting it into lines**, by induction along the cut. A piece that
    has begun in front of the text belongs to the first line. -/
theorem cutPieces_eq_piecesOf (front t : Text) :
    cutPieces front t = piecesOf (prependText front (rawLines t)) := by
  fun_induction cutPieces front t with
  | case1 front => simp [rawLines, prependText, piecesOf]
  | case2 front r ih =>
    rw [rawLines]
    show _ = piecesOf (⟨front ++ [], .crlf⟩ :: rawLines r)
    rw [ih, prependText_nil, piecesOf_cons _ (rawLines_ne_nil r), List.append_nil]
    rfl
  | case3 front c r hpair hc ih =>
    -- a break of one character ends the first line
    obtain ⟨b, hb, hlines⟩ : ∃ b, b.chars = [c] ∧ rawLines (c :: r) = ⟨[], b⟩ :: rawLines r := by
      rw [rawLines.eq_3 c r hpair]
      rcases hc with rfl | rfl
      · exact ⟨.cr, rfl, if_pos rfl⟩
      · exact ⟨.lf, rfl, rfl⟩
    rw [hlines]
    show _ = piecesOf (⟨front ++ [], b⟩ :: rawLines r)
    rw [ih, prependText_nil, piecesOf_cons _ (rawLines_ne_nil r), List.append_nil, hb]
  | case4 front c r hpair hc ih =>
    obtain ⟨hcr, hlf⟩ := not_or.mp hc
    rw [rawLines.eq_3 c r hpair, if_neg hcr, if_neg hlf, ih,
      prependText_prependChar front c (rawLines_ne_nil r)]

theorem breakPieces_eq_piecesOf (t : Text) : breakPieces t = piecesOf (rawLines t) := by
  rw [breakPieces, cutPieces_eq_piecesOf, prependText_nil]

/-! ## What pieces say of lines -/

/-- Line `n` is piece `2 * n`. -/
theorem getElem?_piecesOf (ls : List RawLine) (n : Nat) :
    (piecesOf ls)[2 * n]? = (ls.map (·.text))[n]? := by
  fun_induction piecesOf ls generalizing n with
  | case1 => rfl
  | case2 l => cases n <;> simp
  | case3 l l' ls ih =>
    cases n with
    | zero => rfl
    | succ n =>
      show (piecesOf (l' :: ls))[2 * n]? = _
      rw [ih]
      rfl

theorem length_piecesOf {ls : List RawLine} (h : ls ≠ []) :
    (piecesOf ls).length + 1 = 2 * ls.length := by
  fun_induction piecesOf ls with
  | case1 => exact absurd rfl h
  | case2 l => rfl
  | case3 l l' ls ih =>
    have hrest := ih (List.cons_ne_nil _ _)
    simp only [List.length_cons] at hrest ⊢
    omega

/-- Only the last line of a document has no break. -/
theorem WellBroken.getLast?_ending {ls : List RawLine} (h : WellBroken ls) :
    (ls.map (·.ending)).getLast? = some .none := by
  have hstep : ∀ (l : RawLine) {ls : List RawLine}, (ls.map (·.ending)).getLast? = some .none →
      ((l :: ls).map (·.ending)).getLast? = some .none := by
    intro l ls hls
    rw [List.map_cons, List.getLast?_cons, hls]
    rfl
  induction h with
  | last ht => rfl
  | lf ht hls ih => exact hstep _ ih
  | crlf ht hls ih => exact hstep _ ih
  | cr ht hls hnext ih => exact hstep _ ih

/-- Joining the pieces of lines renders them, if nothing stands behind the last text. -/
theorem flatten_piecesOf {ls : List RawLine} (h : (ls.map (·.ending)).getLast? = some .none) :
    (piecesOf ls).flatten = renderLines ls := by
  fun_induction piecesOf ls with
  | case1 => rfl
  | case2 l =>
    have hnone : l.ending = .none := by simpa using h
    simp [renderLines, RawLine.chars, LineBreak.chars, hnone]
  | case3 l l' ls ih =>
    have hrest : ((l' :: ls).map (·.ending)).getLast? = some .none := by
      rwa [List.map_cons, List.map_cons, List.getLast?_cons_cons, ← List.map_cons] at h
    show l.text ++ (l.ending.chars ++ (piecesOf (l' :: ls)).flatten) = l.chars ++ renderLines (l' :: ls)
    rw [ih hrest, RawLine.chars, List.append_assoc]

/-- Replacing the text of line `n` is replacing piece `2 * n`. -/
theorem piecesOf_setLine (ls : List RawLine) (n : Nat) (text : Text) :
    piecesOf (Disk.setLine ls n text) = (piecesOf ls).set (2 * n) text := by
  rw [Disk.setLine, Int.toNat_natCast]
  fun_induction piecesOf ls generalizing n with
  | case1 => simp [piecesOf]
  | case2 l =>
    cases n with
    | zero => rfl
    | succ n => simp [piecesOf, show 2 * (n + 1) = 2 * n + 1 + 1 by omega]
  | case3 l l' ls ih =>
    cases n with
    | zero => rfl
    | succ n =>
      have hne : (l' :: ls).modify n (fun l => { l with text }) ≠ [] := by
        rw [ne_eq, ← List.length_eq_zero_iff, List.length_modify]
        simp
      rw [List.modify_succ_cons, piecesOf_cons l hne, ih]
      rfl

/-! ## Readers and editors -/

/-- An editor looks a line up among the pieces, and there is none with a negative number. -/
theorem lineAt?_eq_getElem?_breakPieces (raw : Text) (line : Int) :
    (Disk.lineAt? (rawLines raw) line).map (·.text) =
      if line < 0 then none else (breakPieces raw)[2 * line.toNat]? := by
  rw [breakPieces_eq_piecesOf, getElem?_piecesOf, Disk.lineAt?]
  split
  · rfl
  · rw [List.getElem?_map]

/-- An editor joins the pieces again with the text of one line replaced. -/
theorem renderLines_setLine (raw : Text) (line : Int) (text : Text) :
    renderLines (Disk.setLine (rawLines raw) line text) =
      ((breakPieces raw).set (2 * line.toNat) text).flatten := by
  have hline : Disk.setLine (rawLines raw) line text =
      Disk.setLine (rawLines raw) (line.toNat : Int) text := rfl
  rw [hline, breakPieces_eq_piecesOf, ← piecesOf_setLine, flatten_piecesOf]
  rw [map_ending_setLine]
  exact (wellBroken_rawLines raw).getLast?_ending

/-- **Readers and editors count lines alike**, whatever breaks a document has. The lines that a reader
    sees are the pieces at even places, in number and in text; at odd places stand the breaks; all pieces
    together are the document. An editor looks a line up among these pieces, and what it writes is the
    pieces with that one replaced. -/
theorem lines_eq_pieces (raw : Text) :
    (∀ n, raw.unifyBreaks.lines[n]? = (breakPieces raw)[2 * n]?) ∧
    (breakPieces raw).length + 1 = 2 * raw.unifyBreaks.lines.length ∧
    (∀ n b, (breakPieces raw)[2 * n + 1]? = some b → b ∈ [['\r', '\n'], ['\r'], ['\n']]) ∧
    (breakPieces raw).flatten = raw ∧
    (∀ line, (Disk.lineAt? (rawLines raw) line).map (·.text) =
      if line < 0 then none else (breakPieces raw)[2 * line.toNat]?) ∧
    ∀ line text, renderLines (Disk.setLine (rawLines raw) line text) =
      ((breakPieces raw).set (2 * line.toNat) text).flatten := by
  refine ⟨?_, ?_, ?_, ?_, lineAt?_eq_getElem?_breakPieces raw, renderLines_setLine raw⟩
  · intro n
    rw [breakPieces_eq_piecesOf, getElem?_piecesOf, lines_unifyBreaks]
  · rw [breakPieces_eq_piecesOf, length_piecesOf (rawLines_ne_nil raw), lines_unifyBreaks,
      List.length_map]
  · intro n b hb
    exact mem_of_getElem?_cutPieces_odd hb
  · rw [breakPieces_eq_piecesOf, flatten_piecesOf (wellBroken_rawLines raw).getLast?_ending,
      renderLines_rawLines]

example : breakPieces "a\r\r\nb\n\rc".toList =
    ["a", "\r", "", "\r\n", "b", "\n", "", "\r", "c"].map String.toList := by decide

end HashtagIndex
