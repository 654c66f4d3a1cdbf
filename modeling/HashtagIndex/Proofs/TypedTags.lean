import HashtagIndex.Proofs.ValidPath
import Mathlib.Data.List.DropRight

/-!
# `Proofs.TypedTags` — tags as people type them

A typed tag may have blanks around it, a hash sign in front, and slashes too many. Reading it
(`splitTag`) takes blanks, then one hash sign, then cuts at the slashes. A completion reads the part in
front of the last slash, and by then blanks and a hash sign have been taken from the whole text already:
that part is read a second time. Mostly this makes no difference, and when it does can be said of the
text: reading once and reading twice give different paths exactly if a hash sign in front is followed by
another hash sign or by a blank (`splitTag_dropHash_trim_iff`).

## Contents
- `trim_append_cons`, `trim_cases`: trimming around a character that is not blank.
- `beforeLast_append_cons`: what stands in front of a last slash.
- `ValidPath.splitTag_join`, `ValidPath.splitTag_writtenTag`: typing a path that documents can spell.
- `splitTag_dropHash_dropWhile`, `splitTag_beforeLast`: what a completion reads.
- `RepeatsHash`, `flatten_splitTag`, `splitTag_dropHash_trim_iff`: reading once and reading twice.
-/

namespace HashtagIndex

/-! ## Trimming -/

/-- Dropping from the front stops at a character that stays. -/
theorem dropWhile_append_cons {α : Type} {q : α → Bool} {x : α} (hx : q x = false) (u s : List α) :
    (u ++ x :: s).dropWhile q = u.dropWhile q ++ x :: s := by
  induction u with
  | nil => simp [hx]
  | cons y u ih =>
    by_cases hy : q y = true
    · rw [List.cons_append, List.dropWhile_cons_of_pos hy, List.dropWhile_cons_of_pos hy, ih]
    · rw [List.cons_append, List.dropWhile_cons_of_neg hy, List.dropWhile_cons_of_neg hy,
        List.cons_append]

/-- Dropping from the end stops there, too. -/
theorem rdropWhile_append_cons {α : Type} {q : α → Bool} {x : α} (hx : q x = false) (u s : List α) :
    (u ++ x :: s).rdropWhile q = u ++ x :: s.rdropWhile q := by
  unfold List.rdropWhile
  rw [List.reverse_append, List.reverse_cons, List.append_assoc, List.singleton_append,
    dropWhile_append_cons hx]
  simp

theorem trim_eq (t : Text) : t.trim = (t.dropWhile isBlank).rdropWhile isBlank := rfl

/-- Trimming does not get past a character that is not blank. -/
theorem trim_append_cons {c : Char} (hc : isBlank c = false) (u s : Text) :
    (u ++ c :: s).trim = u.dropWhile isBlank ++ c :: s.rdropWhile isBlank := by
  rw [trim_eq, dropWhile_append_cons hc, rdropWhile_append_cons hc]

theorem trim_cons {c : Char} (hc : isBlank c = false) (s : Text) :
    Text.trim (c :: s) = c :: s.rdropWhile isBlank :=
  trim_append_cons hc [] s

/-- **A text is blank, or a first character that is not blank begins what trimming leaves of it.** -/
theorem trim_cases (t : Text) :
    (t.dropWhile isBlank = [] ∧ t.trim = []) ∨
      ∃ c s, isBlank c = false ∧ t.dropWhile isBlank = c :: s ∧ t.trim = c :: s.rdropWhile isBlank := by
  cases hdrop : t.dropWhile isBlank with
  | nil =>
    left
    rw [trim_eq, hdrop]
    exact ⟨rfl, rfl⟩
  | cons c s =>
    right
    have hhead := List.head?_dropWhile_not isBlank t
    rw [hdrop] at hhead
    have hc : isBlank c = false := hhead
    refine ⟨c, s, hc, rfl, ?_⟩
    rw [trim_eq, hdrop]
    exact rdropWhile_append_cons hc [] s

/-- Blanks at the end do not matter to trimming. -/
theorem trim_rdropWhile (t : Text) : Text.trim (t.rdropWhile isBlank) = t.trim := by
  by_cases hblank : ∀ c ∈ t, isBlank c = true
  · rw [List.rdropWhile_eq_nil_iff.mpr hblank, trim_eq t, List.dropWhile_eq_nil_iff.mpr hblank]
    rfl
  · -- cut the text at a character that is not blank
    push Not at hblank
    obtain ⟨c, hc, hcb⟩ := hblank
    have hcb : isBlank c = false := by simpa using hcb
    obtain ⟨u, s, rfl⟩ := List.append_of_mem hc
    rw [rdropWhile_append_cons hcb, trim_append_cons hcb, trim_append_cons hcb,
      List.rdropWhile_idempotent]

theorem trim_trim (t : Text) : t.trim.trim = t.trim := by
  rcases trim_cases t with ⟨-, htrim⟩ | ⟨c, s, hc, -, htrim⟩
  · rw [htrim]
    rfl
  · rw [htrim, trim_cons hc, List.rdropWhile_idempotent]

/-- Nothing is trimmed from a text without blanks. -/
theorem trim_eq_self {t : Text} (h : ∀ c ∈ t, isBlank c = false) : t.trim = t := by
  have hfront : t.dropWhile isBlank = t := by
    rw [List.dropWhile_eq_self_iff]
    intro hpos
    simp [h _ (List.getElem_mem hpos)]
  rw [trim_eq, hfront, List.rdropWhile_eq_self_iff]
  intro hne
  simp [h _ (List.getLast_mem hne)]

/-- What is trimmed does not end with a blank. -/
theorem isBlank_of_getLast?_trim {t : Text} {c : Char} (h : t.trim.getLast? = some c) : isBlank c = false := by
  obtain ⟨hne, rfl⟩ := List.mem_getLast?_eq_getLast h
  exact Bool.eq_false_iff.mpr (List.rdropWhile_last_not isBlank (t.dropWhile isBlank) hne)

/-- Nothing is trimmed from a text with other characters than blanks at both ends. -/
theorem trim_eq_self_of_ends {t : Text} {c c' : Char} (hhead : t.head? = some c) (hc : isBlank c = false)
    (hlast : t.getLast? = some c') (hc' : isBlank c' = false) : t.trim = t := by
  obtain ⟨hne, rfl⟩ := List.mem_getLast?_eq_getLast hlast
  obtain ⟨r, rfl⟩ := List.head?_eq_some_iff.mp hhead
  rw [trim_eq, List.dropWhile_cons_of_neg (by simp [hc]), List.rdropWhile_eq_self_iff]
  intro hne
  simp [hc']

/-- Trimming keeps some of the characters. -/
theorem trim_sublist (t : Text) : t.trim.Sublist t :=
  (List.rdropWhile_prefix isBlank _).sublist.trans (List.dropWhile_suffix isBlank).sublist

theorem isBlank_slash : isBlank '/' = false := by decide

theorem isBlank_hash : isBlank '#' = false := by decide

/-! ## One hash sign in front -/

theorem dropHash_cons_of_ne {c : Char} (hc : c ≠ '#') (r : Text) : dropHash (c :: r) = c :: r := by
  unfold dropHash
  split
  · next heq => exact absurd (List.cons.inj heq).1 hc
  · rfl

theorem dropHash_sublist (t : Text) : (dropHash t).Sublist t := by
  unfold dropHash
  split
  · exact List.sublist_cons_self ..
  · exact List.Sublist.refl _

/-- Behind a slash no hash sign is in front. -/
theorem dropHash_append_slash (u s : Text) : dropHash (u ++ '/' :: s) = dropHash u ++ '/' :: s := by
  cases u with
  | nil => rfl
  | cons c u =>
    by_cases hc : c = '#'
    · subst hc
      rfl
    · rw [List.cons_append, dropHash_cons_of_ne hc, dropHash_cons_of_ne hc, List.cons_append]

/-! ## The last slash -/

section BeforeLast

variable {sep : Char} {s : Text} (hs : sep ∉ s)
include hs

theorem dropWhile_reverse_of_not_mem : s.reverse.dropWhile (· != sep) = [] := by
  rw [List.dropWhile_eq_nil_iff]
  intro c hc
  rw [bne_iff_ne]
  rintro rfl
  exact hs (List.mem_reverse.mp hc)

/-- What stands in front of the last separator. -/
theorem beforeLast_append_cons (u : Text) : Text.beforeLast sep (u ++ sep :: s) = u := by
  unfold Text.beforeLast
  rw [List.reverse_append, List.reverse_cons, List.append_assoc, List.singleton_append,
    dropWhile_append_cons (by simp), dropWhile_reverse_of_not_mem hs]
  simp

/-- Nothing stands in front of the last separator where there is none. -/
theorem beforeLast_of_not_mem : Text.beforeLast sep s = [] := by
  unfold Text.beforeLast
  rw [dropWhile_reverse_of_not_mem hs]
  rfl

end BeforeLast

/-! ## Paths that are typed -/

namespace ValidPath

variable {p : TagPath}

/-- A path that documents can spell holds no blank. -/
theorem isBlank_of_mem_join (hp : ValidPath p) : ∀ c ∈ joinSegments p, isBlank c = false := by
  intro c hc
  by_contra hblank
  rw [Bool.not_eq_false] at hblank
  rcases hp.mem_join hc with hsegment | rfl
  · rw [isSegmentChar_of_isBlank hblank] at hsegment
    cases hsegment
  · rw [isBlank_slash] at hblank
    cases hblank

/-- A path that documents can spell has no hash sign in front. -/
theorem dropHash_join (hp : ValidPath p) : dropHash (joinSegments p) = joinSegments p := by
  have hno : '#' ∉ joinSegments p := hp.not_mem_join isSegmentChar_hash (by decide)
  cases hj : joinSegments p with
  | nil => rfl
  | cons c r =>
    apply dropHash_cons_of_ne
    rintro rfl
    exact hno (by simp [hj])

/-- Cutting the text of the path gives its segments, none of which is empty. -/
theorem filter_splitOn_join (hp : ValidPath p) :
    ((joinSegments p).splitOn '/').filter (· ≠ []) = p := by
  rw [hp.splitOn_join, List.filter_eq_self]
  intro s hs
  simpa using (isSegment_iff.mp (hp.2 s hs)).1

/-- **A path is read back from its text.** -/
theorem splitTag_join (hp : ValidPath p) : splitTag (joinSegments p) = p := by
  unfold splitTag
  rw [trim_eq_self hp.isBlank_of_mem_join, hp.dropHash_join, hp.filter_splitOn_join]

theorem trim_writtenTag (hp : ValidPath p) : (writtenTag p).trim = writtenTag p := by
  apply trim_eq_self
  intro c hc
  rcases List.mem_cons.mp hc with rfl | hc
  · exact isBlank_hash
  · exact hp.isBlank_of_mem_join c hc

/-- **A path is read back from the way documents write it.** -/
theorem splitTag_writtenTag (hp : ValidPath p) : splitTag (writtenTag p) = p := by
  unfold splitTag
  rw [hp.trim_writtenTag]
  exact hp.filter_splitOn_join

end ValidPath

/-! ## Reading once and reading twice -/

/-- Reading takes blanks off first, so texts that are trimmed to the same are read alike. -/
theorem splitTag_congr {t u : Text} (h : t.trim = u.trim) : splitTag t = splitTag u := by
  unfold splitTag
  rw [h]

/-- Blanks at the end do not matter to what is read behind a hash sign. -/
theorem splitTag_dropHash_dropWhile (p : Text) :
    splitTag (dropHash (p.dropWhile isBlank)) = splitTag (dropHash p.trim) := by
  rcases trim_cases p with ⟨hdrop, htrim⟩ | ⟨c, s, hc, hdrop, htrim⟩
  · rw [hdrop, htrim]
  · rw [hdrop, htrim]
    by_cases hhash : c = '#'
    · subst hhash
      exact splitTag_congr (trim_rdropWhile s).symm
    · apply splitTag_congr
      rw [dropHash_cons_of_ne hhash, dropHash_cons_of_ne hhash, trim_cons hc, trim_cons hc,
        List.rdropWhile_idempotent]

/-- **In front of its last slash a typed text is read twice**: as the text that is left of a hash sign. -/
theorem splitTag_beforeLast {s : Text} (hs : '/' ∉ s) (p : Text) :
    splitTag ((dropHash (p ++ '/' :: s).trim).beforeLast '/') = splitTag (dropHash p.trim) := by
  have hs' : '/' ∉ s.rdropWhile isBlank := fun h => hs ((List.rdropWhile_prefix isBlank s).subset h)
  rw [trim_append_cons isBlank_slash, dropHash_append_slash, beforeLast_append_cons hs',
    splitTag_dropHash_dropWhile]

/-- Without a slash nothing is read. -/
theorem splitTag_beforeLast_of_not_mem {t : Text} (ht : '/' ∉ t) :
    splitTag ((dropHash t.trim).beforeLast '/') = [] := by
  have ht' : '/' ∉ dropHash t.trim := fun h =>
    ht (((dropHash_sublist _).trans (trim_sublist t)).subset h)
  rw [beforeLast_of_not_mem ht']
  rfl

/-- In front of the typed text stands a hash sign, and behind that another one or a blank. -/
def RepeatsHash (t : Text) : Prop :=
  t.trim[0]? = some '#' ∧ t.trim[1]?.any (fun c => c == '#' || isBlank c) = true

instance (t : Text) : Decidable (RepeatsHash t) := inferInstanceAs (Decidable (_ ∧ _))

theorem repeatsHash_iff {t : Text} :
    RepeatsHash t ↔ ∃ c r, t.trim = '#' :: c :: r ∧ (c = '#' ∨ isBlank c = true) := by
  unfold RepeatsHash
  rcases t.trim with _ | ⟨a, _ | ⟨b, r⟩⟩ <;> simp

/-- The segments of a typed text hold its characters but the slashes. -/
theorem flatten_splitTag (t : Text) :
    (splitTag t).flatten = (dropHash t.trim).filter (· ≠ '/') := by
  unfold splitTag
  rw [List.flatten_filter_ne_nil]
  induction dropHash t.trim with
  | nil => rfl
  | cons c u ih =>
    rw [List.splitOn_cons_eq_if_modifyHead]
    by_cases hc : c = '/'
    · simp [hc, ih]
    · obtain ⟨s, rest, hsplit⟩ := List.exists_cons_of_ne_nil (List.splitOn_ne_nil '/' u)
      have hbeq : (c == '/') = false := by simpa using hc
      rw [hsplit] at ih ⊢
      rw [hbeq, if_neg (by simp), List.modifyHead_cons, List.flatten_cons, List.cons_append,
        ← List.flatten_cons, ih, List.filter_cons_of_pos (by simpa using hc)]

/-- A text that repeats its hash sign loses characters to the second reading. -/
theorem RepeatsHash.splitTag_ne {p : Text} (h : RepeatsHash p) :
    splitTag (dropHash p.trim) ≠ splitTag p := by
  obtain ⟨c, r, htrim, hc⟩ := repeatsHash_iff.mp h
  have hleft : dropHash p.trim = c :: r := by rw [htrim]; rfl
  have hlost : (dropHash (Text.trim (c :: r))).Sublist r := by
    rcases hc with rfl | hblank
    · rw [trim_cons isBlank_hash]
      exact (List.rdropWhile_prefix isBlank r).sublist
    · have hskip : Text.trim (c :: r) = Text.trim r := by
        rw [trim_eq, trim_eq, List.dropWhile_cons_of_pos hblank]
      rw [hskip]
      exact (dropHash_sublist _).trans (trim_sublist r)
  have hne : c ≠ '/' := by
    rintro rfl
    rw [isBlank_slash] at hc
    simp at hc
  intro heq
  have hlength := congrArg (fun q => (List.flatten q).length) heq
  simp only [flatten_splitTag, hleft, List.filter_cons, hne, ne_eq, not_false_eq_true, decide_true,
    if_true, List.length_cons] at hlength
  have hshort := (hlost.filter (· ≠ '/')).length_le
  simp only [ne_eq] at hshort
  omega

/-- **Reading once and reading twice** give the same path exactly if no hash sign is repeated. -/
theorem splitTag_dropHash_trim_iff {p : Text} :
    splitTag (dropHash p.trim) = splitTag p ↔ ¬RepeatsHash p := by
  constructor
  · intro heq hrepeats
    exact hrepeats.splitTag_ne heq
  · intro hnot
    rcases trim_cases p with ⟨-, htrim⟩ | ⟨c, s, hc, -, htrim⟩
    · unfold splitTag
      rw [htrim]
      rfl
    · by_cases hhash : c = '#'
      · subst hhash
        unfold splitTag
        rw [htrim]
        show ((dropHash (Text.trim (s.rdropWhile isBlank))).splitOn '/').filter _ =
          ((s.rdropWhile isBlank).splitOn '/').filter _
        cases hs : s.rdropWhile isBlank with
        | nil => rfl
        | cons e r =>
          rw [repeatsHash_iff, htrim, hs] at hnot
          have he : e ≠ '#' := fun h => hnot ⟨e, r, rfl, .inl h⟩
          have heb : isBlank e = false := by
            by_contra h
            exact hnot ⟨e, r, rfl, .inr (by simpa using h)⟩
          have hend : e :: r.rdropWhile isBlank = e :: r := by
            have hstop := rdropWhile_append_cons heb [] r
            rw [List.nil_append, ← hs, List.rdropWhile_idempotent, hs] at hstop
            exact hstop.symm
          rw [trim_cons heb, hend, dropHash_cons_of_ne he]
      · apply splitTag_congr
        rw [htrim, dropHash_cons_of_ne hhash, ← htrim, trim_trim]

end HashtagIndex
