import HashtagIndex.Proofs.Parsing
import HashtagIndex.Proofs.Renaming

/-!
# `Proofs.Naming` — a name is accepted exactly if it is read back

A rename puts a new name into documents, and what a document says is decided by the scanner alone. The
rules for names are written down apart from it: a name must not be empty and must hold no blank and no
reserved character, and only the last rule asks for segment characters. That the two agree keeps a rename
from turning a tag into one that nobody asked for:

* **What the rules let through is what the scanner takes whole.** Behind a hash sign an accepted name is
  one tag that covers the text (`ValidPath.parseTags_writtenTag`), and so it is as the last segment of
  any path; a tag of one segment has a name that is accepted (`isSegment_of_mem_parseTags`).
* **What is refused has no effect.** A rename is answered with a fault of names exactly if the name is
  refused or the tag has no segments, and then nothing has happened (`Service.rename_refused`,
  `Service.carryOut_ne_name`).

## Contents
- `isSegment_of_mem_parseTags`: tags of one segment.
- `Service.rename_refused`, `Service.carryOut_ne_name`, `Service.rename_ne_name`: faults of names.
- `names_read_back`, and names for the diary.
-/

namespace HashtagIndex

/-! ## Names in documents -/

/-- A tag that a document has with one segment has a segment in the scanner's sense. -/
theorem isSegment_of_mem_parseTags {t file name : Text} {o : Occurrence} (ho : o ∈ parseTags t file)
    (hpath : o.path = [name]) : isSegment name = true := by
  obtain ⟨-, l, -, hmatch⟩ := (isParse_parseTags t file).matched o ho
  have hvalid := hmatch.segments
  rw [hpath] at hvalid
  exact hvalid.2 name (by simp)

/-! ## Faults of names -/

namespace Service

variable {sv : Service} {d : Disk} {tag name : Text}

/-- **A refused rename has no effect**: the service and the disk are as they were. -/
theorem rename_refused (h : checkName name ≠ .ok name ∨ splitTag tag = []) :
    ∃ f, sv.rename d tag name = (⟨sv, d⟩, .error (.name f)) := by
  unfold rename
  cases hname : checkName name with
  | error f => exact ⟨f, rfl⟩
  | ok checked =>
    obtain ⟨-, rfl⟩ := checkName_eq_ok_iff.mp hname
    have htag : splitTag tag = [] := h.resolve_left (not_not_intro hname)
    exact ⟨.emptyTag tag, by simp only [if_pos htag]⟩

/-- Once its name is accepted, neither planning a rename nor applying the plan finds fault with names. -/
theorem carryOut_ne_name (hname : checkName name = .ok name) (path : TagPath) (f : NameFault) :
    (sv.carryOut d path name).2 ≠ .error (.name f) := by
  have hplan : planRename d sv.index path name ≠ .error (.name f) := by
    unfold planRename
    rw [hname]
    simp only
    split
    · simp
    · cases planEdits d sv.index path name <;> simp [Except.mapError]
  unfold carryOut
  split
  · next g hg =>
    intro h
    rw [hg, Except.error.inj h] at hplan
    exact hplan rfl
  · next edits _ =>
    show ((applyPlan d edits _ _).2.mapError RenameFault.ofEdit) ≠ _
    rcases (applyPlan d edits _ _).2 with (g | _) | out
    · exact nofun
    · exact nofun
    · exact nofun

/-- A rename of some tag to an accepted name is not answered with a fault of names. -/
theorem rename_ne_name (hname : checkName name = .ok name) (htag : splitTag tag ≠ []) (f : NameFault) :
    (sv.rename d tag name).2 ≠ .error (.name f) := by
  by_cases hlast : (splitTag tag).getLast? = some name
  · simp only [rename, hname, if_neg htag, if_pos hlast]
    simp
  · rw [sv.rename_of_checkName d hname htag hlast]
    cases (sv.scanAll (sv.carryOut d (splitTag tag) name).1).2 with
    | error g => simp [Except.mapError, bind, Except.bind]
    | ok summary => exact carryOut_ne_name hname (splitTag tag) f

end Service

/-! ## Accepted names -/

/-- **A name is accepted exactly if it is read back.** A name is accepted if and only if behind a hash sign
    it is one tag, whose only segment it is and which covers the text. An accepted name in the place of
    the last one of any segments is written as one tag with exactly that path. And a rename is answered
    with a fault of names if and only if the name is refused or the tag has no segments; then every file,
    the index and everything else about the service is as it was. -/
theorem names_read_back (name file : Text) :
    (checkName name = .ok name ↔
      parseTags ('#' :: name) file = [⟨[name], file, ⟨⟨0, 0⟩, ⟨0, ('#' :: name).length⟩⟩⟩]) ∧
    (checkName name = .ok name → ∀ p : TagPath, (∀ s ∈ p, isSegment s = true) →
      parseTags (writtenTag (p.dropLast ++ [name])) file = [⟨p.dropLast ++ [name], file,
        ⟨⟨0, 0⟩, ⟨0, (writtenTag (p.dropLast ++ [name])).length⟩⟩⟩]) ∧
    ∀ (sv : Service) (d : Disk) (tag : Text),
      ((checkName name ≠ .ok name ∨ splitTag tag = []) ↔
        ∃ f, (sv.rename d tag name).2 = .error (.name f)) ∧
      ∀ f, (sv.rename d tag name).2 = .error (.name f) → (sv.rename d tag name).1 = ⟨sv, d⟩ := by
  refine ⟨⟨?_, ?_⟩, ?_, ?_⟩
  · intro hname
    have hsegment := isSegment_of_checkName hname
    have hvalid : ValidPath [name] := ⟨by simp, by simpa using hsegment⟩
    have hwritten : writtenTag [name] = '#' :: name := by
      rw [writtenTag, joinSegments, List.intercalate_singleton]
    rw [← hwritten]
    exact hvalid.parseTags_writtenTag file
  · intro hparse
    apply checkName_of_isSegment
    exact isSegment_of_mem_parseTags (hparse ▸ List.mem_singleton.mpr rfl) rfl
  · intro hname p hp
    exact (validPath_renamedPath hp (isSegment_of_checkName hname)).parseTags_writtenTag file
  · intro sv d tag
    have hrefused : (∃ f, (sv.rename d tag name).2 = .error (.name f)) →
        checkName name ≠ .ok name ∨ splitTag tag = [] := by
      rintro ⟨f, hf⟩
      by_contra hnot
      push Not at hnot
      exact Service.rename_ne_name hnot.1 hnot.2 f hf
    refine ⟨⟨fun h => ?_, hrefused⟩, fun f hf => ?_⟩
    · obtain ⟨f, hf⟩ := @Service.rename_refused sv d tag name h
      exact ⟨f, by rw [hf]⟩
    · obtain ⟨g, hg⟩ := @Service.rename_refused sv d tag name (hrefused ⟨f, hf⟩)
      rw [hg]

/-! ## Names for the diary -/

/-- A name with a letter that is not ASCII, a hyphen and a digit is read back, alone and nested; and the
    diary is as it was after the tag in it was to be given a name with a slash, and after a tag without
    segments was to be given the accepted name. -/
theorem diary_names_read_back :
    let name := "spät-2".toList
    parseTags ('#' :: name) [] = [⟨[name], [], ⟨⟨0, 0⟩, ⟨0, 7⟩⟩⟩] ∧
      parseTags (writtenTag [['a'], name]) [] = [⟨[['a'], name], [], ⟨⟨0, 0⟩, ⟨0, 9⟩⟩⟩] ∧
      (∃ f, (diary.rename diaryDisk "#a".toList "b/c".toList).2 = .error (.name f)) ∧
      (diary.rename diaryDisk "#a".toList "b/c".toList).1 = ⟨diary, diaryDisk⟩ ∧
      (∃ f, (diary.rename diaryDisk " #/ ".toList name).2 = .error (.name f)) ∧
      (diary.rename diaryDisk " #/ ".toList name).1 = ⟨diary, diaryDisk⟩ := by
  intro name
  obtain ⟨hread, hnested, hrename⟩ := names_read_back name []
  have hname : checkName name = .ok name := by decide
  obtain ⟨hslash, hsame⟩ := (names_read_back "b/c".toList []).2.2 diary diaryDisk "#a".toList
  obtain ⟨hempty, hsame'⟩ := hrename diary diaryDisk " #/ ".toList
  obtain ⟨f, hf⟩ := hslash.mp (.inl (by decide))
  obtain ⟨g, hg⟩ := hempty.mp (.inr (by decide))
  exact ⟨hread.mp hname, hnested hname [['a'], ['b']] (by decide), ⟨f, hf⟩, hsame f hf, ⟨g, hg⟩,
    hsame' g hg⟩

end HashtagIndex
