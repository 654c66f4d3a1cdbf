import HashtagIndex.Http.Routes
import HashtagIndex.Proofs.Accounting
import HashtagIndex.Proofs.Parsing
import HashtagIndex.Tools

/-!
# `Proofs.Reachability` — what holds of every index that requests lead to

An index can store any record under any key. That it does not is no property of the index but of those
who fill it: a scan stores what parsing some text of a document gave, under the document's name, and
drops keys, and nothing else ever touches the index. So "each record comes from scanning some text of
its document" (`FromScans`) survives whatever a scan does, for every reason, and wherever it stops if it
fails (`FromScans.scan`). A rename ends with a scan, other requests only read, and so every service that
requests lead to from an empty index has such an index (`Reached.fromScans`), no matter how the disk
changed between them. What the parser promises about one text then holds of every record
(`wellFormed_parseTags`).

## Contents
- `Record.WellFormed`, `wellFormed_parseTags`: what is promised about a record.
- `FromScans.refresh`, `FromScans.removePaths`, `FromScans.scan`: what scans keep.
- `ToolCall.run_induction`, `Http.answer_induction`: tools and endpoints do no more than services do.
- `Reached`, `Reached.fromScans`: services that requests lead to.
- `reached_wellFormed`, and a day with requests that fail.
-/

namespace HashtagIndex

/-! ## Records -/

/-- A record of the document with a key: it and its occurrences name that document, and the occurrences
    stand in source order and do not overlap, each on one line, as wide as its written tag, and with a path
    that documents can spell. -/
structure Record.WellFormed (key : Text) (r : Record) : Prop where
  file : r.file = key
  files : ∀ o ∈ r.occurrences, o.file = key
  increasing : r.occurrences.Pairwise fun a b => a.range.start.Before b.range.start
  disjoint : r.occurrences.Pairwise fun a b => ¬b.range.start.Before a.range.stop
  oneLine : ∀ o ∈ r.occurrences, o.range.stop.line = o.range.start.line
  width : ∀ o ∈ r.occurrences,
    o.range.stop.character = o.range.start.character + (1 + (joinSegments o.path).length)
  spelled : ∀ o ∈ r.occurrences, o.path ≠ [] ∧ ∀ s ∈ o.path, isSegment s = true

/-- **What the parser promises** about the text of a document. -/
theorem wellFormed_parseTags (t key : Text) : Record.WellFormed key ⟨key, parseTags t key⟩ := by
  have hparse := isParse_parseTags t key
  have hmatched : ∀ o ∈ parseTags t key, ∃ l, MatchesTag l o := by
    intro o ho
    obtain ⟨-, l, -, hmatch⟩ := hparse.matched o ho
    exact ⟨l, hmatch⟩
  refine ⟨rfl, fun o ho => (hparse.matched o ho).1, hparse.increasing, ?_, ?_, ?_, ?_⟩
  · refine (tagsInLines_ordered key 0 t.lines).imp ?_
    intro a b horder
    unfold Position.Before
    omega
  · intro o ho
    obtain ⟨l, hmatch⟩ := hmatched o ho
    exact hmatch.oneLine
  · intro o ho
    obtain ⟨l, hmatch⟩ := hmatched o ho
    have hwidth := hmatch.width
    unfold writtenTag at hwidth
    rw [List.length_cons] at hwidth
    omega
  · intro o ho
    obtain ⟨l, hmatch⟩ := hmatched o ho
    exact hmatch.segments

/-! ## What scans keep -/

namespace FromScans

variable {ix : Index}

theorem empty : FromScans .empty := by
  intro file r h
  cases h

theorem upsert (h : FromScans ix) (t file : Text) :
    FromScans (Index.upsert ix ⟨file, parseTags t file⟩) := by
  intro k r hr
  rw [get?_upsert] at hr
  split at hr
  · next hk =>
    obtain rfl := Option.some.inj hr
    exact ⟨t, by rw [hk]⟩
  · exact h k r hr

theorem filterKeys (h : FromScans ix) (p : Text → Bool) : FromScans (ix.filterKeys p) := by
  intro k r hr
  rw [OrderedMap.get?_filterKeys] at hr
  split at hr
  · exact h k r hr
  · cases hr

/-- **Reading documents again** stores what each of them holds or drops it, also if the last one to be
    read cannot be named. -/
theorem refresh (h : FromScans ix) (d : Disk) (files : List Text) :
    FromScans (Settings.refresh d ix files).1 := by
  induction files generalizing ix with
  | nil => exact h
  | cons file rest ih =>
    unfold Settings.refresh
    split
    · exact h
    · exact ih (h.filterKeys _)
    · next r hscan =>
      obtain ⟨-, hrecord⟩ := scanFile_eq_ok.mp hscan
      obtain ⟨t, -, rfl⟩ := recordOf_eq_some.mp hrecord.symm
      exact ih (h.upsert t file)

theorem scanPaths (h : FromScans ix) (s : Settings) (d : Disk) (written : List Text) :
    FromScans (s.scanPaths d written ix).1 := by
  unfold Settings.scanPaths
  split
  · exact h
  · exact h.refresh d _

/-- **Dropping paths** keeps the other records, also if one of the paths cannot be used. -/
theorem removePaths (h : FromScans ix) (s : Settings) (d : Disk) (written : List Text) :
    FromScans (s.removePaths d ix written).1 := by
  obtain ⟨test, htest⟩ := s.exists_removePaths_eq d written ix
  rw [htest]
  exact h.filterKeys test

/-- A full scan stores what documents hold. -/
theorem of_fullIndex {s : Settings} {d : Disk} {full : Index} (h : s.fullIndex d = .ok full) :
    FromScans full := by
  obtain ⟨files, hfiles, -, -⟩ := Settings.fullIndex_eq_ok.mp h
  intro k r hr
  rw [Settings.get?_fullIndex h hfiles] at hr
  split at hr
  · obtain ⟨t, -, rfl⟩ := recordOf_eq_some.mp hr
    exact ⟨t, rfl⟩
  · cases hr

/-- **A scan for any reason** keeps it that records come from scans, whether it comes out well or not. -/
theorem scan (h : FromScans ix) (s : Settings) (d : Disk) (reason : ScanReason)
    (changed old : List Text) : FromScans (s.scan d reason changed old ix).1 := by
  unfold Settings.scan
  cases reason with
  | justGet => exact h
  | workspace =>
    dsimp only
    split
    · exact h
    · next hfull => exact of_fullIndex hfull
  | fileCreatedOrUpdated => exact h.scanPaths s d changed
  | fileDeleted => exact h.removePaths s d changed
  | fileRenamed =>
    have hremoved := h.removePaths s d old
    dsimp only
    split
    · next heq =>
      rw [heq] at hremoved
      exact hremoved
    · next heq =>
      rw [heq] at hremoved
      exact FromScans.scanPaths hremoved s d changed

end FromScans

/-! ## Tools and endpoints -/

namespace ToolCall

variable {P : Service → Prop}

/-- **Tools do no more than services do.** What scans of the workspace and renames keep, tools keep. -/
theorem run_induction (hscan : ∀ sv d, P sv → P (sv.scanAll d).1)
    (hrename : ∀ sv d tag name, P sv → P (sv.rename d tag name).1.service) (c : ToolCall)
    {s : Session} (h : P s.service) : P (c.run s).1.service := by
  have hfirst : P (scannedFirst s).1.service := by
    unfold scannedFirst
    split
    · exact h
    · exact hscan s.service s.disk h
  have hask : ∀ question, P (ask s question).1.service := by
    intro question
    unfold ask
    split <;> next heq =>
      rw [heq] at hfirst
      exact hfirst
  cases c with
  | tree key order depth => exact hask _
  | complete typed => exact hask _
  | references tag nested => exact hask _
  | rescan => exact hscan s.service s.disk h
  | rename tag name =>
    unfold run
    dsimp only
    split <;> next heq =>
      rw [heq] at hfirst
      first
        | exact hfirst
        | exact hrename _ _ tag name hfirst

end ToolCall

namespace Http

variable {P : Service → Prop}

theorem withParameters_induction {α : Type} {s : Session} (h : P s.service) {c : Except Fault α}
    {run : α → Session × Except Fault Json} (hrun : ∀ a, P (run a).1.service) :
    P (withParameters s c run).1.service := by
  unfold withParameters
  split
  · exact h
  · exact hrun _

/-- **Endpoints do no more than services do.** -/
theorem answer_induction (hscan : ∀ sv d, P sv → P (sv.scanAll d).1)
    (hhandle : ∀ sv d e, P sv → P (sv.handle d e).1)
    (hrename : ∀ sv d tag name, P sv → P (sv.rename d tag name).1.service)
    (hsorting : ∀ sv key order, P sv → P (Service.setSorting sv key order)) {s : Session}
    (h : P s.service) (q : Request) : P (answer s q).1.service := by
  have hendpoint : ∀ e : Endpoint, P (e.run s q).1.service := by
    intro e
    unfold Endpoint.run
    cases e with
    | health => exact h
    | sorting => exact h
    | tree => exact withParameters_induction h fun _ => h
    | complete => exact withParameters_induction h fun _ => h
    | references => exact withParameters_induction h fun _ => h
    | changeSorting => exact withParameters_induction h fun c => hsorting _ c.key c.order h
    | rescan => exact hscan _ _ h
    | events => exact withParameters_induction h fun e => hhandle _ _ e h
    | rename => exact withParameters_induction h fun r => hrename _ _ r.tag r.name h
  show P (answerFor q.method.toUpper s q).1.service
  unfold answerFor
  split
  · exact h
  · next e _ => exact hendpoint e

end Http

/-! ## Services that requests lead to -/

/-- The services that requests lead to, from an empty index on. Each request meets a disk of its own, and
    a rename two of them, for documents may change while it is being planned. Requests that fail count like
    all others. -/
inductive Reached : Service → Prop
  | start {sv : Service} (hindex : sv.index = .empty) : Reached sv
  | scan {sv : Service} (d : Disk) (reason : ScanReason) (changed old : List Text) (h : Reached sv) :
      Reached (sv.scan d reason changed old).1
  | rename {sv : Service} (d₀ d : Disk) (tag name : Text) (h : Reached sv) :
      Reached (sv.renameAcross d₀ d tag name).1.service
  | setSorting {sv : Service} (key : Option SortKey) (order : Option SortOrder) (h : Reached sv) :
      Reached (sv.setSorting key order)

/-- **A rename** leaves the index alone or ends with a scan, whatever its plan and its edits have done. -/
theorem Service.index_renameAcross (sv : Service) (d₀ d : Disk) (tag name : Text) :
    (sv.renameAcross d₀ d tag name).1.service.index = sv.index ∨
    ∃ d', (sv.renameAcross d₀ d tag name).1.service.index = (sv.scanAll d').1.index := by
  unfold renameAcross
  dsimp only
  split
  · exact .inl rfl
  · split
    · exact .inl rfl
    · split
      · exact .inl rfl
      · right
        refine ⟨(carryOutPlan d (splitTag tag) name (planRename d₀ sv.index (splitTag tag) name)).1, ?_⟩
        split <;> next heq => rw [heq]

namespace Reached

variable {sv : Service}

theorem fromScans (h : Reached sv) : FromScans sv.index := by
  induction h with
  | start hindex =>
    rw [hindex]
    exact FromScans.empty
  | scan d reason changed old _ ih =>
    rw [Service.index_scan]
    exact ih.scan _ d reason changed old
  | @rename sv d₀ d tag name _ ih =>
    rcases sv.index_renameAcross d₀ d tag name with heq | ⟨d', heq⟩
    · rw [heq]
      exact ih
    · rw [heq, Service.scanAll, Service.index_scan]
      exact ih.scan _ d' _ _ _
  | setSorting key order _ ih => exact ih

theorem scanAll (h : Reached sv) (d : Disk) : Reached (sv.scanAll d).1 := h.scan d _ _ _

theorem handle (h : Reached sv) (d : Disk) (e : WorkspaceEvent) : Reached (sv.handle d e).1 :=
  h.scan d _ _ _

theorem handleAll (h : Reached sv) (d : Disk) (es : List WorkspaceEvent) :
    Reached (sv.handleAll d es).1 := by
  induction es generalizing sv with
  | nil => exact h
  | cons e rest ih => exact ih (h.handle d e)

theorem renameAtOnce (h : Reached sv) (d : Disk) (tag name : Text) :
    Reached (sv.rename d tag name).1.service := by
  rw [← Service.renameAcross_self]
  exact h.rename d d tag name

/-- Calling a tool is a request. -/
theorem tool (h : Reached sv) (d : Disk) (c : ToolCall) : Reached (c.run ⟨sv, d⟩).1.service :=
  c.run_induction (fun _ d h => h.scanAll d) (fun _ d tag name h => h.renameAtOnce d tag name) h

/-- A request over HTTP is one, too. -/
theorem answer (h : Reached sv) (d : Disk) (q : Http.Request) :
    Reached (Http.answer ⟨sv, d⟩ q).1.service :=
  Http.answer_induction (fun _ d h => h.scanAll d) (fun _ d e h => h.handle d e)
    (fun _ d tag name h => h.renameAtOnce d tag name) (fun _ key order h => h.setSorting key order) h q

end Reached

/-- **Every reachable index is well-formed.** Whatever requests a service got, on whatever disks, and
    whichever of them failed: no key of its index occurs twice, every record names the document that it is
    stored under, and its occurrences are tags that stand in source order and apart from each other. What
    reports, tools and endpoints do leads to such services again. -/
theorem reached_wellFormed {sv : Service} (h : Reached sv) :
    sv.index.keys.Nodup ∧ (∀ e ∈ sv.index.toList, e.2.WellFormed e.1) ∧
      ∀ d, (∀ es, Reached (sv.handleAll d es).1) ∧
        (∀ tag name, Reached (sv.rename d tag name).1.service) ∧
        (∀ c : ToolCall, Reached (c.run ⟨sv, d⟩).1.service) ∧
        ∀ q, Reached (Http.answer ⟨sv, d⟩ q).1.service := by
  refine ⟨sv.index.nodup_keys, ?_, ?_⟩
  · rintro ⟨k, r⟩ he
    obtain ⟨t, rfl⟩ := h.fromScans k r (OrderedMap.get?_eq_some_iff.mpr he)
    exact wellFormed_parseTags t k
  · intro d
    exact ⟨h.handleAll d, h.renameAtOnce d, h.tool d, h.answer d⟩

/-! ## A day with requests that fail -/

/-- The diary was scanned, a deletion was reported that names a path nobody can use behind one that is
    there, and then that day was saved again. -/
def tornDiary : Service :=
  (((Service.scanAll { settings := diary.settings } diaryDisk).1.handle diaryDisk
    ⟨.deleted, ["t.md".toList, ['\x00']], []⟩).1.handle writtenDiary ⟨.saved, ["t.md".toList], []⟩).1

/-- The deletion failed halfway, the day was saved again, and a rename skipped what was written on: all
    the same every record is well-formed. -/
theorem diary_wellFormed :
    ((Service.scanAll { settings := diary.settings } diaryDisk).1.handle diaryDisk
        ⟨.deleted, ["t.md".toList, ['\x00']], []⟩).2.toOption.isNone ∧
      ∃ sv, Reached sv ∧ sv.index.keys = ["/w/m.md".toList, "/w/t.md".toList] ∧
        ∀ e ∈ sv.index.toList, e.2.WellFormed e.1 := by
  have hscanned : Reached (Service.scanAll { settings := diary.settings } diaryDisk).1 :=
    (Reached.start rfl).scanAll diaryDisk
  have htorn : Reached tornDiary := (hscanned.handle diaryDisk _).handle writtenDiary _
  have hrenamed := htorn.rename diaryDisk writtenDiary "#a".toList "long".toList
  refine ⟨by cbv, _, hrenamed, ?_, (reached_wellFormed hrenamed).2.1⟩
  cbv

end HashtagIndex
