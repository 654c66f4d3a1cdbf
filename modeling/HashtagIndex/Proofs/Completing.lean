import HashtagIndex.Proofs.Answering
import HashtagIndex.Proofs.Forgetting
import HashtagIndex.Proofs.Reachability

/-!
# `Proofs.Completing` — what is offered while a tag is typed

A completion looks at the node in front of the last slash of a typed text and offers its children. Which
node that is depends on the text alone, and what the children are on the snapshot alone, so the two are
said apart:

* **The node** (`complete_append_slash`): behind `p/` it is the one at the path that reading `p` twice
  gives. References read `p` once. The two look at the same node of every hierarchy unless a hash sign
  is repeated in front of `p`; then there is a hierarchy in which they do not
  (`completion_addresses_references`).
* **The children** (`Completes`): one for each segment that some tag of the snapshot has next, with the
  counts of the node at that path.

## Contents
- `Node.offered`, `complete_append_slash`, `complete_of_not_mem`: from typed texts to paths.
- `Node.find?_append`, `mem_children_iff`: children are where their names lead.
- `mem_offered_iff`, `nodup_names_offered`: what is offered at a path.
- `completion_addresses_references`, and a note in which it matters.
- `Completes`, `TypedBehind`, `completion_exact`: what is offered behind a path; the diary, and a tag that
  is too deep.
-/

namespace HashtagIndex

/-! ## From typed texts to paths -/

namespace Node

/-- The children of the node at a path, as completions; nothing where no node is. -/
def offered (root : Node) (p : TagPath) : List Completion :=
  match root.find? p with
  | none => []
  | some n => n.children.map (·.2.toCompletion)

theorem offered_of_find? {root n : Node} {p : TagPath} (h : root.find? p = some n) :
    root.offered p = n.children.map (·.2.toCompletion) := by
  unfold offered
  rw [h]

theorem complete_eq (root : Node) (typed : Text) :
    root.complete typed = root.offered (splitTag ((dropHash typed.trim).beforeLast '/')) := rfl

/-- **Behind a slash** a completion offers what is at the path read twice, whatever follows the slash. -/
theorem complete_append_slash (root : Node) (p : Text) {s : Text} (hs : '/' ∉ s) :
    root.complete (p ++ '/' :: s) = root.offered (splitTag (dropHash p.trim)) := by
  rw [complete_eq, splitTag_beforeLast hs]

/-- Without a slash a completion offers the outermost segments, whatever is typed. -/
theorem complete_of_not_mem (root : Node) {typed : Text} (h : '/' ∉ typed) :
    root.complete typed = root.offered [] := by
  rw [complete_eq, splitTag_beforeLast_of_not_mem h]

/-! ## Children are where their names lead -/

/-- Going down a path is going down its front and from there the rest. -/
theorem find?_append (n : Node) (p q : TagPath) :
    n.find? (p ++ q) = (n.find? p).bind fun m => m.find? q := by
  induction p generalizing n with
  | nil => rfl
  | cons s p ih =>
    rw [List.cons_append, find?, find?]
    cases n.children.lookup s with
    | none => rfl
    | some c => exact ih c

theorem find?_concat {root n : Node} {p : TagPath} (h : root.find? p = some n) (x : Text) :
    root.find? (p ++ [x]) = n.children.lookup x := by
  rw [find?_append, h, Option.bind_some, find?]
  cases n.children.lookup x <;> rfl

end Node

section Offered

variable {s : Index} {sorting : Sorting} {p : TagPath} {n : Node}

/-- **A child stands where its key leads**, and every node one step further is a child. -/
theorem mem_children_iff (h : (buildTree s sorting).find? p = some n) {x : Text} {m : Node} :
    (x, m) ∈ n.children ↔ (buildTree s sorting).find? (p ++ [x]) = some m := by
  rw [Node.find?_concat h]
  obtain ⟨-, rfl⟩ := (find?_buildTree s sorting p n).mp h
  exact (lookup_eq_some_iff_mem (nodup_names_children _ _ _ _)).symm

/-- A child is named by its key and knows the path above it. -/
theorem named_of_find?_concat {x : Text} {m : Node}
    (h : (buildTree s sorting).find? (p ++ [x]) = some m) : m.name = x ∧ m.parentPath = p := by
  have hnamed := (isAggregate_buildTree s sorting).named _ m h (by simp)
  obtain ⟨hparent, hname⟩ := List.append_inj' hnamed rfl
  exact ⟨(List.singleton_inj.mp hname).symm, hparent.symm⟩

/-- **What is offered at a path** is what stands one step further. -/
theorem mem_offered_iff {c : Completion} : c ∈ (buildTree s sorting).offered p ↔
    ∃ m, (buildTree s sorting).find? (p ++ [c.name]) = some m ∧ m.toCompletion = c := by
  unfold Node.offered
  cases hfind : (buildTree s sorting).find? p with
  | none =>
    simp [Node.find?_append, hfind]
  | some n =>
    simp only [List.mem_map, Prod.exists, mem_children_iff hfind]
    constructor
    · rintro ⟨x, m, hm, rfl⟩
      have hname : m.toCompletion.name = x := (named_of_find?_concat hm).1
      exact ⟨m, hname ▸ hm, rfl⟩
    · rintro ⟨m, hm, hc⟩
      exact ⟨c.name, m, hm, hc⟩

/-- No name is offered twice. -/
theorem nodup_names_offered (s : Index) (sorting : Sorting) (p : TagPath) :
    (((buildTree s sorting).offered p).map (·.name)).Nodup := by
  cases hfind : (buildTree s sorting).find? p with
  | none => simp [Node.offered, hfind]
  | some n =>
    have hnames : ((buildTree s sorting).offered p).map (·.name) = n.children.map Prod.fst := by
      rw [Node.offered_of_find? hfind, List.map_map]
      apply List.map_congr_left
      rintro ⟨x, m⟩ hm
      exact (named_of_find?_concat ((mem_children_iff hfind).mp hm)).1
    rw [hnames]
    obtain ⟨-, rfl⟩ := (find?_buildTree s sorting p n).mp hfind
    exact nodup_names_children _ _ _ _

/-- **A name is offered once if some tag has it next**, and else not at all. -/
theorem count_name_offered (s : Index) (sorting : Sorting) (p : TagPath) (x : Text) :
    (((buildTree s sorting).offered p).map (·.name)).count x = 1 ↔
      ∃ k q, s.HasTag k q ∧ p ++ [x] <+: q := by
  have hmem : x ∈ ((buildTree s sorting).offered p).map (·.name) ↔
      ∃ k q, s.HasTag k q ∧ p ++ [x] <+: q := by
    have hleads := (isAggregate_buildTree s sorting).leads (p ++ [x])
    rw [or_iff_right (by simp)] at hleads
    rw [← hleads, List.mem_map]
    constructor
    · rintro ⟨c, hc, rfl⟩
      obtain ⟨m, hm, -⟩ := mem_offered_iff.mp hc
      exact ⟨m, hm⟩
    · rintro ⟨m, hm⟩
      have hname : m.toCompletion.name = x := (named_of_find?_concat hm).1
      exact ⟨m.toCompletion, mem_offered_iff.mpr ⟨m, by rwa [hname], rfl⟩, hname⟩
  rw [← hmem, (nodup_names_offered s sorting p).count]
  simp

/-- What is offered under a name has the path that the name completes. -/
theorem fullPath_of_mem_offered {c : Completion} (hc : c ∈ (buildTree s sorting).offered p)
    (hname : c.name ≠ []) : c.fullPath = p ++ [c.name] := by
  obtain ⟨m, hm, rfl⟩ := mem_offered_iff.mp hc
  obtain ⟨-, hparent⟩ := named_of_find?_concat hm
  show m.fullPath = p ++ [m.name]
  have hname : m.name ≠ [] := hname
  rw [Node.fullPath, if_neg hname, hparent]

end Offered

/-! ## Completion and references -/

/-- A snapshot of one document with one tag at a path. -/
def soleSnapshot (p : TagPath) : Index :=
  .ofRecords [⟨['n'], [⟨p, ['n'], ⟨⟨0, 0⟩, ⟨0, (writtenTag p).length⟩⟩⟩]⟩]

theorem hasTag_soleSnapshot (p : TagPath) : (soleSnapshot p).HasTag ['n'] p :=
  ⟨_, rfl, _, List.mem_singleton.mpr rfl, rfl⟩

/-- Different paths are told apart by what some hierarchy offers there: one that has a tag beneath the
    first of them. -/
theorem offered_ne {p q : TagPath} (h : p ≠ q) :
    (buildTree (soleSnapshot (p ++ [['x']])) {}).offered p ≠
      (buildTree (soleSnapshot (p ++ [['x']])) {}).offered q := by
  intro heq
  have hcount : (((buildTree (soleSnapshot (p ++ [['x']])) {}).offered p).map (·.name)).count ['x'] = 1 :=
    (count_name_offered _ _ p ['x']).mpr ⟨_, _, hasTag_soleSnapshot _, List.prefix_rfl⟩
  obtain ⟨c, hc, hname⟩ := List.mem_map.mp (List.count_pos_iff.mp (hcount ▸ Nat.one_pos))
  have hne : c.name ≠ [] := by
    rw [hname]
    simp
  -- the same completion has one path
  have hp := fullPath_of_mem_offered hc hne
  have hq := fullPath_of_mem_offered (heq ▸ hc) hne
  exact h (List.append_cancel_right (hp.symm.trans hq))

/-- **A completion behind `p/` looks at the node that references of `p` look up, unless `p` repeats its hash
    sign.** It always looks at the node where `p` leads when it is read twice, whatever is typed behind the
    slash. References read `p` once. The two agree in every hierarchy if and only if no hash sign in front
    of `p` is followed by another one or by a blank. -/
theorem completion_addresses_references (p : Text) :
    (∀ (root : Node) (s : Text), '/' ∉ s →
      root.complete (p ++ '/' :: s) = root.offered (splitTag (dropHash p.trim))) ∧
    ((∀ (root : Node) (s : Text), '/' ∉ s →
      root.complete (p ++ '/' :: s) = root.offered (splitTag p)) ↔ ¬RepeatsHash p) := by
  refine ⟨fun root s hs => root.complete_append_slash p hs, ?_, ?_⟩
  · intro hagree hrepeats
    apply offered_ne hrepeats.splitTag_ne
    rw [← hagree _ [] (by simp), Node.complete_append_slash _ p (by simp)]
  · intro hnot root s hs
    rw [root.complete_append_slash p hs, splitTag_dropHash_trim_iff.mpr hnot]

/-- The hierarchy of one note with a nested tag. -/
def nestedTree : Node := buildTree (.ofRecords [scanned "a.md" "#a/b"]) {}

/-- With one hash sign in front, and with blanks around it and around what follows the slash, the completion
    is that of the node that references look up. -/
theorem nestedTree_completed :
    nestedTree.complete " #a / b ".toList = nestedTree.offered (splitTag " #a ".toList) ∧
      nestedTree.offered (splitTag " #a ".toList) = [⟨['b'], [['a'], ['b']], 1, 1⟩] := by
  have hagree := (completion_addresses_references " #a ".toList).2.mpr (by decide)
  exact ⟨hagree nestedTree " b ".toList (by decide), by cbv⟩

/-- With two hash signs in front references look up no node, and the completion offers a child. -/
theorem nestedTree_completed_twice :
    nestedTree.find? (splitTag "##a".toList) = none ∧
      nestedTree.complete ("##a".toList ++ '/' :: []) = [⟨['b'], [['a'], ['b']], 1, 1⟩] ∧
      ¬∀ s : Text, '/' ∉ s →
        nestedTree.complete ("##a".toList ++ '/' :: s) = nestedTree.offered (splitTag "##a".toList) := by
  have hnode : nestedTree.find? (splitTag "##a".toList) = none := by cbv
  have hoffered : nestedTree.complete ("##a".toList ++ '/' :: []) =
      [⟨['b'], [['a'], ['b']], 1, 1⟩] := by cbv
  refine ⟨hnode, hoffered, ?_⟩
  intro hagree
  have hnone := hagree [] (by simp)
  rw [hoffered, Node.offered, hnode] at hnone
  cases hnone

/-! ## Completion and the snapshot -/

/-- What a completion behind a path owes to a snapshot: each segment that some tag has next is offered once
    and no other one, with its path and the numbers of documents and of distinct tags at or below it. -/
structure Completes (s : Index) (p : TagPath) (cs : List Completion) : Prop where
  once : ∀ x, (cs.map (·.name)).count x = 1 ↔ ∃ k q, s.HasTag k q ∧ p ++ [x] <+: q
  only : ∀ c ∈ cs, ∃ k q, s.HasTag k q ∧ p ++ [c.name] <+: q
  fullPath : ∀ c ∈ cs, c.fullPath = p ++ [c.name]
  fileCount : ∀ c ∈ cs,
    (c.fileCount : ℕ∞) = {k | ∃ q, s.HasTag k q ∧ p ++ [c.name] <+: q}.encard
  tagCount : ∀ c ∈ cs,
    (c.tagCount : ℕ∞) = {q | (∃ k, s.HasTag k q) ∧ p ++ [c.name] <+: q}.encard

/-- **What is offered at a path is what the snapshot has next**, if it comes from scans: then no segment is
    empty. -/
theorem completes_offered {s : Index} (hs : FromScans s) (sorting : Sorting) (p : TagPath) :
    Completes s p ((buildTree s sorting).offered p) := by
  have honly : ∀ c ∈ (buildTree s sorting).offered p, ∃ k q, s.HasTag k q ∧ p ++ [c.name] <+: q := by
    intro c hc
    have hcount := List.count_eq_one_of_mem (nodup_names_offered s sorting p) (List.mem_map_of_mem hc)
    exact (count_name_offered s sorting p c.name).mp hcount
  refine ⟨count_name_offered s sorting p, honly, ?_, ?_, ?_⟩
  · intro c hc
    obtain ⟨k, q, htag, hprefix⟩ := honly c hc
    have hmem : c.name ∈ q := hprefix.subset (by simp)
    have hsegment := (hs.validPath_of_hasTag htag).2 c.name hmem
    exact fullPath_of_mem_offered hc (isSegment_iff.mp hsegment).1
  · intro c hc
    obtain ⟨m, hm, hcompletion⟩ := mem_offered_iff.mp hc
    rw [← (isAggregate_buildTree s sorting).fileCount _ m hm, ← hcompletion]
    rfl
  · intro c hc
    obtain ⟨m, hm, hcompletion⟩ := mem_offered_iff.mp hc
    rw [← (isAggregate_buildTree s sorting).tagCount _ m hm, ← hcompletion]
    rfl

/-- Someone types behind a path: with or without a hash sign in front, the segments of the path, a slash,
    and any text without a slash; or just that text where the path is empty. -/
def TypedBehind (p : TagPath) (typed : Text) : Prop :=
  ∃ front rest, (front = [] ∨ front = ['#']) ∧ '/' ∉ rest ∧
    typed = front ++ if p = [] then rest else joinSegments p ++ '/' :: rest

/-- **Behind a path** a completion offers what is at that path. -/
theorem TypedBehind.complete_eq {p : TagPath} {typed : Text} (h : TypedBehind p typed)
    (hp : ∀ u ∈ p, isSegment u = true) (root : Node) : root.complete typed = root.offered p := by
  obtain ⟨front, rest, hfront, hrest, rfl⟩ := h
  by_cases hnil : p = []
  · subst hnil
    rw [if_pos rfl]
    apply Node.complete_of_not_mem
    rcases hfront with rfl | rfl
    · exact hrest
    · simp [hrest]
  · have hvalid : ValidPath p := ⟨hnil, hp⟩
    rw [if_neg hnil]
    rcases hfront with rfl | rfl
    · rw [List.nil_append, root.complete_append_slash _ hrest,
        trim_eq_self hvalid.isBlank_of_mem_join, hvalid.dropHash_join, hvalid.splitTag_join]
    · show root.complete (writtenTag p ++ '/' :: rest) = root.offered p
      rw [root.complete_append_slash _ hrest, hvalid.trim_writtenTag]
      show root.offered (splitTag (joinSegments p)) = root.offered p
      rw [hvalid.splitTag_join]

/-- **Completion is exact.** In the hierarchy of a snapshot from scans, which is built unless a tag has too
    many segments, whoever types behind a path that documents can spell is offered each segment that some
    tag has next, once, and nothing else, with its path and its counts; and this depends on neither a hash
    sign in front nor what is typed behind the last slash. -/
theorem completion_exact {s : Index} (hs : FromScans s) (sorting : Sorting) :
    (buildTree? s sorting = none ↔ ∃ k q, s.HasTag k q ∧ mostSegments < q.length) ∧
    ∀ root, buildTree? s sorting = some root → ∀ p : TagPath, (∀ u ∈ p, isSegment u = true) →
      (∀ typed, TypedBehind p typed → Completes s p (root.complete typed)) ∧
      ∀ typed typed', TypedBehind p typed → TypedBehind p typed' →
        root.complete typed = root.complete typed' := by
  refine ⟨buildTree?_eq_none_iff s sorting, fun root hroot p hp => ⟨?_, ?_⟩⟩
  · intro typed htyped
    rw [htyped.complete_eq hp, eq_buildTree_of_buildTree? hroot]
    exact completes_offered hs sorting p
  · intro typed typed' htyped htyped'
    rw [htyped.complete_eq hp, htyped'.complete_eq hp]

/-- Behind the tag of the diary its one nested tag is offered, though another tag begins with the same
    letter. -/
theorem diary_completed :
    ∃ root, buildTree? diary.index ⟨.countTags, .desc⟩ = some root ∧
      Completes diary.index [['a']] (root.complete "#a/ late ".toList) ∧
      root.complete "#a/ late ".toList = root.complete "a/".toList ∧
      root.complete "a/".toList = [⟨['b'], [['a'], ['b']], 1, 1⟩] := by
  have hdepth : depthOf (sightings diary.index) = 2 := by cbv
  have hbuilt := @buildTree?_of_depthOf_le diary.index (by rw [hdepth]; decide) ⟨.countTags, .desc⟩
  obtain ⟨hcompletes, hsame⟩ := (completion_exact inStep_diary.fromScans _).2 _ hbuilt [['a']] (by decide)
  have hwith : TypedBehind [['a']] "#a/ late ".toList := ⟨['#'], " late ".toList, .inr rfl, by decide, rfl⟩
  have hwithout : TypedBehind [['a']] "a/".toList := ⟨[], [], .inl rfl, by decide, rfl⟩
  exact ⟨_, hbuilt, hcompletes _ hwith, hsame _ _ hwith hwithout, by cbv⟩

/-! ## A tag that is too deep -/

theorem length_joinSegments_replicate (n : Nat) :
    (joinSegments (List.replicate (n + 1) ['a'])).length = 2 * n + 1 := by
  induction n with
  | zero => rfl
  | succ n ih =>
    rw [List.replicate_succ, List.replicate_succ, joinSegments_cons_cons, ← List.replicate_succ,
      List.length_append, List.length_singleton, List.length_cons, ih]
    omega

/-- The snapshot with the tag that is too deep comes from scanning a document that holds just that tag. -/
theorem fromScans_deepSnapshot : FromScans deepSnapshot := by
  have hvalid : ValidPath deepPath := by
    refine ⟨List.cons_ne_nil _ _, ?_⟩
    intro s hs
    rw [List.eq_of_mem_replicate hs]
    decide
  have hlength : (writtenTag deepPath).length = 3000 := by
    rw [writtenTag, List.length_cons, deepPath, length_joinSegments_replicate]
  have hscanned := FromScans.empty.upsert (writtenTag deepPath) "a.md".toList
  rw [hvalid.parseTags_writtenTag, hlength] at hscanned
  exact hscanned

/-- Such a document leaves every completion without an answer, even that of the outermost segments, of which
    its tag has one. -/
theorem not_completed_deepSnapshot : FromScans deepSnapshot ∧
    (∃ k q, deepSnapshot.HasTag k q ∧ [] ++ [['a']] <+: q) ∧
    ∀ sorting typed, (buildTree? deepSnapshot sorting).map (·.complete typed) = none := by
  refine ⟨fromScans_deepSnapshot, ⟨_, _, hasTag_deepSnapshot, ?_⟩, fun sorting typed => ?_⟩
  · exact ⟨List.replicate 1499 ['a'], rfl⟩
  · rw [buildTree?_deepSnapshot]
    rfl

end HashtagIndex
