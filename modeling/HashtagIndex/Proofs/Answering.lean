import HashtagIndex.Proofs.Aggregation
import HashtagIndex.Proofs.Parsing
import HashtagIndex.Proofs.Renaming
import HashtagIndex.Proofs.TypedTags
import HashtagIndex.Tools

/-!
# `Proofs.Answering` — what one question answers can be asked of the others

The hierarchy shows a tag by its path, an outline by its text, and people type it with or without a hash
sign. References are looked up in the hierarchy, while a rename goes back to the index and reads the
documents again. That all of them mean the same tag and the same places rests on three things. A path
that documents can spell is read back from its text (`ValidPath.splitTag_join`). Every node stands where
its own path leads, and look-ups do not depend on the ordering (`find?_fullPath`). And on a line on which
a tag stands its replacement by another one is another line, so every place of the tag gives an edit
(`planRename_places`).

## Contents
- `ValidPath.front`, `FromScans.validPath_of_hasTag`: the tags of a scanned snapshot.
- `Node.Beneath`, `find?_of_beneath`, `find?_fullPath`: the nodes of a hierarchy.
- `Json.Part`, `exists_node_of_part`, `part_outline`: the objects of an outline.
- `replaceTags_ne`, `mem_plan_iff`, `planRename_places`: the places of a plan.
- `shown_tags_answer`, and the diary.
-/

namespace HashtagIndex

/-! ## The tags of a scanned snapshot -/

/-- What a valid path begins with is valid. -/
theorem ValidPath.front {p q : TagPath} (hq : ValidPath q) (hpq : p <+: q) (hp : p ≠ []) : ValidPath p :=
  ⟨hp, fun s hs => hq.2 s (hpq.subset hs)⟩

theorem FromScans.validPath_of_hasTag {s : Index} (hs : FromScans s) {k : Text} {q : TagPath}
    (h : s.HasTag k q) : ValidPath q := by
  obtain ⟨r, hr, o, ho, rfl⟩ := h
  obtain ⟨t, rfl⟩ := hs k r hr
  obtain ⟨-, l, -, hmatch⟩ := (isParse_parseTags t k).matched o ho
  exact hmatch.segments

/-! ## The nodes of a hierarchy -/

/-- A node stands somewhere beneath another one. -/
inductive Node.Beneath : Node → Node → Prop
  | child {m n : Node} {name : Text} (h : (name, n) ∈ m.children) : Beneath n m
  | deeper {m c n : Node} {name : Text} (h : (name, c) ∈ m.children) (hn : Beneath n c) : Beneath n m

/-- What a path leads to stands beneath the node that it starts from. -/
theorem Node.beneath_of_find? {root n : Node} {p : TagPath} (h : root.find? p = some n)
    (hp : p ≠ []) : n.Beneath root := by
  induction p generalizing root with
  | nil => exact absurd rfl hp
  | cons s rest ih =>
    unfold find? at h
    split at h
    · next c hc =>
      have hmem : (s, c) ∈ root.children := by
        obtain ⟨l₁, l₂, heq, -⟩ := List.lookup_eq_some_iff.mp hc
        rw [heq]
        simp
      cases rest with
      | nil =>
        obtain rfl := Option.some.inj h
        exact .child hmem
      | cons u rest => exact .deeper hmem (ih h (by simp))
    · cases h

/-- A child is what its name leads to. -/
theorem find?_child {sorting : Sorting} {depth : Nat} {path : TagPath} {seen : List Sighting}
    {name : Text} {c : Node} (h : (name, c) ∈ (buildNode sorting depth path seen).children)
    (p : TagPath) : (buildNode sorting depth path seen).find? (name :: p) = c.find? p := by
  have hlookup := (lookup_eq_some_iff_mem (nodup_names_children sorting depth path seen)).mpr h
  rw [Node.find?, hlookup]

/-- **A node beneath another one is where some path leads**, by induction on the way down: a child is
    built like its parent, from what lies below its segment. -/
theorem find?_of_beneath {sorting : Sorting} {depth : Nat} {path : TagPath} {seen : List Sighting}
    (hdepth : ∀ x ∈ seen, x.below.length ≤ depth) {n : Node}
    (h : n.Beneath (buildNode sorting depth path seen)) :
    ∃ p, p ≠ [] ∧ (buildNode sorting depth path seen).find? p = some n := by
  generalize hroot : buildNode sorting depth path seen = root at h
  induction h generalizing depth path seen with
  | @child m n name hn =>
    refine ⟨[name], by simp, ?_⟩
    rw [← hroot] at hn ⊢
    exact find?_child hn []
  | @deeper m c n name hc _ ih =>
    rw [← hroot] at hc ⊢
    have hlookup := (lookup_eq_some_iff_mem (nodup_names_children sorting depth path seen)).mpr hc
    rw [lookup_children sorting depth path hdepth, Option.ite_none_right_eq_some] at hlookup
    obtain ⟨p, -, hp⟩ := ih (length_below_descend_le hdepth name) (Option.some.inj hlookup.2)
    exact ⟨name :: p, by simp, (find?_child hc p).trans hp⟩

/-- **Every node stands where its own path leads**, in every ordering with the same places, and its path
    is one that documents can spell and ends with its name. -/
theorem find?_fullPath {s : Index} (hs : FromScans s) {sorting : Sorting} {n : Node}
    (hn : n.Beneath (buildTree s sorting)) :
    ValidPath n.fullPath ∧ n.fullPath.getLast? = some n.name ∧
      (buildTree s sorting).find? n.fullPath = some n ∧
      ∀ sorting', ∃ n', (buildTree s sorting').find? n.fullPath = some n' ∧
        n'.locations = n.locations := by
  obtain ⟨p, hp, hfind⟩ := find?_of_beneath (depthOf_le_iff.mp (Nat.le_refl _)) hn
  obtain ⟨hreaches, heq⟩ := (find?_buildTree s sorting p n).mp hfind
  obtain ⟨k, q, htag, hprefix⟩ := hreaches.resolve_left hp
  have hvalid : ValidPath p := (hs.validPath_of_hasTag htag).front hprefix hp
  have hlast := List.getLast?_eq_some_getLast hp
  have hnamed : n.name = p.getLast hp := by
    rw [← heq, buildNode_name, hlast, Option.getD_some]
  have hpath : n.fullPath = p := by
    have hsegment : p.getLast hp ≠ [] := (isSegment_iff.mp (hvalid.2 _ (List.getLast_mem hp))).1
    unfold Node.fullPath
    rw [hnamed, if_neg hsegment, ← heq, buildNode_parentPath, List.dropLast_append_getLast]
  rw [hpath]
  refine ⟨hvalid, hlast.trans (congrArg some hnamed.symm), hfind, fun sorting' => ?_⟩
  refine ⟨_, (find?_buildTree s sorting' p _).mpr ⟨hreaches, rfl⟩, ?_⟩
  rw [← heq, buildNode_locations, buildNode_locations]

/-- The places of a node are those that the snapshot has for its tag. -/
theorem mem_locations_iff {s : Index} {sorting : Sorting} {p : TagPath} {n : Node}
    (h : (buildTree s sorting).find? p = some n) {l : Location} :
    l ∈ n.locations ↔ ∃ o ∈ occurrencesOf s p l.file, o.range = l.range := by
  obtain ⟨ks, hks, -, hlocations⟩ := (isAggregate_buildTree s sorting).locations p n h
  rw [hlocations]
  simp only [List.mem_flatMap, List.mem_map]
  constructor
  · rintro ⟨k, -, o, ho, rfl⟩
    exact ⟨o, ho, rfl⟩
  · rintro ⟨o, ho, hrange⟩
    refine ⟨l.file, hks.mem_iff.mpr ?_, o, ho, by rw [hrange]⟩
    exact mem_keys_of_mem_occurrencesOf ho

/-! ## The objects of an outline -/

/-- A value stands somewhere inside another one, or is that one. -/
inductive Json.Part (j : Json) : Json → Prop
  | self : Part j j
  | member {ms : List (String × Json)} {name : String} {v : Json} (h : (name, v) ∈ ms)
      (hv : Part j v) : Part j (.obj ms)
  | item {vs : List Json} {v : Json} (h : v ∈ vs) (hv : Part j v) : Part j (.arr vs)

theorem Json.ofText_injective {t u : Text} (h : Json.ofText t = Json.ofText u) : t = u :=
  String.ofList_injective (Json.str.inj h)

namespace Node

theorem outlineAll_eq_map (depth : Option Nat) (cs : List (Text × Node)) :
    outlineAll depth cs = cs.map fun c => c.2.outline depth := by
  induction cs with
  | nil => rfl
  | cons c cs ih =>
    rw [outlineAll, ih]
    rfl

/-- What an outline is: an object of a node's own members, and behind them at most the children. -/
theorem outline_cases (depth : Option Nat) (n : Node) :
    n.outline depth = .obj n.outlineMembers ∨
      n.outline depth = .obj (n.outlineMembers ++
        [("children", .arr (n.children.map fun c => c.2.outline (depth.map (· - 1))))]) := by
  obtain ⟨name, parentPath, children, fileCount, tagCount, locations⟩ := n
  rw [outline, outlineAll_eq_map]
  split
  · exact .inl rfl
  · exact .inr rfl

/-- An object shows a node: its members are those of the node, and behind them at most children. -/
def ShownBy (n : Node) (ms : List (String × Json)) : Prop :=
  ∃ rest, ms = n.outlineMembers ++ rest ∧ ∀ e ∈ rest, e.1 = "children"

theorem shownBy_of_outline {depth : Option Nat} {n : Node} {ms : List (String × Json)}
    (h : n.outline depth = .obj ms) : n.ShownBy ms := by
  rcases n.outline_cases depth with heq | heq
  · exact ⟨[], by rw [List.append_nil, ← Json.obj.inj (heq.symm.trans h)], by simp⟩
  · exact ⟨_, (Json.obj.inj (heq.symm.trans h)).symm, by simp⟩

/-- No object stands inside a node's own members. -/
theorem not_part_of_mem_outlineMembers {n : Node} {name : String} {v : Json}
    {ms : List (String × Json)} (h : (name, v) ∈ n.outlineMembers) : ¬Json.Part (.obj ms) v := by
  intro hpart
  simp only [outlineMembers, Json.ofText, Json.ofNat, List.mem_cons, Prod.mk.injEq,
    List.not_mem_nil, or_false] at h
  rcases h with ⟨-, rfl⟩ | ⟨-, rfl⟩ | ⟨-, rfl⟩ | ⟨-, rfl⟩ | ⟨-, rfl⟩ <;> cases hpart

/-- **Every object of an outline shows a node**: that of the outline, or one beneath it. -/
theorem exists_node_of_part {ms : List (String × Json)} {whole : Json}
    (h : Json.Part (.obj ms) whole) :
    (∀ depth (n : Node), n.outline depth = whole → ∃ m, (m = n ∨ m.Beneath n) ∧ m.ShownBy ms) ∧
    ∀ depth (cs : List (Text × Node)), .arr (cs.map fun c => c.2.outline depth) = whole →
      ∃ c ∈ cs, ∃ m, (m = c.2 ∨ m.Beneath c.2) ∧ m.ShownBy ms := by
  induction h with
  | self =>
    refine ⟨?_, nofun⟩
    intro depth n heq
    exact ⟨n, .inl rfl, shownBy_of_outline heq⟩
  | member hmem hpart ih =>
    refine ⟨?_, nofun⟩
    intro depth n heq
    rcases n.outline_cases depth with hown | hall
    · rw [Json.obj.inj (heq.symm.trans hown)] at hmem
      exact absurd hpart (not_part_of_mem_outlineMembers hmem)
    · rw [Json.obj.inj (heq.symm.trans hall)] at hmem
      rcases List.mem_append.mp hmem with hmem | hmem
      · exact absurd hpart (not_part_of_mem_outlineMembers hmem)
      · -- the object stands among the children
        obtain ⟨-, rfl⟩ := Prod.mk.inj (List.mem_singleton.mp hmem)
        obtain ⟨⟨name, c⟩, hc, m, hm, hshown⟩ := ih.2 _ n.children rfl
        refine ⟨m, .inr ?_, hshown⟩
        rcases hm with rfl | hm
        · exact .child hc
        · exact .deeper hc hm
  | item hmem _ ih =>
    constructor
    · intro depth n heq
      rcases n.outline_cases depth with hown | hall
      · cases heq.symm.trans hown
      · cases heq.symm.trans hall
    · intro depth cs heq
      obtain rfl := Json.arr.inj heq
      obtain ⟨c, hc, rfl⟩ := List.mem_map.mp hmem
      exact ⟨c, hc, ih.1 depth c.2 rfl⟩

/-- **Every node beneath another one is in its outline**, if that goes down all the way. -/
theorem Beneath.part_outline {root n : Node} (h : n.Beneath root) :
    Json.Part (n.outline none) (root.outline none) := by
  have hchild : ∀ {m c : Node} {name : Text} {j : Json}, (name, c) ∈ m.children →
      Json.Part j (c.outline none) → Json.Part j (m.outline none) := by
    intro m c name j hc hj
    rcases m with ⟨own, parentPath, children, fileCount, tagCount, locations⟩
    rw [outline, if_neg (by simp), outlineAll_eq_map]
    exact .member (List.mem_append_right _ (List.mem_singleton.mpr rfl))
      (.item (List.mem_map.mpr ⟨_, hc, rfl⟩) hj)
  induction h with
  | child hn => exact hchild hn .self
  | deeper hc _ ih => exact hchild hc ih

end Node

/-! ## The places of a plan -/

section Plan

variable {d : Disk} {s : Index} {p q : TagPath} {name : Text}

/-- **Where a tag stands, replacing it by another one changes the line**: the tags of the new line are
    others. -/
theorem replaceTags_ne (hp : ValidPath p) (hq : ValidPath q) (hne : q ≠ p) {file l : Text} {n : Nat}
    {o : Occurrence} (ho : o ∈ tagsInLine file n 0 l) (hpath : o.path = p) :
    replaceTags (writtenTag p) (writtenTag q) l ((tagsInLine file n 0 l).filter (·.path = p)) ≠ l := by
  intro hsame
  have hall := forall₂_retagged hp hq file n l
  rw [hsame] at hall
  have hmoved := (List.forall₂_same.mp hall o ho).path
  rw [if_pos hpath, hpath] at hmoved
  exact hne hmoved.symm

/-- **A plan from what documents hold** has an edit for each line of a document on which the tag stands,
    and for no other line. -/
theorem mem_plan_iff (hp : ValidPath p) (hname : isSegment name = true)
    (hlast : p.getLast? ≠ some name) {file t : Text} (hread : d.readDocument file = .ok t)
    (hrecord : s.get? file = some ⟨file, parseTags t file⟩) (line : Nat) :
    (∃ e ∈ planOf d s p name file, e.line = line) ↔
      ∃ o ∈ occurrencesOf s p file, o.range.start.line = line := by
  have hplaces : occurrencesOf s p file = (parseTags t file).filter (·.path = p) := by
    rw [occurrencesOf, hrecord]
    rfl
  unfold planOf
  simp only [hread]
  rw [hplaces]
  constructor
  · rintro ⟨e, he, rfl⟩
    exact exists_place_of_mem_planLines he
  · rintro ⟨o, ho, rfl⟩
    obtain ⟨ho, hpath⟩ := List.mem_filter.mp ho
    have hpath : o.path = p := by simpa using hpath
    obtain ⟨l, hl, ho⟩ := mem_parseTags_iff.mp ho
    have hchanged := replaceTags_ne hp (hp.renamed hname) (renamedPath_ne hlast) ho hpath
    rw [← filter_occurrences_line hl] at hchanged
    exact ⟨⟨file, _, l, _⟩, mem_planLines.mpr ⟨rfl, hl, rfl, hchanged⟩, rfl⟩

/-- **The places of a plan.** While documents hold what the index says, a rename to another name is
    planned for the lines on which the index has the tag. -/
theorem planRename_places (hd : ∀ k r, s.get? k = some r → recordOf d k = some r) (hp : ValidPath p)
    (hname : checkName name = .ok name) (hlast : p.getLast? ≠ some name) :
    ∃ edits, planRename d s p name = .ok edits ∧ ∀ file line,
      (∃ e ∈ edits, e.file = file ∧ e.line = line) ↔
        ∃ o ∈ occurrencesOf s p file, o.range.start.line = line := by
  have hread : ∀ k ∈ s.keys, ∃ t, d.readDocument k = .ok t ∧ s.get? k = some ⟨k, parseTags t k⟩ := by
    intro k hk
    obtain ⟨r, hr⟩ := OrderedMap.mem_keys_iff.mp hk
    obtain ⟨t, ht, rfl⟩ := recordOf_eq_some.mp (hd k r hr)
    exact ⟨t, ht, hr⟩
  have hkeys : ∀ k ∈ s.keys, '\x00' ∉ k := by
    intro k hk hnul
    obtain ⟨t, ht, -⟩ := hread k hk
    obtain ⟨f, hf⟩ := readDocument_eq_path_iff (d := d).mpr hnul
    cases ht.symm.trans hf
  obtain ⟨edits, hplan, hmem, -⟩ := @planEdits_eq_ok d s p name hkeys
  refine ⟨edits, planRename_of_planEdits hname hp.1 hlast hplan, fun file line => ?_⟩
  constructor
  · rintro ⟨e, he, rfl, rfl⟩
    obtain ⟨hk, he⟩ := (hmem e).mp he
    obtain ⟨t, ht, hrecord⟩ := hread e.file hk
    exact (mem_plan_iff hp (isSegment_of_checkName hname) hlast ht hrecord e.line).mp ⟨e, he, rfl⟩
  · rintro ⟨o, ho, hline⟩
    have hk : file ∈ s.keys := mem_keys_of_mem_occurrencesOf ho
    obtain ⟨t, ht, hrecord⟩ := hread file hk
    obtain ⟨e, he, rfl⟩ :=
      (mem_plan_iff hp (isSegment_of_checkName hname) hlast ht hrecord line).mpr ⟨o, ho, hline⟩
    have hfile : e.file = file := file_of_mem_planOf he
    exact ⟨e, (hmem e).mpr ⟨hfile ▸ hk, hfile ▸ he⟩, hfile, rfl⟩

end Plan

/-! ## Questions about what is shown -/

/-- Whether a hierarchy is built does not depend on the ordering. -/
theorem Service.tree?_of_tree? {sv : Service} {key key' : Option SortKey} {order order' : Option SortOrder}
    {root : Node} (h : sv.tree? key order = some root) :
    sv.tree? key' order' =
      some (buildTree sv.index ⟨key'.getD sv.sorting.key, order'.getD sv.sorting.order⟩) := by
  unfold tree? buildTree? at *
  split at h
  · next hdepth => rw [if_pos hdepth]
  · cases h

/-- **References of a typed tag** are the places of the node at its path. -/
theorem Service.references?_eq {sv : Service} {key : Option SortKey} {order : Option SortOrder}
    {root n : Node} (hs : FromScans sv.index) (htree : sv.tree? key order = some root)
    (hn : n.Beneath root) {tag : Text} (htag : splitTag tag = n.fullPath) :
    sv.references? tag false = some n.locations := by
  obtain rfl := eq_buildTree_of_buildTree? htree
  obtain ⟨hvalid, -, -, hfind⟩ := find?_fullPath hs hn
  unfold references?
  rw [tree?_of_tree? htree, Option.map_some, htag, Node.references, if_neg hvalid.1]
  obtain ⟨n', hn', hlocations⟩ := hfind _
  rw [hn']
  exact congrArg some hlocations

/-- **What an outline says of a tag**: every object with its text tells how many places it has. -/
theorem locations_of_part {s : Index} (hs : FromScans s) {sorting : Sorting} {n : Node}
    (hn : n.Beneath (buildTree s sorting)) {depth : Option Nat} {ms : List (String × Json)}
    (hpart : Json.Part (.obj ms) ((buildTree s sorting).outline depth))
    (hpath : ("path", .ofText (joinSegments n.fullPath)) ∈ ms) :
    ("locations", .ofNat n.locations.length) ∈ ms := by
  obtain ⟨hvalid, -, hfind, -⟩ := find?_fullPath hs hn
  obtain ⟨m, hm, rest, rfl, hrest⟩ := (Node.exists_node_of_part hpart).1 _ _ rfl
  have hsame : joinSegments n.fullPath = joinSegments m.fullPath := by
    rcases List.mem_append.mp hpath with hpath | hpath
    · apply Json.ofText_injective
      simpa [Node.outlineMembers] using hpath
    · exact absurd (hrest _ hpath) (by simp)
  have hmn : m = n := by
    rcases hm with rfl | hm
    · -- the root has no text
      have hempty : joinSegments (buildTree s sorting).fullPath = [] := by
        unfold buildTree Node.fullPath
        rw [buildNode_name, buildNode_parentPath]
        rfl
      rw [hempty] at hsame
      have hread := hvalid.splitTag_join
      rw [hsame] at hread
      exact absurd hread.symm hvalid.1
    · obtain ⟨hvalid', -, hfind', -⟩ := find?_fullPath hs hm
      have hpaths := congrArg splitTag hsame
      rw [hvalid.splitTag_join, hvalid'.splitTag_join] at hpaths
      rw [hpaths] at hfind
      exact Option.some.inj (hfind'.symm.trans hfind)
  rw [hmn]
  apply List.mem_append_left
  simp [Node.outlineMembers]

/-- **What one question shows can be asked of the others.** In an index built by scanning, the text of any
    node of the hierarchy but the root, with or without a hash sign, is read back as the node's path. Its
    references are the node's places, as many as every outline of the hierarchy says under that text. And
    while documents hold what they did when they were scanned, a rename of the node to any other accepted
    name is planned for exactly the lines of these places. -/
theorem shown_tags_answer {sv : Service} {key : Option SortKey} {order : Option SortOrder}
    {root n : Node} (hs : FromScans sv.index) (htree : sv.tree? key order = some root)
    (hn : n.Beneath root) :
    let t := joinSegments n.fullPath
    (splitTag t = n.fullPath ∧ splitTag ('#' :: t) = n.fullPath) ∧
    (sv.references? t false = some n.locations ∧ sv.references? ('#' :: t) false = some n.locations) ∧
    ((∃ ms, Json.Part (.obj ms) (root.outline none) ∧ ("path", .ofText t) ∈ ms) ∧
      ∀ depth payload ms, ToolCall.outline root depth = .ok payload → Json.Part (.obj ms) payload →
        ("path", .ofText t) ∈ ms → ("locations", .ofNat n.locations.length) ∈ ms) ∧
    ∀ d name, (∀ k r, sv.index.get? k = some r → recordOf d k = some r) →
      checkName name = .ok name → name ≠ n.name →
      ∃ edits, planRename d sv.index n.fullPath name = .ok edits ∧
        {x | ∃ e ∈ edits, x = (e.file, e.line)} =
          {x | ∃ l ∈ n.locations, x = (l.file, l.range.start.line)} := by
  have hroot := eq_buildTree_of_buildTree? htree
  have hn' := hn
  rw [hroot] at hn'
  obtain ⟨hvalid, hlast, hfind, -⟩ := find?_fullPath hs hn'
  have hread : splitTag (joinSegments n.fullPath) = n.fullPath := hvalid.splitTag_join
  have hread' : splitTag ('#' :: joinSegments n.fullPath) = n.fullPath := hvalid.splitTag_writtenTag
  refine ⟨⟨hread, hread'⟩, ⟨?_, ?_⟩, ⟨?_, ?_⟩, ?_⟩
  · exact Service.references?_eq hs htree hn hread
  · exact Service.references?_eq hs htree hn hread'
  · rcases n.outline_cases none with hown | hall
    · exact ⟨_, hown ▸ hn.part_outline, by simp [Node.outlineMembers]⟩
    · exact ⟨_, hall ▸ hn.part_outline, by simp [Node.outlineMembers]⟩
  · intro depth payload ms hpayload hpart hpath
    unfold ToolCall.outline at hpayload
    dsimp only at hpayload
    split at hpayload
    · cases hpayload
    · split at hpayload
      · cases hpayload
      · obtain rfl := Except.ok.inj hpayload
        rw [hroot] at hpart
        exact locations_of_part hs hn' hpart hpath
  · intro d name hd hname hne
    have hother : n.fullPath.getLast? ≠ some name := by
      rw [hlast]
      intro hsame
      exact hne (Option.some.inj hsame).symm
    obtain ⟨edits, hplan, hplaces⟩ := planRename_places hd hvalid hname hother
    refine ⟨edits, hplan, ?_⟩
    ext ⟨file, line⟩
    simp only [Set.mem_ofPred_eq, Prod.mk.injEq]
    have hplace := hplaces file line
    constructor
    · rintro ⟨e, he, rfl, rfl⟩
      obtain ⟨o, ho, hline⟩ := hplace.mp ⟨e, he, rfl, rfl⟩
      exact ⟨⟨e.file, o.range⟩, (mem_locations_iff hfind).mpr ⟨o, ho, rfl⟩, rfl, hline.symm⟩
    · rintro ⟨l, hl, rfl, rfl⟩
      obtain ⟨o, ho, hrange⟩ := (mem_locations_iff hfind).mp hl
      obtain ⟨e, he, hfile, hline⟩ := hplace.mpr ⟨o, ho, by rw [hrange]⟩
      exact ⟨e, he, hfile.symm, hline.symm⟩

/-! ## The diary -/

/-- The tag of the diary is shown with four places, all of which its references are; and a rename is planned
    for their three lines. -/
theorem diary_answers :
    ∃ (root n : Node) (edits : List Edit), diary.tree? none (some .desc) = some root ∧ n.Beneath root ∧
      n.fullPath = [['a']] ∧ n.locations.length = 4 ∧
      diary.references? "#a".toList false = some n.locations ∧
      planRename diaryDisk diary.index [['a']] "long".toList = .ok edits ∧ edits.length = 3 ∧
      {x | ∃ e ∈ edits, x = (e.file, e.line)} =
        {x | ∃ l ∈ n.locations, x = (l.file, l.range.start.line)} := by
  have htree : diary.tree? none (some .desc) = some (buildTree diary.index ⟨.name, .desc⟩) := by
    have hdepth : depthOf (sightings diary.index) = 2 := by cbv
    unfold Service.tree? buildTree?
    rw [hdepth]
    rfl
  have hshown : ((buildTree diary.index ⟨.name, .desc⟩).find? [['a']]).map
      (fun n => (n.name, n.parentPath, n.locations.length)) = some (['a'], [], 4) := by cbv
  obtain ⟨n, hfind, heq⟩ := Option.map_eq_some_iff.mp hshown
  simp only [Prod.mk.injEq] at heq
  obtain ⟨hname, hparent, hlength⟩ := heq
  have hn := Node.beneath_of_find? hfind (by simp)
  have hpath : n.fullPath = [['a']] := by
    unfold Node.fullPath
    rw [hname, hparent]
    rfl
  obtain ⟨-, ⟨-, hrefs⟩, -, hplan⟩ := shown_tags_answer inStep_diary.fromScans htree hn
  obtain ⟨edits, hedits, hplaces⟩ := hplan diaryDisk "long".toList (fun _ _ => inStep_diary.recordOf_eq)
    (by decide) (by rw [hname]; decide)
  rw [hpath] at hrefs hedits
  have hcount : (planRename diaryDisk diary.index [['a']] "long".toList).toOption.map (·.length) =
      some 3 := by cbv
  rw [hedits] at hcount
  exact ⟨_, n, edits, htree, hn, hpath, hlength, hrefs, hedits, Option.some.inj hcount, hplaces⟩

end HashtagIndex
