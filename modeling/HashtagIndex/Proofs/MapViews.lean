import HashtagIndex.Collection.OrderedMap

/-!
# `Proofs.MapViews` — the views of a map agree

A map can be looked at through look-ups, keys and entries. What is said through one view is carried over
to the others here. `mapValues` replaces every value without moving a key, and a map that is filled with the
entries of another one is that one (`ofList_toList`).
-/

namespace HashtagIndex.OrderedMap

variable {κ : Type u} {ν : Type v} {μ : Type w}

/-- A map with every value replaced by a function of it. -/
def mapValues (m : OrderedMap κ ν) (f : ν → μ) : OrderedMap κ μ :=
  ⟨m.entries.map fun e => (e.1, f e.2), by rw [List.map_map]; exact m.nodup_keys⟩

theorem keys_mapValues (m : OrderedMap κ ν) (f : ν → μ) : (m.mapValues f).keys = m.keys := by
  show (m.entries.map fun e => (e.1, f e.2)).map Prod.fst = m.entries.map Prod.fst
  rw [List.map_map]
  rfl

theorem filterKeys_filterKeys (m : OrderedMap κ ν) (p q : κ → Bool) :
    (m.filterKeys p).filterKeys q = m.filterKeys fun k => q k && p k :=
  OrderedMap.ext List.filter_filter

theorem filterKeys_true (m : OrderedMap κ ν) : (m.filterKeys fun _ => true) = m :=
  OrderedMap.ext (List.filter_eq_self.mpr fun _ _ => rfl)

variable [DecidableEq κ] {m : OrderedMap κ ν} {k : κ}

/-- Looking up finds the entry with a key. -/
theorem get?_eq_some_iff {v : ν} : m.get? k = some v ↔ (k, v) ∈ m.toList := by
  obtain ⟨es, hnodup⟩ := m
  show es.lookup k = some v ↔ (k, v) ∈ es
  induction es with
  | nil => simp
  | cons e r ih =>
    obtain ⟨k', v'⟩ := e
    rw [List.map_cons, List.nodup_cons] at hnodup
    rw [lookup_cons_eq_ite, List.mem_cons]
    by_cases h : k = k'
    · subst h
      have hno : (k, v) ∉ r := fun hm => hnodup.1 (List.mem_map.mpr ⟨_, hm, rfl⟩)
      simp [hno, eq_comm]
    · simp [h, ih hnodup.2]

theorem mem_keys_iff : k ∈ m.keys ↔ ∃ v, m.get? k = some v := by
  simp only [get?_eq_some_iff, keys, List.mem_map]
  constructor
  · rintro ⟨e, he, rfl⟩
    exact ⟨e.2, he⟩
  · rintro ⟨v, hv⟩
    exact ⟨(k, v), hv, rfl⟩

theorem contains_iff_mem_keys : m.contains k = true ↔ k ∈ m.keys := List.contains_iff_mem

/-- Maps that look-ups find something in under the same keys have the same keys. -/
theorem mem_keys_congr {m' : OrderedMap κ μ} (habsent : ∀ k, m.get? k = none → m'.get? k = none)
    (hthere : ∀ k v, m.get? k = some v → ∃ v', m'.get? k = some v') : k ∈ m'.keys ↔ k ∈ m.keys := by
  rw [mem_keys_iff, mem_keys_iff]
  constructor
  · rintro ⟨v', hv'⟩
    cases hv : m.get? k with
    | none => exact absurd ((habsent k hv).symm.trans hv') nofun
    | some v => exact ⟨v, rfl⟩
  · rintro ⟨v, hv⟩
    exact hthere k v hv

theorem get?_mapValues (m : OrderedMap κ ν) (f : ν → μ) (k : κ) :
    (m.mapValues f).get? k = (m.get? k).map f := by
  show (m.entries.map fun e => (e.1, f e.2)).lookup k = (m.entries.lookup k).map f
  induction m.entries with
  | nil => rfl
  | cons e r ih =>
    rw [List.map_cons, lookup_cons_eq_ite, ih, lookup_cons_eq_ite]
    split <;> rfl

/-- Writing a value that a function does not tell from the present one keeps the function's image. -/
theorem mapValues_insert {f : ν → μ} {v w : ν} (hk : m.get? k = some v) (hf : f w = f v) :
    (m.insert k w).mapValues f = m.mapValues f := by
  refine OrderedMap.ext ?_
  show (putEntry k w m.entries).map (fun e => (e.1, f e.2)) = m.entries.map fun e => (e.1, f e.2)
  replace hk : m.entries.lookup k = some v := hk
  generalize m.entries = es at hk
  induction es with
  | nil => simp at hk
  | cons e r ih =>
    obtain ⟨k', v'⟩ := e
    rw [lookup_cons_eq_ite] at hk
    rw [putEntry]
    by_cases h : k' = k
    · rw [if_pos h.symm] at hk
      obtain rfl := Option.some.inj hk
      rw [if_pos h, List.map_cons, List.map_cons, hf]
    · rw [if_neg (Ne.symm h)] at hk
      rw [if_neg h, List.map_cons, List.map_cons, ih hk]

/-- Maps that list the same keys and find the same under each of them are equal. -/
theorem eq_of_keys_of_get? {m n : OrderedMap κ ν} (hkeys : m.keys = n.keys)
    (hget : ∀ k, m.get? k = n.get? k) : m = n := by
  refine OrderedMap.ext ?_
  have hfind : ∀ e ∈ m.entries, n.entries.lookup e.1 = some e.2 := by
    intro e he
    have hm : m.get? e.1 = some e.2 := get?_eq_some_iff.mpr he
    exact (hget e.1).symm.trans hm
  obtain ⟨es, hes⟩ := m
  obtain ⟨us, hus⟩ := n
  replace hkeys : es.map Prod.fst = us.map Prod.fst := hkeys
  show es = us
  refine List.ext_getElem? fun i => ?_
  have hi := congrArg (·[i]?) hkeys
  simp only [List.getElem?_map] at hi
  cases he : es[i]? with
  | none =>
    rw [he, Option.map_none] at hi
    exact (Option.map_eq_none_iff.mp hi.symm).symm
  | some e =>
    rw [he, Option.map_some] at hi
    obtain ⟨u, hu, hkey⟩ := Option.map_eq_some_iff.mp hi.symm
    -- both values are what the key finds
    have hvalue := hfind e (List.mem_of_getElem? he)
    have hvalue' : us.lookup u.1 = some u.2 :=
      (get?_eq_some_iff (m := ⟨us, hus⟩)).mpr (List.mem_of_getElem? hu)
    rw [hkey] at hvalue'
    have hsame : u.2 = e.2 := Option.some.inj (hvalue'.symm.trans hvalue)
    rw [hu, Prod.ext hkey hsame]

/-- Maps that find the same under each key list the same keys, in some order. -/
theorem perm_keys_of_get? {m n : OrderedMap κ ν} (hget : ∀ k, m.get? k = n.get? k) : m.keys.Perm n.keys := by
  refine (List.perm_ext_iff_of_nodup m.nodup_keys n.nodup_keys).mpr ?_
  intro k
  show k ∈ m.keys ↔ k ∈ n.keys
  rw [mem_keys_iff, mem_keys_iff, hget]

/-- An entry with a new key goes to the end. -/
theorem putEntry_of_not_mem {es : List (κ × ν)} (hk : k ∉ es.map Prod.fst) (v : ν) :
    putEntry k v es = es ++ [(k, v)] := by
  induction es with
  | nil => rfl
  | cons e es ih =>
    rw [List.map_cons, List.mem_cons, not_or] at hk
    rw [putEntry, if_neg (Ne.symm hk.1), ih hk.2, List.cons_append]

/-- Writing under new keys, one after the other, appends the entries. -/
theorem entries_foldl_insert {es : List (κ × ν)} {m : OrderedMap κ ν}
    (hnew : ((m.entries ++ es).map Prod.fst).Nodup) :
    (es.foldl (fun m e => m.insert e.1 e.2) m).entries = m.entries ++ es := by
  induction es generalizing m with
  | nil => exact (List.append_nil _).symm
  | cons e es ih =>
    have hkey : e.1 ∉ m.entries.map Prod.fst := by
      intro hmem
      rw [List.map_append, List.nodup_append] at hnew
      exact hnew.2.2 e.1 hmem e.1 (List.mem_map_of_mem (List.mem_cons_self ..)) rfl
    have hinsert : (m.insert e.1 e.2).entries = m.entries ++ [e] := putEntry_of_not_mem hkey e.2
    rw [List.foldl_cons, ih, hinsert, List.append_assoc, List.singleton_append]
    rwa [hinsert, List.append_assoc, List.singleton_append]

/-- A map is made of its own entries. -/
theorem ofList_toList (m : OrderedMap κ ν) : ofList m.toList = m :=
  OrderedMap.ext (entries_foldl_insert (m := empty) m.nodup_keys)

end HashtagIndex.OrderedMap
