/-!
# `HashtagIndex.Collection.OrderedMap` — finite maps that remember insertion order

A map holds at most one value per key and lists its keys in the order of their first insertion since
they were last absent. Writing to a key that is present keeps its place; erasing it and writing
again moves it to the end.

## Contents
- `OrderedMap` with `empty`, `insert`, `erase`, `ofList`.
- The views `get?`, `keys`, `size`, `contains`, `toList`.
- `keys_insert`, `keys_erase`, `get?_insert`, `get?_erase`: each operation through the views.
-/

namespace HashtagIndex

/-- Write a value under a key: in place if the key is present, at the end otherwise. -/
def putEntry [DecidableEq κ] (k : κ) (v : ν) : List (κ × ν) → List (κ × ν)
  | [] => [(k, v)]
  | (k', v') :: r => if k' = k then (k', v) :: r else (k', v') :: putEntry k v r

theorem keys_putEntry [DecidableEq κ] (k : κ) (v : ν) (es : List (κ × ν)) :
    (putEntry k v es).map Prod.fst =
      if k ∈ es.map Prod.fst then es.map Prod.fst else es.map Prod.fst ++ [k] := by
  induction es with
  | nil => simp [putEntry]
  | cons e r ih =>
    obtain ⟨k', v'⟩ := e
    by_cases h : k' = k
    · simp [putEntry, h]
    · have h' : k ≠ k' := fun e => h e.symm
      by_cases hr : k ∈ r.map Prod.fst
      · simp only [putEntry, if_neg h, List.map_cons, ih, List.mem_cons, h', hr, or_true, if_true]
      · simp only [putEntry, if_neg h, List.map_cons, ih, List.mem_cons, h', hr, or_self, if_false,
          List.cons_append]

theorem nodup_putEntry [DecidableEq κ] (k : κ) (v : ν) {es : List (κ × ν)}
    (h : (es.map Prod.fst).Nodup) : ((putEntry k v es).map Prod.fst).Nodup := by
  rw [keys_putEntry]
  split
  · exact h
  · next hk =>
    rw [List.nodup_append]
    exact ⟨h, by simp, fun a ha b hb e => hk (by simp_all)⟩

theorem lookup_cons_eq_ite [DecidableEq κ] (k j : κ) (v : ν) (es : List (κ × ν)) :
    ((k, v) :: es).lookup j = if j = k then some v else es.lookup j := by
  by_cases h : j = k
  · simp [h]
  · simp [List.lookup_cons, h, show (j == k) = false by simpa using h]

theorem lookup_putEntry [DecidableEq κ] (k j : κ) (v : ν) (es : List (κ × ν)) :
    (putEntry k v es).lookup j = if j = k then some v else es.lookup j := by
  induction es with
  | nil => by_cases h : j = k <;> simp [putEntry, lookup_cons_eq_ite, h]
  | cons e r ih =>
    obtain ⟨k', v'⟩ := e
    by_cases h : k' = k
    · subst h
      by_cases hj : j = k' <;> simp [putEntry, lookup_cons_eq_ite, hj]
    · by_cases hj : j = k'
      · subst hj
        simp [putEntry, h]
      · simp [putEntry, h, lookup_cons_eq_ite, hj, ih]

/-- A finite map whose keys are listed in insertion order. -/
structure OrderedMap (κ : Type u) (ν : Type v) where
  entries : List (κ × ν)
  nodup_keys : (entries.map Prod.fst).Nodup
deriving Repr

namespace OrderedMap

variable {κ : Type u} {ν : Type v}

/-- Maps with the same entries are equal. -/
@[ext] theorem ext {m n : OrderedMap κ ν} (h : m.entries = n.entries) : m = n := by
  cases m; cases n; simp_all

instance [DecidableEq κ] [DecidableEq ν] : DecidableEq (OrderedMap κ ν) := fun m n =>
  decidable_of_iff (m.entries = n.entries) ⟨ext, fun h => h ▸ rfl⟩

/-- The map without keys. -/
def empty : OrderedMap κ ν := ⟨[], List.nodup_nil⟩

instance : EmptyCollection (OrderedMap κ ν) := ⟨empty⟩

instance : Inhabited (OrderedMap κ ν) := ⟨empty⟩

/-- The entries in insertion order. -/
def toList (m : OrderedMap κ ν) : List (κ × ν) := m.entries

/-- The keys in insertion order. -/
def keys (m : OrderedMap κ ν) : List κ := m.entries.map Prod.fst

/-- The values in insertion order of their keys. -/
def values (m : OrderedMap κ ν) : List ν := m.entries.map Prod.snd

/-- The number of keys. -/
def size (m : OrderedMap κ ν) : Nat := m.entries.length

/-- Keep the keys that satisfy a test. -/
def filterKeys (m : OrderedMap κ ν) (p : κ → Bool) : OrderedMap κ ν :=
  ⟨m.entries.filter (p ·.1), m.nodup_keys.sublist (List.filter_sublist.map _)⟩

theorem keys_filterKeys (m : OrderedMap κ ν) (p : κ → Bool) :
    (m.filterKeys p).keys = m.keys.filter p := by
  simp only [keys, filterKeys]
  induction m.entries with
  | nil => rfl
  | cons e r ih => by_cases h : p e.1 <;> simp [h, ih]

variable [DecidableEq κ]

/-- The value stored under a key. -/
def get? (m : OrderedMap κ ν) (k : κ) : Option ν := m.entries.lookup k

/-- Whether a key is present. -/
def contains (m : OrderedMap κ ν) (k : κ) : Bool := m.keys.contains k

/-- Store a value under a key. -/
def insert (m : OrderedMap κ ν) (k : κ) (v : ν) : OrderedMap κ ν :=
  ⟨putEntry k v m.entries, nodup_putEntry k v m.nodup_keys⟩

/-- Drop a key. -/
def erase (m : OrderedMap κ ν) (k : κ) : OrderedMap κ ν := m.filterKeys (· ≠ k)

/-- The map of a list of entries; of several with one key the last value counts, at the place of
the first. -/
def ofList (es : List (κ × ν)) : OrderedMap κ ν := es.foldl (fun m e => m.insert e.1 e.2) empty

theorem keys_insert (m : OrderedMap κ ν) (k : κ) (v : ν) :
    (m.insert k v).keys = if k ∈ m.keys then m.keys else m.keys ++ [k] :=
  keys_putEntry k v m.entries

theorem get?_insert (m : OrderedMap κ ν) (k j : κ) (v : ν) :
    (m.insert k v).get? j = if j = k then some v else m.get? j :=
  lookup_putEntry k j v m.entries

theorem get?_filterKeys (m : OrderedMap κ ν) (p : κ → Bool) (j : κ) :
    (m.filterKeys p).get? j = if p j then m.get? j else none := by
  simp only [get?, filterKeys]
  induction m.entries with
  | nil => simp
  | cons e r ih =>
    obtain ⟨k, v⟩ := e
    by_cases hk : p k
    · rw [List.filter_cons_of_pos (by simpa using hk), lookup_cons_eq_ite, lookup_cons_eq_ite, ih]
      by_cases hj : j = k <;> simp [hj, hk]
    · rw [List.filter_cons_of_neg (by simpa using hk), lookup_cons_eq_ite, ih]
      by_cases hj : j = k <;> simp [hj, hk]

theorem keys_erase (m : OrderedMap κ ν) (k : κ) :
    (m.erase k).keys = m.keys.filter (· ≠ k) := keys_filterKeys m (· ≠ k)

theorem get?_erase (m : OrderedMap κ ν) (k j : κ) :
    (m.erase k).get? j = if j = k then none else m.get? j := by
  rw [erase, get?_filterKeys]
  by_cases h : j = k <;> simp [h]

end OrderedMap

end HashtagIndex
