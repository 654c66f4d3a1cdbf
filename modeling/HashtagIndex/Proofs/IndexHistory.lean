import HashtagIndex.Proofs.MapViews
import HashtagIndex.Tag.Index
import Mathlib.Data.List.DropRight
import Mathlib.Data.List.Nodup

/-!
# `Proofs.IndexHistory` — an index is what its history says

An index is made of records and then changed, any number of times. What it holds in the end can be said from
this history alone. The history is written as a list of events, each about one key or about all of them:
making the index stores its records one after the other, and swapping in a mapping empties the index and
stores the entries of the mapping in their order.

* **What is held** (`Index.Follows.holds`): under a key stands the record that was most recently stored there
  since the key was last dropped or the index emptied, and otherwise none.
* **In which order** (`Index.Follows.ordered`): a key is listed by the moment at which it was first stored
  since then.

One event restores both (`Index.Follows.apply`), so every history does, and a history leaves no choice: two
indexes that follow it are equal (`Index.Follows.unique`).

## Contents
- `IndexChange`, `IndexEvent`, `historyOf`: changes, and what happens to the keys.
- `sinceAbsent`, `latestRecord?`, `entryTime`: what a history says of a key, and how one more event changes it.
- `Index.Follows`, its step lemma, its run lemma `Index.Follows.foldl`, and `Index.follows_historyOf`.
- `IndexChange.key?`, `Index.Lawful`: the laws of single changes.
- `index_keeps_history`, and a note that is removed and stored again.
-/

namespace HashtagIndex

/-! ## Changes and histories -/

/-- A change of an index. -/
inductive IndexChange where
  | upsert (r : Record)
  | remove (file : Text)
  | replaceAll (records : Index)
  | clear
deriving Repr, DecidableEq

/-- The index after a change. -/
def IndexChange.apply (ix : Index) : IndexChange → Index
  | .upsert r => ix.upsert r
  | .remove file => (ix.remove file).2
  | .replaceAll records => ix.replaceAll records
  | .clear => ix.clear

/-- The index after changes, one after the other. -/
def Index.after (ix : Index) (cs : List IndexChange) : Index := cs.foldl IndexChange.apply ix

/-- What happens to one key, or to all. -/
inductive IndexEvent where
  | stored (key : Text) (r : Record)
  | dropped (key : Text)
  | emptied
deriving Repr, DecidableEq

/-- What a change makes happen. -/
def IndexChange.events : IndexChange → List IndexEvent
  | .upsert r => [.stored r.file r]
  | .remove file => [.dropped file]
  | .replaceAll records => .emptied :: records.toList.map fun e => .stored e.1 e.2
  | .clear => [.emptied]

/-- The history of an index that was made of records and then changed. -/
def historyOf (rs : List Record) (cs : List IndexChange) : List IndexEvent :=
  rs.map (fun r => .stored r.file r) ++ cs.flatMap IndexChange.events

/-- Whether a key is absent after an event, whatever was there before. -/
def IndexEvent.ends (k : Text) : IndexEvent → Bool
  | .stored _ _ => false
  | .dropped key => key = k
  | .emptied => true

/-- The record that an event stores under a key. -/
def IndexEvent.recordAt? (k : Text) : IndexEvent → Option Record
  | .stored key r => if key = k then some r else none
  | .dropped _ => none
  | .emptied => none

/-- The part of a history since a key was last dropped or the index emptied. -/
def sinceAbsent (k : Text) (h : List IndexEvent) : List IndexEvent := h.rtakeWhile fun e => !e.ends k

/-- The record most recently stored under a key since it was last absent. -/
def latestRecord? (k : Text) (h : List IndexEvent) : Option Record :=
  ((sinceAbsent k h).filterMap (·.recordAt? k)).getLast?

/-- The moment at which a key was first stored since it was last absent: the number of events in front. -/
def entryTime (k : Text) (h : List IndexEvent) : Nat :=
  h.length - (sinceAbsent k h).length + (sinceAbsent k h).findIdx fun e => (e.recordAt? k).isSome

/-! ## One more event -/

section Event

variable {k : Text} {h : List IndexEvent} {e : IndexEvent}

theorem sinceAbsent_concat :
    sinceAbsent k (h ++ [e]) = if e.ends k then [] else sinceAbsent k h ++ [e] := by
  rw [sinceAbsent, List.rtakeWhile_concat]
  cases e.ends k <;> rfl

theorem length_sinceAbsent_le : (sinceAbsent k h).length ≤ h.length :=
  (List.rtakeWhile_suffix _ _).length_le

theorem latestRecord?_concat :
    latestRecord? k (h ++ [e]) = if e.ends k then none else (e.recordAt? k).or (latestRecord? k h) := by
  rw [latestRecord?, sinceAbsent_concat]
  split
  · rfl
  · have hlast : ([e].filterMap (·.recordAt? k)).getLast? = e.recordAt? k := by
      rw [List.filterMap_cons]
      cases e.recordAt? k <;> rfl
    rw [List.filterMap_append, List.getLast?_append, hlast, latestRecord?]

/-- A key has a record if it was stored since it was last absent. -/
theorem isSome_latestRecord? :
    (latestRecord? k h).isSome ↔ ∃ e ∈ sinceAbsent k h, (e.recordAt? k).isSome := by
  rw [latestRecord?, List.getLast?_isSome, ne_eq, List.filterMap_eq_nil_iff]
  push Not
  simp only [Option.isSome_iff_ne_none]

theorem findIdx_lt_of_isSome (hk : (latestRecord? k h).isSome) :
    ((sinceAbsent k h).findIdx fun e => (e.recordAt? k).isSome) < (sinceAbsent k h).length :=
  List.findIdx_lt_length_of_exists (isSome_latestRecord?.mp hk)

/-- A key that has a record was first stored at some moment of the history. -/
theorem entryTime_lt (hk : (latestRecord? k h).isSome) : entryTime k h < h.length := by
  have hfound := findIdx_lt_of_isSome hk
  have hpart := length_sinceAbsent_le (k := k) (h := h)
  unfold entryTime
  omega

/-- A key that has a record keeps its moment, unless the event ends its presence. -/
theorem entryTime_concat_of_isSome (hk : (latestRecord? k h).isSome) (he : e.ends k = false) :
    entryTime k (h ++ [e]) = entryTime k h := by
  have hfound := findIdx_lt_of_isSome hk
  unfold entryTime
  rw [sinceAbsent_concat, he, if_neg Bool.false_ne_true, List.findIdx_append, if_pos hfound,
    List.length_append, List.length_append, Nat.add_sub_add_right]

/-- A key without a record that is stored now has this moment. -/
theorem entryTime_concat_of_eq_none {r : Record} (hk : latestRecord? k h = none) :
    entryTime k (h ++ [.stored k r]) = h.length := by
  have hpart := length_sinceAbsent_le (k := k) (h := h)
  have hnot : ((sinceAbsent k h).findIdx fun e => (e.recordAt? k).isSome) = (sinceAbsent k h).length := by
    rw [List.findIdx_eq_length]
    intro e he
    rw [Bool.eq_false_iff]
    intro hsome
    have hrecord := isSome_latestRecord?.mpr ⟨e, he, hsome⟩
    rw [hk] at hrecord
    cases hrecord
  have hnow : [IndexEvent.stored k r].findIdx (fun e => (e.recordAt? k).isSome) = 0 := by
    simp [IndexEvent.recordAt?]
  unfold entryTime
  rw [sinceAbsent_concat, IndexEvent.ends, if_neg Bool.false_ne_true, List.findIdx_append, hnot,
    if_neg (Nat.lt_irrefl _), hnow, List.length_append, List.length_append, Nat.add_sub_add_right]
  omega

end Event

/-! ## Indexes that follow a history -/

/-- The index after an event. -/
def IndexEvent.apply (ix : Index) : IndexEvent → Index
  | .stored key r => ix.insert key r
  | .dropped key => ix.erase key
  | .emptied => OrderedMap.empty

/-- What is found after an event. -/
theorem IndexEvent.get?_apply (ix : Index) (e : IndexEvent) (k : Text) :
    (e.apply ix).get? k = if e.ends k then none else (e.recordAt? k).or (ix.get? k) := by
  cases e with
  | stored key r =>
    show (ix.insert key r).get? k = (if key = k then some r else none).or (ix.get? k)
    rw [OrderedMap.get?_insert]
    by_cases hk : k = key
    · rw [if_pos hk, if_pos hk.symm, Option.some_or]
    · rw [if_neg hk, if_neg (Ne.symm hk), Option.none_or]
  | dropped key =>
    show (ix.erase key).get? k = if decide (key = k) = true then none else ix.get? k
    rw [OrderedMap.get?_erase]
    by_cases hk : k = key
    · rw [if_pos hk, if_pos (decide_eq_true hk.symm)]
    · rw [if_neg hk, decide_eq_false (Ne.symm hk), if_neg Bool.false_ne_true]
  | emptied => rfl

/-- An index is what a history says: it holds the records most recently stored since their keys were last
    absent, and lists the keys by the moments at which they were first stored since then. -/
structure Index.Follows (ix : Index) (h : List IndexEvent) : Prop where
  holds : ∀ k, ix.get? k = latestRecord? k h
  ordered : ix.keys.Pairwise fun j k => entryTime j h < entryTime k h

namespace Index.Follows

variable {ix : Index} {h : List IndexEvent}

theorem empty : Index.Follows OrderedMap.empty [] := ⟨fun _ => rfl, List.Pairwise.nil⟩

theorem isSome (hix : ix.Follows h) {k : Text} (hk : k ∈ ix.keys) : (latestRecord? k h).isSome := by
  obtain ⟨r, hr⟩ := OrderedMap.mem_keys_iff.mp hk
  rw [← hix.holds, hr]
  rfl

theorem eq_none (hix : ix.Follows h) {k : Text} (hk : k ∉ ix.keys) : latestRecord? k h = none := by
  rw [← hix.holds, Option.eq_none_iff_forall_ne_some]
  intro r hr
  exact hk (OrderedMap.mem_keys_iff.mpr ⟨r, hr⟩)

/-- Keys whose presence an event does not end stay in their order. -/
theorem ordered_concat (hix : ix.Follows h) {e : IndexEvent} {ks : List Text} (hks : ks.Sublist ix.keys)
    (he : ∀ k ∈ ks, e.ends k = false) :
    ks.Pairwise fun j k => entryTime j (h ++ [e]) < entryTime k (h ++ [e]) := by
  refine (hix.ordered.sublist hks).imp_of_mem ?_
  intro j k hj hk hlt
  rwa [entryTime_concat_of_isSome (hix.isSome (hks.subset hj)) (he j hj),
    entryTime_concat_of_isSome (hix.isSome (hks.subset hk)) (he k hk)]

/-- **One event**: the index after it follows the history with it. -/
theorem apply (hix : ix.Follows h) (e : IndexEvent) : (e.apply ix).Follows (h ++ [e]) := by
  refine ⟨?_, ?_⟩
  · intro k
    rw [IndexEvent.get?_apply, latestRecord?_concat, hix.holds]
  · cases e with
    | stored key r =>
      have hold := hix.ordered_concat (e := .stored key r) (List.Sublist.refl _) fun _ _ => rfl
      show (ix.insert key r).keys.Pairwise _
      rw [OrderedMap.keys_insert]
      split
      · exact hold
      · next hnew =>
        -- the new key enters now, and all others entered before
        rw [List.pairwise_append]
        refine ⟨hold, List.pairwise_singleton _ _, ?_⟩
        intro j hj k hk
        obtain rfl := List.mem_singleton.mp hk
        rw [entryTime_concat_of_isSome (hix.isSome hj) rfl, entryTime_concat_of_eq_none (hix.eq_none hnew)]
        exact entryTime_lt (hix.isSome hj)
    | dropped key =>
      show (ix.erase key).keys.Pairwise _
      rw [OrderedMap.keys_erase]
      refine hix.ordered_concat List.filter_sublist ?_
      intro k hk
      have hne : k ≠ key := by simpa using (List.mem_filter.mp hk).2
      simpa [IndexEvent.ends] using Ne.symm hne
    | emptied => exact List.Pairwise.nil

/-- **Any number of events**, by induction along them. -/
theorem foldl (hix : ix.Follows h) (es : List IndexEvent) :
    (es.foldl IndexEvent.apply ix).Follows (h ++ es) := by
  induction es generalizing ix h with
  | nil => rwa [List.append_nil]
  | cons e es ih =>
    have hrest := ih (hix.apply e)
    rwa [List.append_assoc, List.singleton_append] at hrest

/-- **A history leaves no choice.** -/
theorem unique {ix' : Index} (hix : ix.Follows h) (hix' : ix'.Follows h) : ix = ix' := by
  have hget : ∀ k, ix.get? k = ix'.get? k := fun k => (hix.holds k).trans (hix'.holds k).symm
  refine OrderedMap.eq_of_keys_of_get? ?_ hget
  refine (OrderedMap.perm_keys_of_get? hget).eq_of_pairwise ?_ hix.ordered hix'.ordered
  intro j k _ _ hjk hkj
  omega

end Index.Follows

/-! ## Changes, one after the other -/

/-- A change does what its events do. -/
theorem IndexChange.apply_eq_foldl (ix : Index) (c : IndexChange) :
    c.apply ix = c.events.foldl IndexEvent.apply ix := by
  cases c with
  | upsert r => rfl
  | remove file => rfl
  | replaceAll records =>
    show records = (records.toList.map fun e => .stored e.1 e.2).foldl IndexEvent.apply OrderedMap.empty
    rw [List.foldl_map]
    exact (OrderedMap.ofList_toList records).symm
  | clear => rfl

theorem Index.after_eq_foldl (ix : Index) (cs : List IndexChange) :
    ix.after cs = (cs.flatMap IndexChange.events).foldl IndexEvent.apply ix := by
  induction cs generalizing ix with
  | nil => rfl
  | cons c cs ih =>
    rw [List.flatMap_cons, List.foldl_append, ← IndexChange.apply_eq_foldl]
    exact ih _

/-- An index that was made of records and then changed follows its history. -/
theorem Index.follows_historyOf (rs : List Record) (cs : List IndexChange) :
    ((Index.ofRecords rs).after cs).Follows (historyOf rs cs) := by
  have hmade : Index.ofRecords rs =
      (rs.map fun r => .stored r.file r).foldl IndexEvent.apply OrderedMap.empty := by
    rw [List.foldl_map]
    rfl
  have hall := Index.Follows.empty.foldl (historyOf rs cs)
  rw [List.nil_append] at hall
  rw [Index.after_eq_foldl, hmade, ← List.foldl_append]
  exact hall

/-! ## Single changes -/

/-- The one key that a change is about, if it is not about all. -/
def IndexChange.key? : IndexChange → Option Text
  | .upsert r => some r.file
  | .remove file => some file
  | .replaceAll _ => none
  | .clear => none

section Key

variable {a b c : IndexChange} {j k q : Text}

/-- A change about one key leaves all others alone. -/
theorem IndexChange.get?_apply_of_ne (hc : c.key? = some k) (hq : q ≠ k) (ix : Index) :
    (c.apply ix).get? q = ix.get? q := by
  cases c with
  | upsert r =>
    obtain rfl := Option.some.inj hc
    exact (OrderedMap.get?_insert _ _ _ _).trans (if_neg hq)
  | remove file =>
    obtain rfl := Option.some.inj hc
    exact (OrderedMap.get?_erase _ _ _).trans (if_neg hq)
  | replaceAll _ => cases hc
  | clear => cases hc

/-- What a change leaves under its key does not depend on what was there. -/
theorem IndexChange.get?_apply_self (hc : c.key? = some k) (ix ix' : Index) :
    (c.apply ix).get? k = (c.apply ix').get? k := by
  cases c with
  | upsert r =>
    obtain rfl := Option.some.inj hc
    show (ix.insert r.file r).get? r.file = (ix'.insert r.file r).get? r.file
    rw [OrderedMap.get?_insert, OrderedMap.get?_insert, if_pos rfl, if_pos rfl]
  | remove file =>
    obtain rfl := Option.some.inj hc
    show (ix.erase file).get? file = (ix'.erase file).get? file
    rw [OrderedMap.get?_erase, OrderedMap.get?_erase, if_pos rfl, if_pos rfl]
  | replaceAll _ => cases hc
  | clear => cases hc

/-- **Changes about different keys commute**, as far as look-ups see. -/
theorem IndexChange.get?_apply_comm (ha : a.key? = some j) (hb : b.key? = some k) (hjk : j ≠ k) (ix : Index)
    (q : Text) : (b.apply (a.apply ix)).get? q = (a.apply (b.apply ix)).get? q := by
  by_cases hqj : q = j
  · subst hqj
    rw [get?_apply_of_ne hb hjk]
    exact get?_apply_self ha ix (b.apply ix)
  by_cases hqk : q = k
  · subst hqk
    rw [get?_apply_of_ne ha hqj]
    exact get?_apply_self hb (a.apply ix) ix
  · rw [get?_apply_of_ne hb hqk, get?_apply_of_ne ha hqj, get?_apply_of_ne ha hqj, get?_apply_of_ne hb hqk]

end Key

/-- The laws of an index as a finite map that lists its keys. All views speak of the listed keys, each of which
    is listed once (`contains_iff` to `nodup`). A record that is stored takes the place of the present one,
    or goes to the end (`upsert_present` to `upsert_upsert`); removing tells whether something was there
    (`remove_answer`); a mapping that is swapped in brings its order (`replaceAll_toList`). Changes about one
    key leave the others alone (`elsewhere`) and commute, but for the order of the keys (`commute`). -/
structure Index.Lawful (ix : Index) : Prop where
  contains_iff : ∀ k, ix.contains k = true ↔ k ∈ ix.keys
  found_iff : ∀ k, (∃ r, ix.get? k = some r) ↔ k ∈ ix.keys
  size_eq : ix.size = ix.keys.length
  nodup : ix.keys.Nodup
  upsert_present : ∀ r : Record, r.file ∈ ix.keys → (ix.upsert r).keys = ix.keys
  upsert_absent : ∀ r : Record, r.file ∉ ix.keys → (ix.upsert r).keys = ix.keys ++ [r.file]
  upsert_removed : ∀ r : Record,
    ((ix.remove r.file).2.upsert r).keys = ix.keys.filter (· ≠ r.file) ++ [r.file]
  upsert_upsert : ∀ r : Record, (ix.upsert r).upsert r = ix.upsert r
  remove_answer : ∀ k, (ix.remove k).1 = true ↔ k ∈ ix.keys
  replaceAll_toList : ∀ records : Index, (ix.replaceAll records).toList = records.toList
  clear_keys : ix.clear.keys = []
  elsewhere : ∀ (c : IndexChange) (k : Text), c.key? = some k → ∀ q, q ≠ k →
    (c.apply ix).get? q = ix.get? q ∧ (c.apply ix).contains q = ix.contains q
  commute : ∀ (a b : IndexChange) (j k : Text), a.key? = some j → b.key? = some k → j ≠ k →
    (∀ q, (b.apply (a.apply ix)).get? q = (a.apply (b.apply ix)).get? q) ∧
      (b.apply (a.apply ix)).keys.Perm (a.apply (b.apply ix)).keys

theorem Index.lawful (ix : Index) : ix.Lawful where
  contains_iff _ := OrderedMap.contains_iff_mem_keys
  found_iff _ := OrderedMap.mem_keys_iff.symm
  size_eq := (List.length_map _).symm
  nodup := ix.nodup_keys
  upsert_present r hr := (OrderedMap.keys_insert _ _ _).trans (if_pos hr)
  upsert_absent r hr := (OrderedMap.keys_insert _ _ _).trans (if_neg hr)
  upsert_removed r := by
    have habsent : r.file ∉ (ix.erase r.file).keys := by
      rw [OrderedMap.keys_erase]
      simp
    show ((ix.erase r.file).insert r.file r).keys = _
    rw [OrderedMap.keys_insert, if_neg habsent, OrderedMap.keys_erase]
  upsert_upsert r := by
    have hthere : r.file ∈ (ix.upsert r).keys :=
      OrderedMap.mem_keys_iff.mpr ⟨r, (OrderedMap.get?_insert _ _ _ _).trans (if_pos rfl)⟩
    refine OrderedMap.eq_of_keys_of_get? ?_ ?_
    · exact (OrderedMap.keys_insert _ _ _).trans (if_pos hthere)
    · intro k
      simp only [Index.upsert, OrderedMap.get?_insert]
      split <;> rfl
  remove_answer _ := OrderedMap.contains_iff_mem_keys
  replaceAll_toList _ := rfl
  clear_keys := rfl
  elsewhere c k hc q hq := by
    have hget := IndexChange.get?_apply_of_ne hc hq ix
    refine ⟨hget, ?_⟩
    rw [Bool.eq_iff_iff, OrderedMap.contains_iff_mem_keys, OrderedMap.contains_iff_mem_keys,
      OrderedMap.mem_keys_iff, OrderedMap.mem_keys_iff, hget]
  commute a b j k ha hb hjk := by
    have hget := IndexChange.get?_apply_comm ha hb hjk ix
    exact ⟨hget, OrderedMap.perm_keys_of_get? hget⟩

/-! ## Every index -/

/-- **An index is an insertion-ordered finite map.** Made of any records and changed in any way, it is what its
    history says, no other index is, and it obeys the laws of such a map. -/
theorem index_keeps_history (rs : List Record) (cs : List IndexChange) :
    ((Index.ofRecords rs).after cs).Follows (historyOf rs cs) ∧
      (∀ ix : Index, ix.Follows (historyOf rs cs) → ix = (Index.ofRecords rs).after cs) ∧
      ((Index.ofRecords rs).after cs).Lawful := by
  have hfollows := Index.follows_historyOf rs cs
  exact ⟨hfollows, fun ix hix => hix.unique hfollows, Index.lawful _⟩

/-- A record with a tag on one line. -/
def tagOnLine (file : Text) (line : Nat) : Record := ⟨file, [⟨[['x']], file, ⟨⟨line, 0⟩, ⟨line, 2⟩⟩⟩]⟩

/-- The note `a` was there first and twice. Removed and stored again it is listed behind `b`, which keeps its
    place when it is stored again; and with these two the order does not matter to what is found. -/
theorem removed_note_listed_last :
    let ix := (Index.ofRecords [tagOnLine ['a'] 0, tagOnLine ['b'] 0, tagOnLine ['a'] 1]).after
      [.remove ['a'], .upsert (tagOnLine ['a'] 2)]
    ix.keys = [['b'], ['a']] ∧ ix.get? ['a'] = some (tagOnLine ['a'] 2) ∧
      (ix.upsert (tagOnLine ['b'] 3)).keys = [['b'], ['a']] ∧ (ix.remove ['c']).1 = false ∧
      ∀ q, ((ix.upsert (tagOnLine ['b'] 3)).remove ['a']).2.get? q =
        ((ix.remove ['a']).2.upsert (tagOnLine ['b'] 3)).get? q := by
  intro ix
  obtain ⟨hfollows, -, hlawful⟩ := index_keeps_history
    [tagOnLine ['a'] 0, tagOnLine ['b'] 0, tagOnLine ['a'] 1] [.remove ['a'], .upsert (tagOnLine ['a'] 2)]
  have hkeys : ix.keys = [['b'], ['a']] := by decide
  refine ⟨hkeys, ?_, ?_, ?_, ?_⟩
  · exact (hfollows.holds ['a']).trans (by decide)
  · exact (hlawful.upsert_present (tagOnLine ['b'] 3) (by decide)).trans hkeys
  · rw [Bool.eq_false_iff]
    exact fun hanswer => absurd ((hlawful.remove_answer ['c']).mp hanswer) (by decide)
  · exact (hlawful.commute (.upsert (tagOnLine ['b'] 3)) (.remove ['a']) ['b'] ['a'] rfl rfl (by decide)).1

end HashtagIndex
