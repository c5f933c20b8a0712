import Mathlib.Data.List.Perm.Subperm
import Phrasebook.OrderedMap

/-!
# Ordered maps and their entries

An ordered map is its list of entries: looking up a key is finding its entry
(`get?_eq_some_iff`), and a list of pairs with distinct keys is the entries of the map made from it
(`entries_ofList`). Of pairs with the same key the last one counts (`get?_ofList`).
-/

namespace Phrasebook.OrderedMap

variable {κ α β : Type} [DecidableEq κ]

theorem lookup_eq_none_iff {k : κ} {es : List (κ × α)} :
    lookup k es = none ↔ k ∉ es.map Prod.fst := by
  induction es with
  | nil => simp [lookup]
  | cons e es ih =>
    rw [lookup, List.map_cons, List.mem_cons, not_or]
    by_cases h : e.1 = k
    · simp [h]
    · rw [if_neg h, ih]
      exact ⟨fun hk => ⟨Ne.symm h, hk⟩, And.right⟩

theorem mem_of_lookup {k : κ} {v : α} {es : List (κ × α)} (h : lookup k es = some v) :
    (k, v) ∈ es := by
  induction es with
  | nil => cases h
  | cons e es ih =>
    rw [lookup] at h
    split at h
    · rename_i hk
      cases h
      exact List.mem_cons.2 (Or.inl (by rw [← hk]))
    · exact List.mem_cons_of_mem e (ih h)

theorem lookup_of_mem {k : κ} {v : α} {es : List (κ × α)} (hn : (es.map Prod.fst).Nodup)
    (h : (k, v) ∈ es) : lookup k es = some v := by
  induction es with
  | nil => cases h
  | cons e es ih =>
    rw [List.map_cons, List.nodup_cons] at hn
    rw [lookup]
    rcases List.mem_cons.1 h with rfl | h
    · exact if_pos rfl
    · have hne : e.1 ≠ k := fun he => hn.1 (he ▸ List.mem_map_of_mem (f := Prod.fst) h)
      rw [if_neg hne]
      exact ih hn.2 h

theorem lookup_append (k : κ) (es es' : List (κ × α)) :
    lookup k (es ++ es') = (lookup k es).or (lookup k es') := by
  induction es with
  | nil => rfl
  | cons e es ih =>
    rw [List.cons_append, lookup, lookup]
    split
    · rfl
    · exact ih

theorem lookup_map (f : α → β) (k : κ) (es : List (κ × α)) :
    lookup k (es.map fun e => (e.1, f e.2)) = (lookup k es).map f := by
  induction es with
  | nil => rfl
  | cons e es ih =>
    rw [List.map_cons, lookup, lookup]
    split
    · rfl
    · exact ih

theorem get?_eq_some_iff {m : OrderedMap κ α} {k : κ} {v : α} :
    m.get? k = some v ↔ (k, v) ∈ m.entries :=
  ⟨mem_of_lookup, lookup_of_mem m.nodup_keys⟩

/-- Looking up in a form given to the values. -/
theorem map_get?_eq_some_iff {m : OrderedMap κ α} {f : α → β} {k : κ} {w : β} :
    (m.get? k).map f = some w ↔ (k, w) ∈ m.entries.map fun e => (e.1, f e.2) := by
  rw [Option.map_eq_some_iff, List.mem_map]
  constructor
  · rintro ⟨v, hv, rfl⟩
    exact ⟨(k, v), get?_eq_some_iff.1 hv, rfl⟩
  · rintro ⟨e, he, hw⟩
    obtain ⟨rfl, rfl⟩ := Prod.mk.inj hw
    exact ⟨e.2, get?_eq_some_iff.2 he, rfl⟩

theorem get?_eq_none_iff {m : OrderedMap κ α} {k : κ} : m.get? k = none ↔ k ∉ m.keys :=
  lookup_eq_none_iff

/-- Maps with the same keys in the same order and the same values are the same. -/
theorem ext_of_get? {m n : OrderedMap κ α} (hk : m.keys = n.keys)
    (h : ∀ k ∈ m.keys, m.get? k = n.get? k) : m = n := by
  have hlen : m.entries.length = n.entries.length := by
    have := congrArg List.length hk
    rwa [keys, keys, List.length_map, List.length_map] at this
  refine ext (List.ext_getElem hlen fun i hi hi' => ?_)
  have hm : m.get? m.entries[i].1 = some m.entries[i].2 :=
    get?_eq_some_iff.2 (List.getElem_mem hi)
  have hn : n.get? n.entries[i].1 = some n.entries[i].2 :=
    get?_eq_some_iff.2 (List.getElem_mem hi')
  have hfst : m.entries[i].1 = n.entries[i].1 := by
    have := List.getElem_of_eq hk (by rwa [keys, List.length_map])
    simpa [keys] using this
  have hget := h _ (List.mem_map_of_mem (List.getElem_mem hi))
  rw [hm, hfst, hn] at hget
  exact Prod.ext hfst (Option.some.inj hget)

theorem contains_iff {m : OrderedMap κ α} {k : κ} : m.contains k = true ↔ k ∈ m.keys := by
  rw [contains, Option.isSome_iff_ne_none, ne_eq, get?_eq_none_iff, Decidable.not_not]

theorem put_of_not_mem {k : κ} {v : α} {es : List (κ × α)} (h : k ∉ es.map Prod.fst) :
    put k v es = es ++ [(k, v)] := by
  induction es with
  | nil => rfl
  | cons e es ih =>
    rw [List.map_cons, List.mem_cons, not_or] at h
    rw [put, if_neg (Ne.symm h.1), ih h.2]
    rfl

/-- Pairs with keys of their own stand in the map behind the entries that were there. -/
theorem entries_insertMany {m : OrderedMap κ α} {pairs : List (κ × α)}
    (h : ((m.entries ++ pairs).map Prod.fst).Nodup) :
    (m.insertMany pairs).entries = m.entries ++ pairs := by
  induction pairs generalizing m with
  | nil => exact (List.append_nil _).symm
  | cons p pairs ih =>
    have hp : p.1 ∉ m.entries.map Prod.fst := by
      rw [List.map_append, List.nodup_append] at h
      exact fun hm => h.2.2 _ hm _ List.mem_cons_self rfl
    have hput : (m.insert p.1 p.2).entries = m.entries ++ [p] := put_of_not_mem hp
    have hcat : (m.insert p.1 p.2).entries ++ pairs = m.entries ++ p :: pairs := by
      rw [hput, List.append_assoc]
      rfl
    show ((m.insert p.1 p.2).insertMany pairs).entries = _
    rw [ih (by rw [hcat]; exact h), hcat]

theorem entries_ofList {pairs : List (κ × α)} (h : (pairs.map Prod.fst).Nodup) :
    (ofList pairs).entries = pairs :=
  entries_insertMany (m := empty) h

/-- The last value of a key that is inserted is the one that counts. -/
theorem get?_insertMany (m : OrderedMap κ α) (pairs : List (κ × α)) (k : κ) :
    (m.insertMany pairs).get? k = (lookup k pairs.reverse).or (m.get? k) := by
  induction pairs generalizing m with
  | nil => rfl
  | cons p pairs ih =>
    show ((m.insert p.1 p.2).insertMany pairs).get? k = _
    rw [ih, get?_insert, List.reverse_cons, lookup_append, Option.or_assoc]
    congr 1
    by_cases h : k = p.1
    · simp [lookup, h]
    · simp [lookup, h, Ne.symm h]

theorem get?_ofList (pairs : List (κ × α)) (k : κ) :
    (ofList pairs).get? k = lookup k pairs.reverse := by
  unfold ofList
  rw [get?_insertMany]
  exact Option.or_none

theorem mem_of_mem_ofList {pairs : List (κ × α)} {e : κ × α} (h : e ∈ (ofList pairs).entries) :
    e ∈ pairs := by
  have hget : (ofList pairs).get? e.1 = some e.2 := get?_eq_some_iff.2 h
  rw [get?_ofList] at hget
  exact List.mem_reverse.1 (mem_of_lookup hget)

theorem mem_keys_insertMany_iff {m : OrderedMap κ α} {pairs : List (κ × α)} {k : κ} :
    k ∈ (m.insertMany pairs).keys ↔ k ∈ m.keys ∨ k ∈ pairs.map Prod.fst := by
  induction pairs generalizing m with
  | nil => simp [insertMany]
  | cons p pairs ih =>
    have hinsert : k ∈ (m.insert p.1 p.2).keys ↔ k ∈ m.keys ∨ k = p.1 := by
      rw [keys_insert]
      split
      · rename_i hmem
        exact ⟨Or.inl, fun h => h.elim id fun hk => hk ▸ hmem⟩
      · simp
    show k ∈ ((m.insert p.1 p.2).insertMany pairs).keys ↔ _
    rw [ih, hinsert, List.map_cons, List.mem_cons, or_assoc]

theorem mem_keys_ofList_iff {pairs : List (κ × α)} {k : κ} :
    k ∈ (ofList pairs).keys ↔ k ∈ pairs.map Prod.fst := by
  unfold ofList
  rw [mem_keys_insertMany_iff]
  exact ⟨fun h => h.resolve_left List.not_mem_nil, Or.inr⟩

/-- The map of some pairs has as many keys as there are pairs if their keys are distinct, and only
then. -/
theorem length_keys_ofList_iff {pairs : List (κ × α)} :
    (ofList pairs).keys.length = pairs.length ↔ (pairs.map Prod.fst).Nodup := by
  constructor
  · intro h
    have hsub : (ofList pairs).keys.Subperm (pairs.map Prod.fst) :=
      (ofList pairs).keys_nodup.subperm fun k hk => mem_keys_ofList_iff.1 hk
    have hperm := hsub.perm_of_length_le (by simp [h])
    exact hperm.nodup_iff.1 (ofList pairs).keys_nodup
  · intro h
    rw [keys, entries_ofList h, List.length_map]

/-! ## Other values -/

/-- The map with other values under its keys. -/
def mapValues {κ : Type} (f : α → β) (m : OrderedMap κ α) : OrderedMap κ β where
  entries := m.entries.map fun e => (e.1, f e.2)
  nodup_keys := by
    rw [List.map_map]
    exact m.nodup_keys

theorem keys_mapValues {κ : Type} (f : α → β) (m : OrderedMap κ α) :
    (m.mapValues f).keys = m.keys :=
  List.map_map ..

theorem get?_mapValues (f : α → β) (m : OrderedMap κ α) (k : κ) :
    (m.mapValues f).get? k = (m.get? k).map f :=
  lookup_map f k m.entries

end Phrasebook.OrderedMap
