/-!
# Ordered maps

Finite maps that remember the order in which their keys first came. Inserting under a key that is
already there replaces the value and keeps the place.
-/

namespace Phrasebook

/-- A finite map, listed in the order in which its keys were first inserted. -/
structure OrderedMap (κ α : Type) where
  entries : List (κ × α)
  nodup_keys : (entries.map Prod.fst).Nodup
  deriving DecidableEq

namespace OrderedMap

variable {κ α : Type}

@[ext] theorem ext {m n : OrderedMap κ α} (h : m.entries = n.entries) : m = n := by
  cases m; cases n; simp_all

def empty : OrderedMap κ α := ⟨[], .nil⟩

instance : EmptyCollection (OrderedMap κ α) := ⟨empty⟩
instance : Inhabited (OrderedMap κ α) := ⟨empty⟩

@[simp] theorem entries_empty : (∅ : OrderedMap κ α).entries = [] := rfl

/-- The keys, each once, in the order in which they first came. -/
def keys (m : OrderedMap κ α) : List κ := m.entries.map Prod.fst

theorem keys_nodup (m : OrderedMap κ α) : m.keys.Nodup := m.nodup_keys

def values (m : OrderedMap κ α) : List α := m.entries.map Prod.snd

def size (m : OrderedMap κ α) : Nat := m.entries.length

def isEmpty (m : OrderedMap κ α) : Bool := m.entries.isEmpty

/-- The map without the keys that fail a test. -/
def filterKeys (m : OrderedMap κ α) (keep : κ → Bool) : OrderedMap κ α where
  entries := m.entries.filter fun e => keep e.1
  nodup_keys := m.nodup_keys.sublist (List.filter_sublist.map Prod.fst)

variable [DecidableEq κ]

/-- The value of the first pair with the key. -/
def lookup (key : κ) : List (κ × α) → Option α
  | [] => none
  | e :: es => if e.1 = key then some e.2 else lookup key es

def get? (m : OrderedMap κ α) (key : κ) : Option α := lookup key m.entries

def contains (m : OrderedMap κ α) (key : κ) : Bool := (m.get? key).isSome

/-- Replaces the value of a key that is in the list, appends a key that is not. -/
def put (key : κ) (value : α) : List (κ × α) → List (κ × α)
  | [] => [(key, value)]
  | e :: es => if e.1 = key then (key, value) :: es else e :: put key value es

theorem map_fst_put (key : κ) (value : α) (es : List (κ × α)) :
    (put key value es).map Prod.fst =
      if key ∈ es.map Prod.fst then es.map Prod.fst else es.map Prod.fst ++ [key] := by
  induction es with
  | nil => simp [put]
  | cons e es ih =>
    by_cases h : e.1 = key
    · simp [put, h]
    · have h' : ¬ key = e.1 := fun e => h e.symm
      by_cases hm : key ∈ es.map Prod.fst <;> simp_all [put]

theorem mem_put {key : κ} {value : α} {es : List (κ × α)} {e : κ × α}
    (h : e ∈ put key value es) : e = (key, value) ∨ e ∈ es := by
  induction es with
  | nil => simpa [put] using h
  | cons a es ih =>
    by_cases ha : a.1 = key
    · simp only [put, ha, if_true, List.mem_cons] at h
      exact h.imp_right (List.mem_cons_of_mem _)
    · simp only [put, ha, if_false, List.mem_cons] at h
      rcases h with rfl | h
      · exact .inr (by simp)
      · exact (ih h).imp_right (List.mem_cons_of_mem _)

theorem nodup_put {key : κ} {value : α} {es : List (κ × α)}
    (h : (es.map Prod.fst).Nodup) : ((put key value es).map Prod.fst).Nodup := by
  rw [map_fst_put]
  split
  · exact h
  · rename_i hm
    exact List.nodup_append.2 ⟨h, by simp, fun a ha b hb => by
      rw [List.mem_singleton] at hb
      exact fun e => hm (hb ▸ e ▸ ha)⟩

/-- The map with `value` under `key`; a key that is already there keeps its place. -/
def insert (m : OrderedMap κ α) (key : κ) (value : α) : OrderedMap κ α :=
  ⟨put key value m.entries, nodup_put m.nodup_keys⟩

/-- Inserts the pairs one after another, so the last value of a repeated key wins. -/
def insertMany (m : OrderedMap κ α) (pairs : List (κ × α)) : OrderedMap κ α :=
  pairs.foldl (fun m p => m.insert p.1 p.2) m

def ofList (pairs : List (κ × α)) : OrderedMap κ α := empty.insertMany pairs

theorem keys_insert (m : OrderedMap κ α) (key : κ) (value : α) :
    (m.insert key value).keys = if key ∈ m.keys then m.keys else m.keys ++ [key] :=
  map_fst_put key value m.entries

theorem lookup_put (key : κ) (value : α) (es : List (κ × α)) (k : κ) :
    lookup k (put key value es) = if k = key then some value else lookup k es := by
  induction es with
  | nil => simp [put, lookup, eq_comm]
  | cons e es ih =>
    by_cases ha : e.1 = key
    · by_cases h : k = key <;> simp_all [put, lookup, eq_comm]
    · by_cases h : e.1 = k
      · have : ¬ k = key := fun hk => ha (h.trans hk)
        simp [put, lookup, h, this]
      · simp [put, lookup, ha, h, ih]

@[simp] theorem get?_insert (m : OrderedMap κ α) (key : κ) (value : α) (k : κ) :
    (m.insert key value).get? k = if k = key then some value else m.get? k :=
  lookup_put key value m.entries k

@[simp] theorem get?_empty (k : κ) : (∅ : OrderedMap κ α).get? k = none := rfl

end OrderedMap

end Phrasebook
