import Mathlib.Data.List.Nodup
import Phrasebook.LocaleFile.Leaves
import Phrasebook.Proofs.Json.DistinctKeys

/-!
# The paths of leaves

A leaf of a document is found by the keys on the way to it, its path. The dotted key that a leaf
gets comes from its path alone (`leaves_eq`): the keys are joined with dots, except that empty keys
at the beginning are dropped (`tokenOf_eq_dotted_iff`). Where no object has a key twice, no two
leaves have the same path (`nodup_paths`).
-/

namespace Phrasebook.LocaleFile

open Json (Value)

/-- A value that is no object, and the keys on the way to it. -/
structure PlacedLeaf where
  path : List String
  value : Value String

/-- The leaf below one more key. -/
def PlacedLeaf.below (key : String) (l : PlacedLeaf) : PlacedLeaf :=
  { l with path := key :: l.path }

mutual

/-- The leaves of a value with their paths, in the order of the document. -/
def placedLeaves : Value String → List PlacedLeaf
  | .object members => placedLeavesOfMembers members
  | v => [⟨[], v⟩]

def placedLeavesOfMembers : List (String × Value String) → List PlacedLeaf
  | [] => []
  | m :: ms => placedLeavesOfMember m ++ placedLeavesOfMembers ms

def placedLeavesOfMember : String × Value String → List PlacedLeaf
  | (key, v) => (placedLeaves v).map (.below key)

end

/-- The dotted key of a path below a dotted key. -/
def extendPath (above : String) (path : List String) : String := path.foldl extendKey above

/-- The leaf with its dotted key. -/
def PlacedLeaf.toLeaf (above : String) (l : PlacedLeaf) : Leaf := ⟨extendPath above l.path, l.value⟩

/-! ## Leaves by their paths -/

-- Both lists of leaves are made by the same recursion, so there is a statement for each of its
-- functions.
mutual

theorem leaves_eq (above : String) (v : Value String) :
    leaves above v = (placedLeaves v).map (·.toLeaf above) := by
  match v with
  | .object members =>
    rw [leaves, placedLeaves]
    exact leavesOfMembers_eq above members
  | .null | .boolean _ | .number _ | .string _ | .array _ => rfl

theorem leavesOfMembers_eq (above : String) (ms : List (String × Value String)) :
    leavesOfMembers above ms = (placedLeavesOfMembers ms).map (·.toLeaf above) := by
  match ms with
  | [] => rfl
  | m :: ms =>
    rw [leavesOfMembers, placedLeavesOfMembers, List.map_append, leavesOfMember_eq,
      leavesOfMembers_eq]

theorem leavesOfMember_eq (above : String) (m : String × Value String) :
    leavesOfMember above m = (placedLeavesOfMember m).map (·.toLeaf above) := by
  match m with
  | (key, v) =>
    rw [leavesOfMember, placedLeavesOfMember, leaves_eq, List.map_map]
    rfl

end

theorem placedLeavesOfMembers_eq (ms : List (String × Value String)) :
    placedLeavesOfMembers ms = ms.flatMap fun m => (placedLeaves m.2).map (.below m.1) := by
  induction ms with
  | nil => rfl
  | cons m ms ih =>
    obtain ⟨key, v⟩ := m
    rw [placedLeavesOfMembers, List.flatMap_cons, ih, placedLeavesOfMember]

/-! ## Paths that are distinct -/

/-- Lists that begin differently. -/
theorem disjoint_map_cons {α : Type} {a b : α} (h : a ≠ b) (xs ys : List (List α)) :
    (xs.map (a :: ·)).Disjoint (ys.map (b :: ·)) := by
  intro zs hx hy
  obtain ⟨x, _, rfl⟩ := List.mem_map.1 hx
  obtain ⟨y, _, hcons⟩ := List.mem_map.1 hy
  exact h (List.cons.inj hcons).1.symm

/-- **No two leaves have the same path.** -/
theorem nodup_paths {v : Value String} (h : v.DistinctKeys) :
    ((placedLeaves v).map (·.path)).Nodup := by
  induction h with
  | null | boolean | number | string | array => exact List.nodup_singleton _
  | @object members hnodup _ ih =>
    have hpaths : (placedLeaves (.object members)).map (·.path) =
        members.flatMap fun m => ((placedLeaves m.2).map (·.path)).map (m.1 :: ·) := by
      rw [placedLeaves, placedLeavesOfMembers_eq, List.map_flatMap]
      apply List.flatMap_congr
      intro m _
      rw [List.map_map, List.map_map]
      rfl
    rw [hpaths, List.nodup_flatMap]
    -- Leaves of one member differ below its key, leaves of two members in their first key.
    constructor
    · intro m hm
      exact (ih m hm).map fun _ _ hcons => (List.cons.inj hcons).2
    · rw [List.Nodup, List.pairwise_map] at hnodup
      exact hnodup.imp fun hne => disjoint_map_cons hne _ _

/-- The leaves of an object are below it. -/
theorem path_ne_nil {members : List (String × Value String)} :
    ∀ l ∈ placedLeaves (.object members), l.path ≠ [] := by
  intro l hl
  rw [placedLeaves, placedLeavesOfMembers_eq] at hl
  obtain ⟨m, _, hl⟩ := List.mem_flatMap.1 hl
  obtain ⟨l', _, rfl⟩ := List.mem_map.1 hl
  exact List.cons_ne_nil _ _

/-! ## Dotted keys -/

/-- The keys of a path, joined with dots. -/
def dotted (path : List String) : String := ".".intercalate path

/-- The token of the leaf with a path. -/
def tokenOf (path : List String) : String := extendPath "" path

theorem dotted_cons_cons (key next : String) (path : List String) :
    dotted (key :: next :: path) = key ++ "." ++ dotted (next :: path) :=
  String.intercalate_cons_cons

theorem dotted_append_dot (key next : String) (path : List String) :
    dotted ((key ++ "." ++ next) :: path) = key ++ "." ++ dotted (next :: path) := by
  cases path with
  | nil => simp [dotted]
  | cons k ks => simp [dotted_cons_cons, String.append_assoc]

/-- Below a key that is not empty the keys are joined with dots. -/
theorem extendPath_eq_dotted {above : String} (h : above ≠ "") (path : List String) :
    extendPath above path = dotted (above :: path) := by
  induction path generalizing above with
  | nil => exact String.intercalate_singleton.symm
  | cons key path ih =>
    have hkey : extendKey above key = above ++ "." ++ key := if_neg h
    have hne : above ++ "." ++ key ≠ "" := by simp [h]
    show extendPath (extendKey above key) path = _
    rw [hkey, ih hne, dotted_append_dot, dotted_cons_cons]

theorem tokenOf_cons {key : String} (h : key ≠ "") (path : List String) :
    tokenOf (key :: path) = dotted (key :: path) := extendPath_eq_dotted h path

/-- A key that is empty adds nothing at the beginning. -/
theorem tokenOf_empty_cons (path : List String) : tokenOf ("" :: path) = tokenOf path := rfl

theorem length_dotted_empty_cons (next : String) (path : List String) :
    (dotted ("" :: next :: path)).length = 1 + (dotted (next :: path)).length := by
  rw [dotted_cons_cons, String.empty_append, String.length_append]
  rfl

theorem length_tokenOf_le (path : List String) : (tokenOf path).length ≤ (dotted path).length := by
  induction path with
  | nil => exact Nat.le_refl _
  | cons key path ih =>
    by_cases hkey : key = ""
    · subst hkey
      cases path with
      | nil => exact Nat.le_refl _
      | cons next path =>
        rw [tokenOf_empty_cons, length_dotted_empty_cons]
        omega
    · exact Nat.le_of_eq (by rw [tokenOf_cons hkey])

/-- The path does not lead into an object with an empty key at the top of the document. -/
def KeepsKeys (path : List String) : Prop := path.head? = some "" → path = [""]

instance (path : List String) : Decidable (KeepsKeys path) :=
  inferInstanceAs (Decidable (_ → _))

theorem tokenOf_eq_dotted {path : List String} (h : KeepsKeys path) :
    tokenOf path = dotted path := by
  cases path with
  | nil => rfl
  | cons key path =>
    by_cases hkey : key = ""
    · rw [h (congrArg some hkey)]
      rfl
    · exact tokenOf_cons hkey path

/-- The token does without the empty keys and their dots. -/
theorem length_tokenOf_lt {path : List String} (h : ¬ KeepsKeys path) :
    (tokenOf path).length < (dotted path).length := by
  obtain ⟨hhead, hne⟩ := Classical.not_imp.1 h
  obtain ⟨rest, rfl⟩ := List.head?_eq_some_iff.1 hhead
  cases rest with
  | nil => exact absurd rfl hne
  | cons next path =>
    have hle := length_tokenOf_le (next :: path)
    rw [tokenOf_empty_cons, length_dotted_empty_cons]
    omega

/-- **The token of a leaf is its path joined with dots**, unless empty keys have been dropped. -/
theorem tokenOf_eq_dotted_iff {path : List String} :
    tokenOf path = dotted path ↔ KeepsKeys path := by
  refine ⟨fun h => ?_, tokenOf_eq_dotted⟩
  by_contra hkeeps
  exact Nat.ne_of_lt (length_tokenOf_lt hkeeps) (congrArg String.length h)

theorem splitOn_dotted {path : List String} (hne : path ≠ [])
    (h : ∀ key ∈ path, '.' ∉ key.toList) :
    (dotted path).toList.splitOn '.' = path.map String.toList := by
  unfold dotted
  rw [String.toList_intercalate]
  show List.splitOn '.' (['.'].intercalate _) = _
  apply List.splitOn_intercalate '.'
  · intro cs hcs
    obtain ⟨key, hkey, rfl⟩ := List.mem_map.1 hcs
    exact h key hkey
  · simpa using hne

/-- Paths of keys without dots are told apart by their dotted keys. -/
theorem dotted_inj {path other : List String} (hp : path ≠ []) (ho : other ≠ [])
    (hpath : ∀ key ∈ path, '.' ∉ key.toList) (hother : ∀ key ∈ other, '.' ∉ key.toList)
    (h : dotted path = dotted other) : path = other := by
  have hsplit := splitOn_dotted hp hpath
  rw [h, splitOn_dotted ho hother] at hsplit
  exact (List.map_injective_iff.2 (fun _ _ => String.toList_inj.1) hsplit).symm

end Phrasebook.LocaleFile
