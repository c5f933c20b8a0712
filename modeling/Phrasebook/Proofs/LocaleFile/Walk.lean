import Phrasebook.Proofs.Firsts
import Phrasebook.Proofs.LocaleFile.Kept

/-!
# The leaves of a document in order

The place of a leaf is the numbers of the members on the way down to it, and the leaves of a
document in order are all its leaves by their places (`IsWalk`, which one list satisfies for every
document). A document is loaded by inserting the strings and reporting the other leaves in this
order (`ofDocument_walk`), and what stands at one place makes no difference to the leaves at others
(`exists_placedLeaves_plug`).
-/

namespace Phrasebook.LocaleFile

open Json (Value)

/-- Going down from the value by the members with the numbers of the place leads to the leaf. Only
objects have members, and what is no object is a leaf. -/
inductive LeafAt : Value String → List Nat → PlacedLeaf → Prop
  | here {v : Value String} (hkind : v.kind ≠ .object) : LeafAt v [] ⟨[], v⟩
  | member {members : List (String × Value String)} {i : Nat} {key : String} {v : Value String}
    {place : List Nat} {leaf : PlacedLeaf} (hmember : members[i]? = some (key, v))
    (hleaf : LeafAt v place leaf) : LeafAt (.object members) (i :: place) (leaf.below key)

/-- The list has every leaf of the document with its place, and the places ascend: an earlier member
of an object stands with all that is below it before a later one. -/
structure IsWalk (document : Value String) (walk : List (List Nat × PlacedLeaf)) : Prop where
  mem_iff : ∀ place leaf, (place, leaf) ∈ walk ↔ LeafAt document place leaf
  ordered : walk.Pairwise fun a b => a.1 < b.1

theorem IsWalk.unique {document : Value String} {walk other : List (List Nat × PlacedLeaf)}
    (h : IsWalk document walk) (h' : IsWalk document other) : walk = other := by
  have hmem : ∀ a, a ∈ walk ↔ a ∈ other := fun a =>
    (h.mem_iff a.1 a.2).trans (h'.mem_iff a.1 a.2).symm
  exact List.Pairwise.eq_of_mem_iff (r := InvImage (· < ·) Prod.fst) h.ordered h'.ordered hmem

/-! ## The walk of a document -/

/-- A leaf with its place, below the member with a number and a key. -/
def descend (i : Nat) (key : String) (p : List Nat × PlacedLeaf) : List Nat × PlacedLeaf :=
  (i :: p.1, p.2.below key)

mutual

/-- The leaves of a value in order, with their places. -/
def walk : Value String → List (List Nat × PlacedLeaf)
  | .object members => walkMembers 0 members
  | v => [([], ⟨[], v⟩)]

def walkMembers (i : Nat) : List (String × Value String) → List (List Nat × PlacedLeaf)
  | [] => []
  | m :: ms => walkMember i m ++ walkMembers (i + 1) ms

def walkMember (i : Nat) : String × Value String → List (List Nat × PlacedLeaf)
  | (key, v) => (walk v).map (descend i key)

end

theorem walkMembers_eq (i : Nat) (ms : List (String × Value String)) :
    walkMembers i ms = (ms.zipIdx i).flatMap fun m => (walk m.1.2).map (descend m.2 m.1.1) := by
  induction ms generalizing i with
  | nil => rfl
  | cons m ms ih =>
    obtain ⟨key, v⟩ := m
    rw [walkMembers, walkMember, ih, List.zipIdx_cons, List.flatMap_cons]

/-- A fact about all values from the facts about leaves and about objects. (The recursor of the type
asks for facts about lists and pairs, too.) -/
@[elab_as_elim]
theorem value_induction {motive : Value String → Prop}
    (leaf : ∀ v, v.kind ≠ .object → motive v)
    (object : ∀ members, (∀ m ∈ members, motive m.2) → motive (.object members))
    (v : Value String) : motive v := by
  cases v with
  | object members => exact object members fun m hm => value_induction leaf object m.2
  | _ => exact leaf _ (by rintro ⟨⟩)
termination_by sizeOf v
decreasing_by
  have hmem : sizeOf m < sizeOf members := List.sizeOf_lt_of_mem hm
  have hpair : sizeOf m = 1 + sizeOf m.1 + sizeOf m.2 := rfl
  rw [Value.object.sizeOf_spec]
  omega

theorem walk_of_kind {v : Value String} (h : v.kind ≠ .object) : walk v = [([], ⟨[], v⟩)] := by
  cases v with
  | object members => exact absurd rfl h
  | _ => rfl

theorem placedLeaves_of_kind {v : Value String} (h : v.kind ≠ .object) :
    placedLeaves v = [⟨[], v⟩] := by
  cases v with
  | object members => exact absurd rfl h
  | _ => rfl

theorem map_snd_walk (v : Value String) : (walk v).map Prod.snd = placedLeaves v := by
  induction v using value_induction with
  | leaf v h => rw [walk_of_kind h, placedLeaves_of_kind h, List.map_singleton]
  | object members ih =>
    have hmember : ∀ m ∈ members.zipIdx, ((walk m.1.2).map (descend m.2 m.1.1)).map Prod.snd =
        (placedLeaves m.1.2).map (.below m.1.1) := by
      rintro ⟨⟨key, v⟩, i⟩ hm
      have hmem := List.mem_of_getElem? (List.mk_mem_zipIdx_iff_getElem?.1 hm)
      rw [← ih _ hmem, List.map_map, List.map_map]
      rfl
    rw [walk, walkMembers_eq, List.map_flatMap, List.flatMap_congr hmember, placedLeaves,
      placedLeavesOfMembers_eq]
    conv_rhs => rw [← List.zipIdx_map_fst 0 members, List.flatMap_map]

theorem leafAt_iff_of_kind {v : Value String} (h : v.kind ≠ .object) {place : List Nat}
    {leaf : PlacedLeaf} : LeafAt v place leaf ↔ place = [] ∧ leaf = ⟨[], v⟩ := by
  constructor
  · intro hleaf
    cases hleaf with
    | here => exact ⟨rfl, rfl⟩
    | member => exact absurd rfl h
  · rintro ⟨rfl, rfl⟩
    exact .here h

theorem leafAt_object_iff {members : List (String × Value String)} {place : List Nat}
    {leaf : PlacedLeaf} : LeafAt (.object members) place leaf ↔
      ∃ i key v p, members[i]? = some (key, v) ∧ LeafAt v p.1 p.2 ∧
        descend i key p = (place, leaf) := by
  constructor
  · intro hleaf
    cases hleaf with
    | here hkind => exact absurd rfl hkind
    | member hmember hleaf => exact ⟨_, _, _, (_, _), hmember, hleaf, rfl⟩
  · rintro ⟨i, key, v, p, hmember, hleaf, he⟩
    cases he
    exact .member hmember hleaf

theorem mem_walk_iff {v : Value String} {place : List Nat} {leaf : PlacedLeaf} :
    (place, leaf) ∈ walk v ↔ LeafAt v place leaf := by
  induction v using value_induction generalizing place leaf with
  | leaf v h => rw [walk_of_kind h, leafAt_iff_of_kind h, List.mem_singleton, Prod.mk.injEq]
  | object members ih =>
    rw [walk, walkMembers_eq, leafAt_object_iff, List.mem_flatMap]
    constructor
    · rintro ⟨⟨⟨key, v⟩, i⟩, hm, hp⟩
      obtain ⟨p, hp, he⟩ := List.mem_map.1 hp
      have hmember := List.mk_mem_zipIdx_iff_getElem?.1 hm
      exact ⟨i, key, v, p, hmember, (ih _ (List.mem_of_getElem? hmember)).1 hp, he⟩
    · rintro ⟨i, key, v, p, hmember, hleaf, he⟩
      refine ⟨((key, v), i), List.mk_mem_zipIdx_iff_getElem?.2 hmember, ?_⟩
      exact List.mem_map.2 ⟨p, (ih _ (List.mem_of_getElem? hmember)).2 hleaf, he⟩

theorem ordered_walk (v : Value String) : (walk v).Pairwise fun a b => a.1 < b.1 := by
  induction v using value_induction with
  | leaf v h =>
    rw [walk_of_kind h]
    exact List.pairwise_singleton _ _
  | object members ih =>
    rw [walk, walkMembers_eq, List.pairwise_flatMap]
    -- places below one member differ behind its number, places below two members in their numbers
    constructor
    · rintro ⟨⟨key, v⟩, i⟩ hm
      have hmember := List.mk_mem_zipIdx_iff_getElem?.1 hm
      rw [List.pairwise_map]
      refine (ih _ (List.mem_of_getElem? hmember)).imp fun hlt => ?_
      exact List.cons_lt_cons_iff.2 (.inr ⟨rfl, hlt⟩)
    · have hnumbers : ((members.zipIdx).map Prod.snd).Pairwise (· < ·) := by
        rw [List.zipIdx_map_snd]
        exact List.pairwise_lt_range'
      refine (List.pairwise_map.1 hnumbers).imp fun {a b} hlt x hx y hy => ?_
      obtain ⟨p, -, rfl⟩ := List.mem_map.1 hx
      obtain ⟨q, -, rfl⟩ := List.mem_map.1 hy
      exact List.cons_lt_cons_iff.2 (.inl hlt)

theorem isWalk_walk (v : Value String) : IsWalk v (walk v) :=
  ⟨fun _ _ => mem_walk_iff, ordered_walk v⟩

/-! ## What stands at other places -/

/-- A document in which the value at one place is left open. -/
inductive Context where
  | hole
  | within (before : List (String × Value String)) (key : String) (inner : Context)
    (after : List (String × Value String))

namespace Context

/-- The document with a value at the open place. -/
def plug : Context → Value String → Value String
  | hole, v => v
  | within before key inner after, v => .object (before ++ (key, inner.plug v) :: after)

/-- The keys on the way to the open place. -/
def path : Context → List String
  | hole => []
  | within _ key inner _ => key :: inner.path

end Context

/-- The leaf below some more keys. -/
def PlacedLeaf.beneath (path : List String) (l : PlacedLeaf) : PlacedLeaf :=
  { l with path := path ++ l.path }

/-- Whatever is put at an open place, the other leaves are the same. -/
theorem exists_placedLeaves_plug (c : Context) :
    ∃ before after, ∀ v, placedLeaves (c.plug v) =
      before ++ (placedLeaves v).map (.beneath c.path) ++ after := by
  induction c with
  | hole =>
    refine ⟨[], [], fun v => ?_⟩
    rw [List.append_nil, List.nil_append]
    exact (List.map_id _).symm
  | within before key inner after ih =>
    obtain ⟨inBefore, inAfter, ih⟩ := ih
    let outside (ms : List (String × Value String)) : List PlacedLeaf :=
      ms.flatMap fun m => (placedLeaves m.2).map (.below m.1)
    refine ⟨outside before ++ inBefore.map (.below key),
      inAfter.map (.below key) ++ outside after, fun v => ?_⟩
    rw [Context.plug, placedLeaves, placedLeavesOfMembers_eq, List.flatMap_append,
      List.flatMap_cons, ih, List.map_append, List.map_append, List.map_map]
    simp only [List.append_assoc]
    rfl

/-! ## Loading in order -/

/-- The keys of a path joined with dots, where a key behind nothing but empty keys needs none. -/
def joined (path : List String) : String := dotted (path.dropWhile (· = ""))

theorem tokenOf_eq_joined (path : List String) : tokenOf path = joined path := by
  induction path with
  | nil => rfl
  | cons key path ih =>
    by_cases hkey : key = ""
    · subst hkey
      exact ih
    · rw [tokenOf_cons hkey, joined, List.dropWhile_cons_of_neg (by simpa using hkey)]

/-- The dictionary and the findings that come from leaves in their order: the strings are inserted
one after another, each under its joined path, and each other leaf is reported under its own. -/
structure ComesFrom (file locale : String) (positionOf : String → Position)
    (ls : List PlacedLeaf) (loaded : Loaded) : Prop where
  locale_eq : loaded.dictionary.locale = locale
  file_eq : loaded.dictionary.file = some file
  entries : loaded.dictionary.entries = .ofList ((strings ls).map fun l =>
    (joined l.path, { value := l.text, position := positionOf (joined l.path) }))
  tokens : Firsts ((strings ls).map fun l => joined l.path) loaded.dictionary.tokens
  entry : ∀ before l after, strings ls = before ++ l :: after →
    (∀ l' ∈ after, joined l'.path ≠ joined l.path) →
      loaded.dictionary.entry? (joined l.path) =
        some { value := l.text, position := positionOf (joined l.path) }
  diagnostics : loaded.diagnostics = (others ls).map fun l =>
    .nonStringValue (joined l.path) locale l.value.kind (positionOf (joined l.path))

theorem comesFrom_ofDocument (file locale : String) (positionOf : String → Position)
    (document : Value String) :
    ComesFrom file locale positionOf (placedLeaves document)
      (ofDocument file locale positionOf document) := by
  have hentry : (fun l : StringLeaf => l.entry positionOf) = fun l =>
      (joined l.path, { value := l.text, position := positionOf (joined l.path) }) := by
    funext l
    rw [StringLeaf.entry, StringLeaf.token, tokenOf_eq_joined]
  have hfinding : findingOf positionOf locale = fun l =>
      .nonStringValue (joined l.path) locale l.value.kind (positionOf (joined l.path)) := by
    funext l
    rw [findingOf, tokenOf_eq_joined]
  rw [ofDocument_eq, hentry, hfinding]
  constructor
  case locale_eq => rfl
  case file_eq => rfl
  case entries => rfl
  case tokens =>
    have hkeys := OrderedMap.firsts_keys_ofList ((stringLeaves document).map fun l =>
      (joined l.path, ({ value := l.text, position := positionOf (joined l.path) } : Entry)))
    rw [List.map_map] at hkeys
    exact hkeys
  case entry =>
    intro before l after hsplit hlast
    show OrderedMap.get? (.ofList ((strings _).map _)) _ = _
    rw [OrderedMap.get?_ofList, hsplit, ← List.map_reverse]
    rw [List.reverse_append, List.reverse_cons, List.append_assoc, List.map_append,
      OrderedMap.lookup_append]
    have hafter : OrderedMap.lookup (joined l.path) (after.reverse.map fun l =>
        (joined l.path, ({ value := l.text, position := positionOf (joined l.path) } : Entry))) =
          none := by
      rw [OrderedMap.lookup_eq_none_iff, List.map_map]
      intro hmem
      obtain ⟨l', hl', he⟩ := List.mem_map.1 hmem
      exact hlast l' (List.mem_reverse.1 hl') he
    rw [hafter, Option.none_or]
    exact if_pos rfl
  case diagnostics => rfl

/-- **A document is loaded by walking through its leaves in order.** The leaves with their places
are one list only, and the dictionary and the findings come from it. What is put at any one place of
a document changes nothing about the paths, the values and the order of the other leaves. -/
theorem ofDocument_walk (file locale : String) (positionOf : String → Position) :
    (∀ members : List (String × Value String), ∃ leaves : List (List Nat × PlacedLeaf),
      (∀ other, IsWalk (.object members) other ↔ other = leaves) ∧
      ComesFrom file locale positionOf (leaves.map Prod.snd)
        (ofDocument file locale positionOf (.object members))) ∧
    ∀ c : Context, ∃ before after, ∀ v, ∃ inner leaves, IsWalk v inner ∧ IsWalk (c.plug v) leaves ∧
      leaves.map Prod.snd = before ++ (inner.map Prod.snd).map (.beneath c.path) ++ after := by
  constructor
  · intro members
    have hwalk := isWalk_walk (.object members)
    refine ⟨walk (.object members), fun other => ⟨fun h => h.unique hwalk, ?_⟩, ?_⟩
    · rintro rfl
      exact hwalk
    · rw [map_snd_walk]
      exact comesFrom_ofDocument file locale positionOf _
  · intro c
    obtain ⟨before, after, hplug⟩ := exists_placedLeaves_plug c
    refine ⟨before, after, fun v => ⟨walk v, walk (c.plug v), isWalk_walk _, isWalk_walk _, ?_⟩⟩
    rw [map_snd_walk, map_snd_walk, hplug]

end Phrasebook.LocaleFile
