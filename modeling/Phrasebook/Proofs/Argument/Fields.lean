import Phrasebook.Module.Merged
import Phrasebook.Proofs.Argument.Shape

/-!
# The fields of an argument type

The argument type of a message keeps each variable once: as the name of the fragment that is
declared with just its name and type, or as a field of its own (`shapeOf_keeps`). Of fragments for
the same argument name the last one is declared. If the names of the fragments are replaced by the
fields that they are declared with, the type has the fields of the record of arguments
(`saysTheSame`).
-/

namespace Phrasebook

/-- A field as it is written: its key and the name of its type. -/
structure WrittenField where
  key : String
  type : String
  deriving DecidableEq

namespace WrittenField

/-- The field in a type. -/
def inType (f : WrittenField) : String := f.key ++ ": " ++ f.type

/-- The field in a record that holds the names of the types. -/
def inRecord (f : WrittenField) : String := f.key ++ ": \"" ++ f.type ++ "\""

end WrittenField

/-- The field that a variable is written as. -/
def Variable.written (v : Variable) : WrittenField := ⟨Literal.quoteKey v.name, v.type.name⟩

/-- The field that the declaration of a fragment gives it. -/
def Fragment.written (f : Fragment) : WrittenField := ⟨f.argument.name, f.argument.type.name⟩

theorem Fragment.declaration_eq (f : Fragment) :
    f.declaration = "type " ++ f.name ++ " = \x7b" ++ f.written.inType ++ "\x7d;" := by
  simp [declaration, WrittenField.inType, written, String.append_assoc]

namespace Shape

/-- The field that a name stands for among some declarations. -/
def declared? (declarations : List Fragment) (name : String) : Option WrittenField :=
  (declarations.find? (·.name = name)).map Fragment.written

/-- The fields of an argument type, those of the named fragments by their declarations. -/
def fields (declarations : List Fragment) (s : Shape) : List WrittenField :=
  s.fragments.filterMap (declared? declarations) ++ s.inlined.map Variable.written

/-- The parts of an argument type, as they are written. -/
def parts (s : Shape) : List String :=
  s.fragments ++ if s.inlined.isEmpty then []
    else ["\x7b " ++ ", ".intercalate (s.inlined.map Variable.field) ++ " \x7d"]

theorem render_of_isEmpty {s : Shape} (h : s.isEmpty = true) : s.render = "undefined" := if_pos h

theorem render_of_not_isEmpty {s : Shape} (h : s.isEmpty = false) :
    s.render = " & ".intercalate s.parts := by
  unfold render
  rw [h]
  rfl

/-- Several parts are not written as one word. -/
theorem ampersand_mem_intercalate (p q : String) (ps : List String) :
    '&' ∈ (" & ".intercalate (p :: q :: ps)).toList := by
  rw [String.intercalate_cons_cons, String.toList_append, String.toList_append]
  exact List.mem_append_left _ (List.mem_append_right _ (by decide))

theorem render_eq_undefined_iff {s : Shape} :
    s.render = "undefined" ↔
      s.isEmpty = true ∨ s.fragments = ["undefined"] ∧ s.inlined = [] := by
  cases he : s.isEmpty with
  | true => simp [render_of_isEmpty he]
  | false =>
    rw [render_of_not_isEmpty he, or_iff_right Bool.false_ne_true]
    constructor
    · intro h
      rcases hp : s.parts with _ | ⟨p, _ | ⟨q, ps⟩⟩
      · rw [hp] at h
        exact absurd h (by decide)
      · rw [hp, String.intercalate_singleton] at h
        subst h
        unfold parts at hp
        cases hi : s.inlined with
        | nil =>
          rw [hi] at hp
          exact ⟨by simpa using hp, rfl⟩
        | cons v vs =>
          rw [hi] at hp
          obtain ⟨-, hlast⟩ := List.append_inj' (show _ ++ [_] = [] ++ [_] from hp) rfl
          have hhead := congrArg (fun l => l.head?.bind fun part => part.toList.head?) hlast
          rw [List.head?_cons, List.head?_cons] at hhead
          simp at hhead
      · rw [hp] at h
        have hmem := ampersand_mem_intercalate p q ps
        rw [h] at hmem
        exact absurd hmem (by decide)
    · rintro ⟨hf, hi⟩
      simp [parts, hf, hi]

end Shape

namespace Registry

variable {table : List Fragment} {f : Fragment} {v : Variable} {vs : List Variable}

/-! ## The declared fragments -/

theorem lookup_map_argument (name : String) (fs : List Fragment) :
    OrderedMap.lookup name (fs.map fun f => (f.argument.name, f)) =
      fs.find? (·.argument.name = name) := by
  induction fs with
  | nil => rfl
  | cons f fs ih =>
    rw [List.map_cons, OrderedMap.lookup, List.find?_cons, ih]
    by_cases h : f.argument.name = name <;> simp [h]

/-- Of the fragments for an argument name the last one counts. -/
theorem get?_ofFragments (table : List Fragment) (name : String) :
    (ofFragments table).get? name = table.reverse.find? (·.argument.name = name) := by
  rw [ofFragments, OrderedMap.get?_ofList, ← List.map_reverse, lookup_map_argument]

theorem argument_name_of_get? {name : String} (h : (ofFragments table).get? name = some f) :
    f.argument.name = name := by
  rw [get?_ofFragments] at h
  simpa using List.find?_some h

theorem mem_values_iff :
    f ∈ (ofFragments table).values ↔ (ofFragments table).get? f.argument.name = some f := by
  constructor
  · intro h
    obtain ⟨⟨name, g⟩, hmem, rfl⟩ := List.mem_map.1 h
    have hget := OrderedMap.get?_eq_some_iff.2 hmem
    dsimp only
    rw [argument_name_of_get? hget]
    exact hget
  · intro h
    exact List.mem_map_of_mem (f := Prod.snd) (OrderedMap.get?_eq_some_iff.1 h)

/-- The fragment of a variable is the one that is declared with its name and type. -/
theorem fragmentFor?_eq_some_iff :
    (ofFragments table).fragmentFor? v = some f ↔
      f ∈ (ofFragments table).values ∧ f.argument = v := by
  rw [fragmentFor?, Option.filter_eq_some_iff, mem_values_iff, decide_eq_true_iff]
  constructor
  · rintro ⟨hget, htype⟩
    have hname := argument_name_of_get? hget
    rw [hname]
    exact ⟨hget, by cases v; cases hf : f.argument; simp_all⟩
  · rintro ⟨hget, rfl⟩
    exact ⟨hget, rfl⟩

/-- A fragment is declared with the name and the type of the variable. -/
def Registered (r : Registry) (v : Variable) : Prop := ∃ f ∈ r.values, f.argument = v

instance (r : Registry) : DecidablePred r.Registered :=
  fun v => inferInstanceAs (Decidable (∃ f ∈ r.values, f.argument = v))

theorem isSome_fragmentFor? :
    ((ofFragments table).fragmentFor? v).isSome = decide ((ofFragments table).Registered v) := by
  rw [Bool.eq_iff_iff, Option.isSome_iff_exists, decide_eq_true_iff]
  simp only [fragmentFor?_eq_some_iff]
  rfl

/-! ## What becomes of the variables -/

theorem inlined_shapeOf (table : List Fragment) (vs : List Variable) :
    ((ofFragments table).shapeOf vs).inlined =
      vs.filter fun v => ¬ (ofFragments table).Registered v := by
  show vs.filter _ = _
  refine List.filter_congr fun v _ => ?_
  rw [← Option.not_isSome, isSome_fragmentFor?, decide_not]

theorem forall₂_fragments_shapeOf (table : List Fragment) (vs : List Variable) :
    List.Forall₂ (fun v name => ∃ f ∈ (ofFragments table).values, f.argument = v ∧ f.name = name)
      (vs.filter fun v => (ofFragments table).Registered v)
      ((ofFragments table).shapeOf vs).fragments := by
  show List.Forall₂ _ _ (vs.filterMap _)
  induction vs with
  | nil => exact .nil
  | cons v vs ih =>
    by_cases hreg : (ofFragments table).Registered v
    · obtain ⟨f, hf, harg⟩ := hreg
      have hfor := fragmentFor?_eq_some_iff.2 ⟨hf, harg⟩
      rw [List.filterMap_cons_some (by rw [hfor]; rfl), List.filter_cons,
        if_pos (decide_eq_true ⟨f, hf, harg⟩)]
      exact .cons ⟨f, hf, harg, rfl⟩ ih
    · have hfor : (ofFragments table).fragmentFor? v = none := by
        rw [← Option.not_isSome_iff_eq_none, isSome_fragmentFor?, decide_eq_true_iff]
        exact hreg
      rw [List.filterMap_cons_none (by rw [hfor]; rfl), List.filter_cons,
        if_neg (by rw [decide_eq_false hreg]; nofun)]
      exact ih

/-- An argument type is written as `undefined` if there are no variables, or if the only one has a
fragment of this name. -/
theorem render_shapeOf_eq_undefined_iff :
    ((ofFragments table).shapeOf vs).render = "undefined" ↔
      vs = [] ∨ ∃ v, vs = [v] ∧
        ∃ f ∈ (ofFragments table).values, f.argument = v ∧ f.name = "undefined" := by
  rw [Shape.render_eq_undefined_iff, isEmpty_shapeOf]
  refine or_congr_right ⟨fun ⟨hfragments, hinlined⟩ => ?_, ?_⟩
  · have hkept := forall₂_fragments_shapeOf table vs
    rw [inlined_shapeOf, List.filter_eq_nil_iff] at hinlined
    rw [hfragments, List.filter_eq_self.2 fun v hv => by simpa using hinlined v hv] at hkept
    obtain ⟨v, vs', hv, hnil, rfl⟩ := List.forall₂_cons_right_iff.1 hkept
    rw [List.forall₂_nil_right_iff] at hnil
    exact ⟨v, by rw [hnil], hv⟩
  · rintro ⟨v, rfl, f, hf, harg, hname⟩
    have hfor := fragmentFor?_eq_some_iff.2 ⟨hf, harg⟩
    exact ⟨by simp [shapeOf, hfor, hname], by simp [shapeOf, hfor]⟩

/-! ## The fields of both -/

/-- A type whose fragments are declared with the fields of their arguments has the fields of its
variables. -/
theorem fields_shapeOf (h : ∀ f ∈ (ofFragments table).values,
    Shape.declared? (ofFragments table).values f.name = some f.argument.written)
    (vs : List Variable) :
    (((ofFragments table).shapeOf vs).fields (ofFragments table).values).Perm
      (vs.map Variable.written) := by
  unfold Shape.fields shapeOf
  rw [List.filterMap_filterMap]
  induction vs with
  | nil => exact .nil
  | cons v vs ih =>
    cases hf : (ofFragments table).fragmentFor? v with
    | none =>
      rw [List.filterMap_cons_none (by rw [hf]; rfl), List.filter_cons, if_pos (by rw [hf]; rfl),
        List.map_cons, List.map_cons]
      exact List.perm_middle.trans (ih.cons _)
    | some f =>
      obtain ⟨hmem, rfl⟩ := fragmentFor?_eq_some_iff.1 hf
      rw [List.filterMap_cons_some (by rw [hf]; exact h f hmem), List.filter_cons,
        if_neg (by rw [hf]; nofun), List.map_cons]
      exact ih.cons _

/-- The well-known fragments are told apart by their names, and their arguments are written as they
are. -/
theorem declared?_builtin : ∀ f ∈ builtin.values,
    Shape.declared? builtin.values f.name = some f.argument.written := by
  decide +kernel

/-! ## Types and records -/

/-- What becomes of variables in an argument type, by a registry that is made of a table. -/
structure Keeps (table : List Fragment) (vs : List Variable) : Prop where
  /-- Of the fragments for the same argument name the last one is declared. -/
  declared : ∀ f, f ∈ (ofFragments table).values ↔
    table.reverse.find? (·.argument.name = f.argument.name) = some f
  /-- The registered variables have the names of the fragments that are declared with them. -/
  fragments : List.Forall₂
    (fun v name => ∃ f ∈ (ofFragments table).values, f.argument = v ∧ f.name = name)
    (vs.filter fun v => (ofFragments table).Registered v)
    ((ofFragments table).shapeOf vs).fragments
  /-- The others have fields of their own. -/
  inlined : ((ofFragments table).shapeOf vs).inlined =
    vs.filter fun v => ¬ (ofFragments table).Registered v
  undefined_iff : ((ofFragments table).shapeOf vs).render = "undefined" ↔
    vs = [] ∨ ∃ v, vs = [v] ∧
      ∃ f ∈ (ofFragments table).values, f.argument = v ∧ f.name = "undefined"

theorem keeps (table : List Fragment) (vs : List Variable) : Keeps table vs where
  declared f := by rw [mem_values_iff, get?_ofFragments]
  fragments := forall₂_fragments_shapeOf table vs
  inlined := inlined_shapeOf table vs
  undefined_iff := render_shapeOf_eq_undefined_iff

/-- The type and the record that are written for the same variables have the same fields, if the
well-known fragments in the type are replaced by the fields that they are declared with. -/
structure SaysTheSame (vs : List Variable) : Prop where
  undefined_iff : (builtin.shapeOf vs).render = "undefined" ↔ vs = []
  names_nodup : (builtin.values.map Fragment.name).Nodup
  declarations : Module.fragmentSection builtin =
    builtin.values.map fun f => "type " ++ f.name ++ " = \x7b" ++ f.written.inType ++ "\x7d;"
  type : vs ≠ [] → (builtin.shapeOf vs).render =
    " & ".intercalate ((builtin.shapeOf vs).fragments ++
      if (builtin.shapeOf vs).inlined.isEmpty then []
      else ["\x7b " ++ ", ".intercalate
        ((builtin.shapeOf vs).inlined.map fun v => v.written.inType) ++ " \x7d"])
  record : Module.argumentRecord vs =
    "\x7b" ++ ", ".intercalate (vs.map fun v => v.written.inRecord) ++ "\x7d"
  fields : ((builtin.shapeOf vs).fields builtin.values).Perm (vs.map Variable.written)

theorem saysTheSame (vs : List Variable) : SaysTheSame vs where
  undefined_iff :=
    ⟨fun h => by_contra fun hne => render_builtin_ne_undefined hne h, fun h => by rw [h]; rfl⟩
  names_nodup := by decide +kernel
  declarations := List.map_congr_left fun f _ => f.declaration_eq
  type hne := by
    rw [Shape.render_of_not_isEmpty]
    · rfl
    · rw [Bool.eq_false_iff, ne_eq, isEmpty_shapeOf]
      exact hne
  record := rfl
  fields := fields_shapeOf declared?_builtin vs

/-- **Argument types keep every variable**, and say what the records of arguments say. -/
theorem shapeOf_keeps (table : List Fragment) (vs : List Variable) :
    Keeps table vs ∧ SaysTheSame vs :=
  ⟨keeps table vs, saysTheSame vs⟩

/-- A fragment that has the name of the type without arguments. -/
theorem render_of_fragment_undefined :
    [Variable.ofName "name"] ≠ [] ∧
      ((ofFragments [⟨"undefined", .ofName "name"⟩]).shapeOf [.ofName "name"]).render =
        "undefined" := by
  decide

end Registry

end Phrasebook
