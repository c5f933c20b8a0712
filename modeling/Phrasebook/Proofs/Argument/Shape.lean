import Phrasebook.Argument.Fragment
import Phrasebook.Proofs.OrderedMap

/-!
# Argument types of messages

The argument type of a message has a part for each of its variables, so that it is empty only if
there are none (`isEmpty_shapeOf`). The parts are names of fragments and a record in braces; none
of the well-known fragments begins like `undefined` (`render_builtin_ne_undefined`).
-/

namespace Phrasebook

namespace Registry

/-- A variable either has a fragment or is written out. -/
theorem isEmpty_shapeOf (r : Registry) (vs : List Variable) :
    (r.shapeOf vs).isEmpty = true ↔ vs = [] := by
  constructor
  · intro h
    rw [Shape.isEmpty, Bool.and_eq_true, List.isEmpty_iff, List.isEmpty_iff] at h
    obtain ⟨hfragments, hinlined⟩ := h
    apply List.eq_nil_iff_forall_not_mem.2
    intro v hv
    cases hf : r.fragmentFor? v with
    | none =>
      apply List.filter_eq_nil_iff.1 hinlined v hv
      rw [hf]
      rfl
    | some f =>
      have hname := List.filterMap_eq_nil_iff.1 hfragments v hv
      rw [hf] at hname
      cases hname
  · rintro rfl
    rfl

/-- The names of the fragments in an argument type are those of registered fragments. -/
theorem mem_values_of_mem_fragments {r : Registry} {vs : List Variable} {name : String}
    (h : name ∈ (r.shapeOf vs).fragments) : ∃ f ∈ r.values, f.name = name := by
  obtain ⟨v, _, hv⟩ := List.mem_filterMap.1 h
  obtain ⟨f, hf, rfl⟩ := Option.map_eq_some_iff.1 hv
  obtain ⟨hget, _⟩ := Option.filter_eq_some_iff.1 hf
  exact ⟨f, List.mem_map_of_mem (f := Prod.snd) (OrderedMap.get?_eq_some_iff.1 hget), rfl⟩

theorem head?_name_builtin : ∀ f ∈ builtin.values, f.name.toList.head? = some 'W' := by decide

end Registry

namespace Shape

/-- A text of several parts begins with the first of them. -/
theorem exists_intercalate_cons (separator part : String) (parts : List String) :
    ∃ rest, separator.intercalate (part :: parts) = part ++ rest := by
  cases parts with
  | nil => exact ⟨"", by rw [String.intercalate_singleton, String.append_empty]⟩
  | cons p ps =>
    refine ⟨separator ++ separator.intercalate (p :: ps), ?_⟩
    rw [String.intercalate_cons_cons, String.append_assoc]

theorem head?_toList_append {s t : String} {c : Char} (h : s.toList.head? = some c) :
    (s ++ t).toList.head? = some c := by
  rw [String.toList_append, List.head?_append, h]
  rfl

/-- An argument type is written as `undefined` only if it is empty or a fragment begins like it. -/
theorem render_ne_undefined {s : Shape} (hs : s.isEmpty = false)
    (h : ∀ name ∈ s.fragments, name.toList.head? = some 'W') : s.render ≠ "undefined" := by
  have hhead : s.render.toList.head? = some 'W' ∨ s.render.toList.head? = some '\x7b' := by
    unfold render
    rw [hs, if_neg Bool.false_ne_true]
    dsimp only
    cases hf : s.fragments with
    | cons name names =>
      obtain ⟨rest, hrest⟩ := exists_intercalate_cons " & " name (names ++ _)
      left
      rw [List.cons_append, hrest]
      exact head?_toList_append (h name (by rw [hf]; exact List.mem_cons_self))
    | nil =>
      have hinlined : s.inlined.isEmpty = false := by
        rw [isEmpty, hf] at hs
        exact hs
      right
      rw [hinlined, if_neg Bool.false_ne_true, List.nil_append, String.intercalate_singleton]
      exact head?_toList_append (head?_toList_append rfl)
  intro he
  rw [he] at hhead
  revert hhead
  decide

end Shape

/-- **A message with arguments never has the type `undefined`.** -/
theorem Registry.render_builtin_ne_undefined {vs : List Variable} (h : vs ≠ []) :
    (builtin.shapeOf vs).render ≠ "undefined" := by
  refine Shape.render_ne_undefined ?_ fun name hname => ?_
  · rw [Bool.eq_false_iff, ne_eq, isEmpty_shapeOf]
    exact h
  · obtain ⟨f, hf, rfl⟩ := mem_values_of_mem_fragments hname
    exact head?_name_builtin f hf

end Phrasebook
