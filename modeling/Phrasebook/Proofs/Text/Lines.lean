import Mathlib.Data.List.Basic

/-!
# The numbers of lines

The line that the end of a text begins on has as its number one more than there are line feeds
before that end.
-/

namespace Phrasebook.Text

variable {cs pre rest rest' : List Char}

/-- The number of the line on which the end of a text begins, counted from one. -/
def lineOf (cs rest : List Char) : Nat := 1 + (cs.take (cs.length - rest.length)).count '\n'

@[simp] theorem lineOf_append (pre rest : List Char) :
    lineOf (pre ++ rest) rest = 1 + pre.count '\n' := by
  rw [lineOf, List.length_append, Nat.add_sub_cancel, List.take_left']
  rfl

/-- A longer end begins on an earlier line. -/
theorem lineOf_le_of_suffix (hrest : rest <:+ cs) (h : rest' <:+ rest) :
    lineOf cs rest ≤ lineOf cs rest' := by
  obtain ⟨pre, rfl⟩ := hrest
  obtain ⟨between, rfl⟩ := h
  rw [lineOf_append, ← List.append_assoc, lineOf_append, List.count_append]
  omega

/-- Where no line feed lies between two ends of a text, they begin on the same line. -/
theorem lineOf_eq_of_not_mem (h : '\n' ∉ pre) (hrest : pre ++ rest <:+ cs) :
    lineOf cs (pre ++ rest) = lineOf cs rest := by
  obtain ⟨before, rfl⟩ := hrest
  rw [lineOf_append, ← List.append_assoc, lineOf_append, List.count_append,
    List.count_eq_zero.2 h, Nat.add_zero]

end Phrasebook.Text
