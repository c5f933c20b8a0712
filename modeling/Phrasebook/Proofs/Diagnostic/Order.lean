import Phrasebook.Diagnostic.Order
import Phrasebook.Proofs.Sorting

/-!
# Findings in the order of a report

Two findings have the same place in the order exactly if they are in the same file, on the same line
and by the same rule, and say the same (`order_eq_eq_iff`).
-/

namespace Phrasebook

theorem Rule.eq_of_rank_eq {r r' : Rule} (h : r.rank = r'.rank) : r = r' := by
  cases r <;> cases r' <;> first | rfl | cases h

namespace Diagnostic

variable {a b : Diagnostic} {ds es : List Diagnostic}

instance : Std.TransCmp order :=
  inferInstanceAs (Std.TransCmp <|
    compareLex (compareOn fun d : Diagnostic => d.place.file?.isNone) <|
    compareLex (compareOn fun d : Diagnostic => d.place.file?.getD "") <|
    compareLex (compareOn fun d : Diagnostic => d.place.line) <|
    compareLex (compareOn fun d : Diagnostic => d.rule.rank) <| compareOn message)

theorem order_eq_eq_iff :
    order a b = .eq ↔ a.place.file? = b.place.file? ∧ a.place.line = b.place.line ∧
      a.rule = b.rule ∧ a.message = b.message := by
  have hfile : a.place.file? = b.place.file? ↔
      a.place.file?.isNone = b.place.file?.isNone ∧
        a.place.file?.getD "" = b.place.file?.getD "" := by
    cases a.place.file? <;> cases b.place.file? <;> simp
  have hrule : a.rule = b.rule ↔ a.rule.rank = b.rule.rank :=
    ⟨congrArg Rule.rank, Rule.eq_of_rank_eq⟩
  simp only [order, compareLex_eq_eq, compareOn, Std.LawfulEqCmp.compare_eq_iff_eq, hfile, hrule,
    and_assoc]

/-- Findings that are told apart are reported alike in whatever order they were made. -/
theorem sort_eq_of_perm (h : ds.Perm es)
    (hinj : ∀ a ∈ ds, ∀ b ∈ ds, order a b = .eq → a = b) : sort ds = sort es :=
  Sorting.mergeSort_eq_of_perm h hinj

end Diagnostic

end Phrasebook
