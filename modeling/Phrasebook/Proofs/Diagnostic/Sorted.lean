import Phrasebook.Proofs.Diagnostic.Order
import Phrasebook.Proofs.Text.Bytes

/-!
# A report in order

The order of findings compares their places by cases: two findings in files by file and line, and a
finding without a file not by its line but by its rule and message alone (`order_eq`). It can be
sorted by, and a report is its findings in this order, those in files before the others, with
findings that agree in everything as they came (`sort_stable`).
-/

namespace Phrasebook.Diagnostic

open Text (bytes)

/-- The rule comes earlier in the list of rules, or it is the same and the message comes earlier. -/
def PrecedesByRule (a b : Diagnostic) : Prop :=
  a.rule.rank < b.rule.rank ∨ a.rule = b.rule ∧ bytes a.message < bytes b.message

/-- The finding stands before the other one in a report: by file, line, rule and message, and before
all that are in no file. Texts are compared by their bytes. -/
def Precedes (a b : Diagnostic) : Prop :=
  match a.place.file?, b.place.file? with
  | some f, some g =>
    bytes f < bytes g ∨ f = g ∧
      (a.place.line < b.place.line ∨ a.place.line = b.place.line ∧ PrecedesByRule a b)
  | some _, none => True
  | none, some _ => False
  | none, none => PrecedesByRule a b

/-- The comparison by rule and message. -/
def orderByRule (a b : Diagnostic) : Ordering :=
  (compare a.rule.rank b.rule.rank).then (compare a.message b.message)

theorem line_eq_zero {p : Place} (h : p.file? = none) : p.line = 0 := by
  cases p with
  | nowhere => rfl
  | inFile file => cases h
  | onLine position => cases h

/-- The order by cases of where the findings are. -/
theorem order_eq (a b : Diagnostic) :
    order a b =
      match a.place.file?, b.place.file? with
      | some f, some g =>
        (compare f g).then ((compare a.place.line b.place.line).then (orderByRule a b))
      | some _, none => .lt
      | none, some _ => .gt
      | none, none => orderByRule a b := by
  simp only [order, compareLex, compareOn]
  cases ha : a.place.file? with
  | some f => cases b.place.file? <;> rfl
  | none =>
    cases hb : b.place.file? with
    | some g => rfl
    | none =>
      -- without files the lines are both zero
      rw [line_eq_zero ha, line_eq_zero hb]
      rfl

theorem compare_eq_lt_iff_bytes {s t : String} : compare s t = .lt ↔ bytes s < bytes t := by
  rw [← Text.lt_iff_bytes_lt]
  show compareOfLessAndEq s t = .lt ↔ _
  unfold compareOfLessAndEq
  split
  · rename_i h
    exact ⟨fun _ => h, fun _ => rfl⟩
  · rename_i h
    split
    · exact ⟨nofun, fun hlt => absurd hlt h⟩
    · exact ⟨nofun, fun hlt => absurd hlt h⟩

theorem orderByRule_eq_lt_iff {a b : Diagnostic} :
    orderByRule a b = .lt ↔ PrecedesByRule a b := by
  have hrule : a.rule.rank = b.rule.rank ↔ a.rule = b.rule :=
    ⟨Rule.eq_of_rank_eq, congrArg Rule.rank⟩
  rw [orderByRule, Ordering.then_eq_lt, compare_eq_lt_iff_bytes, Nat.compare_eq_lt,
    Nat.compare_eq_eq, hrule, PrecedesByRule]

theorem order_eq_lt_iff (a b : Diagnostic) : order a b = .lt ↔ Precedes a b := by
  rw [order_eq, Precedes]
  split
  · rw [Ordering.then_eq_lt, Ordering.then_eq_lt, orderByRule_eq_lt_iff, compare_eq_lt_iff_bytes,
      Nat.compare_eq_lt, Nat.compare_eq_eq, Std.LawfulEqCmp.compare_eq_iff_eq]
  · exact ⟨fun _ => trivial, fun _ => rfl⟩
  · exact ⟨nofun, nofun⟩
  · exact orderByRule_eq_lt_iff

theorem isLE_order_iff {a b : Diagnostic} : (order a b).isLE = true ↔ ¬ Precedes b a := by
  rw [← order_eq_lt_iff, show order b a = (order a b).swap from Std.OrientedCmp.eq_swap]
  cases order a b <;> simp

/-- What is in no file stands before nothing that is in one. -/
theorem precedes_of_isSome {a b : Diagnostic} (ha : a.place.file?.isSome)
    (hb : b.place.file? = none) : Precedes a b := by
  obtain ⟨f, hf⟩ := Option.isSome_iff_exists.1 ha
  rw [Precedes, hf, hb]
  trivial

/-- **The order of a report.** The order of findings is lawful, and one finding is less than another
exactly if it precedes it. Sorting by it keeps the findings, none of them precedes one that stands
before it, findings that compare equal stand as they came, and those in files stand before the
others. -/
theorem sort_stable :
    Sorting.Lawful order ∧ (∀ a b, order a b = .lt ↔ Precedes a b) ∧
    ∀ ds, Sorting.StablySorted order ds (sort ds) ∧
      (sort ds).Pairwise (fun a b => ¬ Precedes b a) ∧
      ∃ located others, sort ds = located ++ others ∧
        (∀ d ∈ located, d.place.file?.isSome) ∧ ∀ d ∈ others, d.place.file? = none := by
  refine ⟨Sorting.lawful order, order_eq_lt_iff, fun ds => ?_⟩
  have hsorted : Sorting.StablySorted order ds (sort ds) := Sorting.stablySorted_mergeSort ds
  have hpairwise : (sort ds).Pairwise fun a b => ¬ Precedes b a :=
    hsorted.ordered.imp isLE_order_iff.1
  refine ⟨hsorted, hpairwise, ?_⟩
  have hlocated : (sort ds).Pairwise fun a b =>
      b.place.file?.isSome = true → a.place.file?.isSome = true := by
    refine hpairwise.imp fun hab hb => ?_
    by_contra ha
    rw [Bool.not_eq_true, Option.isSome_eq_false_iff, Option.isNone_iff_eq_none] at ha
    exact hab (precedes_of_isSome hb ha)
  obtain ⟨located, others, heq, hin, hout⟩ := Sorting.exists_append_of_pairwise hlocated
  refine ⟨located, others, heq, hin, fun d hd => ?_⟩
  exact Option.not_isSome_iff_eq_none.1 (hout d hd)

end Phrasebook.Diagnostic
