/-!
# Beginnings of texts
-/

namespace Phrasebook.Text

/-- What follows a beginning, if the text has it. -/
def after? : List Char → List Char → Option (List Char)
  | [], cs => some cs
  | _ :: _, [] => none
  | b :: bs, c :: cs => if b = c then after? bs cs else none

theorem after?_eq_some_iff {bs cs rest : List Char} :
    after? bs cs = some rest ↔ cs = bs ++ rest := by
  induction bs generalizing cs with
  | nil => simp [after?]
  | cons b bs ih =>
    cases cs with
    | nil => simp [after?]
    | cons c cs =>
      by_cases h : b = c
      · subst h; simp [after?, ih]
      · simp [after?, h, Ne.symm h]

@[simp] theorem after?_append (bs rest : List Char) : after? bs (bs ++ rest) = some rest :=
  after?_eq_some_iff.2 rfl

end Phrasebook.Text
