import Phrasebook.Diagnostic.Basic

/-!
# The order of a report

Findings are listed by file, line, rule and message, those without a file last. Findings that agree
in all of these keep the order in which they were made.
-/

namespace Phrasebook.Diagnostic

/-- The order by file, line, rule and message. Files go by the code points of their names. -/
def order : Diagnostic → Diagnostic → Ordering :=
  compareLex (compareOn (·.place.file?.isNone)) <|
  compareLex (compareOn (·.place.file?.getD "")) <|
  compareLex (compareOn (·.place.line)) <|
  compareLex (compareOn (·.rule.rank)) <|
  compareOn message

/-- The findings as a report lists them. -/
def sort (ds : List Diagnostic) : List Diagnostic := ds.mergeSort fun a b => (order a b).isLE

end Phrasebook.Diagnostic
