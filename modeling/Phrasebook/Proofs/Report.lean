import Phrasebook.Report.Basic

/-!
# Reports in full and in brief

The empty lines of a report part it into paragraphs, one for each finding that is listed and a
closing one (`paragraphs_findingLines`). A report in brief has just those paragraphs of the report
in full that are about warnings, each once and in the same order, and the same closing one
(`briefReport`).
-/

namespace Phrasebook.Report

variable {verbose : Bool} {ds : List Diagnostic}

/-- The lines between empty ones. -/
def paragraphs (lines : List Line) : List (List Line) := lines.splitOn []

/-- The paragraph about a finding. -/
def paragraph (d : Diagnostic) : List Line :=
  [severitySpan d.severity, plain (": " ++ d.message ++ "  "),
      styled [.dimmed, .cyan] d.rule.name] ::
    (placeLines d.place ++ d.details?.toList.map noteLine)

/-- The paragraph with the number of warnings, if there are any. -/
def closing (warnings : Nat) : List Line :=
  if warnings = 0 then []
  else [[styled [.bold, .yellow] "warning:",
    plain (" generated " ++ counted warnings "warning" "warnings")]]

/-- The paragraph begins with the name of the severity. -/
def IsAbout (s : Severity) (lines : List Line) : Prop :=
  lines.head?.bind List.head? = some (severitySpan s)

instance (s : Severity) (lines : List Line) : Decidable (IsAbout s lines) :=
  inferInstanceAs (Decidable (_ = _))

theorem diagnosticLines_eq (d : Diagnostic) : diagnosticLines d = paragraph d ++ [[]] := rfl

theorem findingLines_eq (verbose : Bool) (ds : List Diagnostic) : findingLines verbose ds =
    (listed verbose ds).flatMap diagnosticLines ++ closing (warningCount ds) := rfl

theorem nil_not_mem_paragraph (d : Diagnostic) : [] ∉ paragraph d := by
  have hplace : [] ∉ placeLines d.place := by
    cases d.place <;> simp [placeLines, positionLine]
  simp [paragraph, hplace, noteLine]

theorem nil_not_mem_closing (n : Nat) : [] ∉ closing n := by
  unfold closing
  split <;> simp

theorem paragraphs_of_not_mem {lines : List Line} (h : [] ∉ lines) :
    paragraphs lines = [lines] := by
  unfold paragraphs
  rw [List.splitOn_eq_splitOnP, List.splitOnP_eq_singleton]
  intro line hline
  exact beq_eq_false_iff_ne.2 fun hnil => h (hnil ▸ hline)

theorem paragraphs_append {lines rest : List Line} (h : [] ∉ lines) :
    paragraphs (lines ++ [] :: rest) = lines :: paragraphs rest := by
  have hlines := paragraphs_of_not_mem h
  unfold paragraphs at *
  rw [List.splitOn_eq_splitOnP] at *
  rw [List.splitOnP_append_cons lines rest (by rfl), hlines]
  rfl

/-- **The paragraphs of a report.** -/
theorem paragraphs_findingLines (verbose : Bool) (ds : List Diagnostic) :
    paragraphs (findingLines verbose ds) =
      (listed verbose ds).map paragraph ++ [closing (warningCount ds)] := by
  rw [findingLines_eq]
  induction listed verbose ds with
  | nil => exact paragraphs_of_not_mem (nil_not_mem_closing _)
  | cons d ds' ih =>
    rw [List.flatMap_cons, diagnosticLines_eq, List.append_assoc, List.append_assoc,
      List.singleton_append, paragraphs_append (nil_not_mem_paragraph d), ih]
    rfl

theorem isAbout_paragraph_iff {s : Severity} {d : Diagnostic} :
    IsAbout s (paragraph d) ↔ d.severity = s := by
  show some (severitySpan d.severity) = some (severitySpan s) ↔ _
  cases d.severity <;> cases s <;> decide

theorem filter_paragraphs (ds : List Diagnostic) :
    (ds.map paragraph).filter (IsAbout .warning) = (listed false ds).map paragraph := by
  rw [List.filter_map]
  congr 1
  apply List.filter_congr
  intro d _
  simp [isAbout_paragraph_iff]

theorem not_isAbout_closing (s : Severity) (n : Nat) : ¬ IsAbout s (closing n) := by
  unfold closing
  split
  · nofun
  · cases s <;> simp [IsAbout, severitySpan, styled]

/-- What a report in brief shows of the findings, next to the report in full. -/
structure BriefReport (ds : List Diagnostic) (full brief : List Line) : Prop where
  /-- In full there is a paragraph for each finding. -/
  full_eq : paragraphs full = ds.map paragraph ++ [closing (warningCount ds)]
  /-- In brief there are those about warnings. -/
  brief_eq : paragraphs brief =
    (ds.map paragraph).filter (IsAbout .warning) ++ [closing (warningCount ds)]
  no_note : ∀ lines ∈ paragraphs brief, ¬ IsAbout .note lines
  /-- The closing number is that of the paragraphs about warnings. -/
  warningCount_eq : warningCount ds = ((ds.map paragraph).filter (IsAbout .warning)).length

theorem briefReport (ds : List Diagnostic) :
    BriefReport ds (findingLines true ds) (findingLines false ds) where
  full_eq := by
    rw [paragraphs_findingLines]
    congr 2
    exact List.filter_eq_self.2 fun _ _ => rfl
  brief_eq := by rw [paragraphs_findingLines, filter_paragraphs]
  no_note := by
    intro lines hlines
    rw [paragraphs_findingLines, List.mem_append, List.mem_singleton] at hlines
    rcases hlines with hlines | rfl
    · obtain ⟨d, hd, rfl⟩ := List.mem_map.1 hlines
      rw [isAbout_paragraph_iff, of_decide_eq_true (List.mem_filter.1 hd).2]
      nofun
    · exact not_isAbout_closing _ _
  warningCount_eq := by
    rw [filter_paragraphs, List.length_map, warningCount, List.countP_eq_length_filter]
    rfl

/-! ## What comes after the findings -/

/-- The number of fallbacks that a summary tells of. -/
def fallbackCount : Summary → Nat
  | .generated _ _ stats => stats.fallbackCount
  | .checked _ _ stats => stats.fallbackCount
  | .initialized _ => 0

theorem fallbackLines_ne_nil_iff {n : Nat} :
    fallbackLines verbose n ≠ [] ↔ verbose = false ∧ 0 < n := by
  unfold fallbackLines
  cases verbose <;> simp [Nat.pos_iff_ne_zero]

/-- Behind the findings and the number of fallbacks there is one line more. -/
theorem exists_resultLines_eq (r : CommandResult) : ∃ last : Line, ∀ verbose,
    resultLines verbose r = findingLines verbose r.diagnostics ++
      fallbackLines verbose (fallbackCount r.summary) ++ [last] := by
  unfold resultLines
  rcases r with ⟨_ | _ | _, ds⟩
  · exact ⟨_, fun _ => (List.append_assoc ..).symm⟩
  · exact ⟨_, fun _ => (List.append_assoc ..).symm⟩
  · exact ⟨_, fun _ => by rw [List.append_assoc]; rfl⟩

end Phrasebook.Report
