import Phrasebook.Proofs.Report

/-!
# The text of a report

What a report says is written out here as text. Each finding that is listed has a block, which ends
with an empty line; behind the blocks comes the number of warnings (`render_findingLines`), and in
brief the number of fallbacks (`render_fallbackLines`). A report is written line by line, so its
parts are written one behind the other (`render_append`).
-/

namespace Phrasebook.Report

/-! ## The text -/

/-- A word between the codes that switch its styles on and off, where styles are wanted. -/
def painted (color : Bool) (codes word : String) : String :=
  if color then "\x1b[" ++ codes ++ "m" ++ word ++ "\x1b[0m" else word

def severityText (color : Bool) : Severity → String
  | .warning => painted color "1;33" "warning"
  | .note => painted color "1;36" "note"

def placeText (color : Bool) : Place → String
  | .nowhere => ""
  | .inFile file => "  " ++ painted color "34" "-->" ++ " " ++ file ++ "\n"
  | .onLine p => "  " ++ painted color "34" "-->" ++ " " ++ p.file ++ ":" ++ toString p.line ++
    ":" ++ toString p.column ++ "\n"

def detailsText (color : Bool) : Option String → String
  | none => ""
  | some text =>
    "  " ++ painted color "34" "=" ++ " " ++ painted color "1" "note:" ++ " " ++ text ++ "\n"

/-- The block of a finding. -/
def block (color : Bool) (d : Diagnostic) : String :=
  severityText color d.severity ++ ": " ++ d.message ++ "  " ++ painted color "2;36" d.rule.name ++
    "\n" ++ placeText color d.place ++ detailsText color d.details? ++ "\n"

/-- The number of warnings, if there are any. -/
def closingText (color : Bool) (warnings : Nat) : String :=
  if warnings = 0 then ""
  else painted color "1;33" "warning:" ++ " generated " ++ toString warnings ++
    (if warnings = 1 then " warning\n" else " warnings\n")

/-- The number of fallbacks, if there are any. -/
def fallbackText (color : Bool) (count : Nat) : String :=
  if count = 0 then ""
  else painted color "1;36" "note:" ++ " " ++ toString count ++
    (if count = 1 then " translation" else " translations") ++
    " fell back to the source locale (use " ++ painted color "36" "-v" ++ " for details)\n"

/-! ## How lines are written -/

variable {color verbose : Bool} {style : Style} {styles : List Style} {word : String}

/-- **The parts of a report are written one behind the other.** -/
theorem render_append (lines lines' : List Line) :
    render color (lines ++ lines') = render color lines ++ render color lines' := by
  unfold render
  rw [List.map_append, String.join_append]

@[simp] theorem render_nil : render color [] = "" := rfl

@[simp] theorem render_cons (line : Line) (lines : List Line) : render color (line :: lines) =
    String.join (line.map (Span.render color)) ++ "\n" ++ render color lines :=
  String.join_cons

theorem render_flatMap {α : Type} (f : α → List Line) (xs : List α) :
    render color (xs.flatMap f) = String.join (xs.map fun x => render color (f x)) := by
  induction xs with
  | nil => rfl
  | cons x xs ih => rw [List.flatMap_cons, render_append, ih, List.map_cons, String.join_cons]

@[simp] theorem render_plain (text : String) : (plain text).render color = text := by
  unfold Span.render
  cases color <;> rfl

theorem keepOn_of_not_mem {on cs : List Char} (h : '\x1b' ∉ cs) : keepOn on cs = cs := by
  induction cs with
  | nil => rfl
  | cons c cs ih =>
    rw [List.mem_cons, not_or] at h
    rw [keepOn, ih h.2]
    rintro _ rfl
    exact absurd rfl h.1

/-- A word that switches no styles by itself is written between the codes for its styles. -/
theorem render_styled (h : '\x1b' ∉ word.toList) : (styled (style :: styles) word).render color =
    painted color (";".intercalate ((style :: styles).map Style.code)) word := by
  unfold Span.render painted styled
  cases color with
  | false => rfl
  | true =>
    dsimp only
    rw [keepOn_of_not_mem h, ← String.toList_inj]
    simp [switchOn, switchOff]

/-! ## The text of findings -/

theorem render_severitySpan (s : Severity) :
    (severitySpan s).render color = severityText color s := by
  cases s <;> exact render_styled (by decide)

theorem render_arrow : arrow.render color = painted color "34" "-->" := render_styled (by decide)

theorem render_placeLines (p : Place) : render color (placeLines p) = placeText color p := by
  cases p with
  | nowhere => rfl
  | inFile file => simp [placeLines, placeText, render_arrow, String.append_assoc]
  | onLine p =>
    simp [placeLines, placeText, positionLine, positionText, render_arrow, String.append_assoc]

theorem render_noteLines (details : Option String) :
    render color (details.toList.map noteLine) = detailsText color details := by
  cases details with
  | none => rfl
  | some text =>
    have hsign : (styled [.blue] "=").render color = painted color "34" "=" :=
      render_styled (by decide)
    have hnote : (styled [.bold] "note:").render color = painted color "1" "note:" :=
      render_styled (by decide)
    simp [noteLine, detailsText, hsign, hnote, String.append_assoc]

theorem render_diagnosticLines (d : Diagnostic) :
    render color (diagnosticLines d) = block color d := by
  have hrule : (styled [.dimmed, .cyan] d.rule.name).render color =
      painted color "2;36" d.rule.name := by
    refine render_styled ?_
    cases d.rule <;> decide
  unfold diagnosticLines block
  rw [render_append, render_append, render_append, render_placeLines, render_noteLines]
  simp [render_severitySpan, hrule, String.append_assoc]

theorem render_closing (n : Nat) : render color (closing n) = closingText color n := by
  have hword : (styled [.bold, .yellow] "warning:").render color =
      painted color "1;33" "warning:" := render_styled (by decide)
  unfold closing closingText counted
  split
  · rfl
  · split <;> simp [hword, String.append_assoc]

/-- **The text of the findings**: the blocks of those that are listed, and the number of warnings. -/
theorem render_findingLines (ds : List Diagnostic) :
    render color (findingLines verbose ds) =
      String.join ((listed verbose ds).map (block color)) ++
        closingText color (warningCount ds) := by
  rw [findingLines_eq, render_append, render_flatMap, render_closing]
  simp only [render_diagnosticLines]

/-- What a report in brief says of the findings, next to the report in full. -/
structure BriefText (color : Bool) (ds : List Diagnostic) (full brief : String) : Prop where
  /-- In full there is a block for each finding. -/
  full_eq : full = String.join (ds.map (block color)) ++ closingText color (warningCount ds)
  /-- In brief there are those of the warnings. -/
  brief_eq : brief = String.join ((ds.filter (·.severity = .warning)).map (block color)) ++
    closingText color (warningCount ds)

theorem briefText (color : Bool) (ds : List Diagnostic) :
    BriefText color ds (render color (findingLines true ds))
      (render color (findingLines false ds)) where
  full_eq := by
    have hall : listed true ds = ds := List.filter_eq_self.2 fun _ _ => rfl
    rw [render_findingLines, hall]
  brief_eq := by
    rw [render_findingLines]
    simp only [listed, Bool.false_or]

/-- **The text of the fallbacks**, which is for reports in brief. -/
theorem render_fallbackLines (n : Nat) :
    render color (fallbackLines verbose n) = if verbose then "" else fallbackText color n := by
  have hnote : (styled [.bold, .cyan] "note:").render color = painted color "1;36" "note:" :=
    render_styled (by decide)
  have hflag : (styled [.cyan] "-v").render color = painted color "36" "-v" :=
    render_styled (by decide)
  unfold fallbackLines fallbackText counted
  cases verbose with
  | true => rw [Bool.or_true]; rfl
  | false =>
    by_cases hn : n = 0
    · simp [hn]
    · by_cases hone : n = 1 <;> simp [hn, hone, hnote, hflag, String.append_assoc]

/-- Behind the findings and the number of fallbacks there is one line more. -/
theorem exists_render_resultLines_eq (color : Bool) (r : CommandResult) : ∃ last, ∀ verbose,
    render color (resultLines verbose r) = render color (findingLines verbose r.diagnostics) ++
      (if verbose then "" else fallbackText color (fallbackCount r.summary)) ++
      render color [last] := by
  obtain ⟨last, hlast⟩ := exists_resultLines_eq r
  refine ⟨last, fun verbose => ?_⟩
  rw [hlast, render_append, render_append, render_fallbackLines]

end Phrasebook.Report
