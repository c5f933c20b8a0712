import Phrasebook.Project.Commands
import Phrasebook.Report.Styled

/-!
# Reports

What is told about a run: the findings first, then how many warnings there were, then what the
command did. Notes are listed only on request; otherwise their number is given.
-/

namespace Phrasebook.Report

/-- A number and the noun that goes with it. -/
def counted (n : Nat) (one many : String) : String :=
  toString n ++ " " ++ (if n = 1 then one else many)

def severitySpan : Severity → Span
  | .warning => styled [.bold, .yellow] "warning"
  | .note => styled [.bold, .cyan] "note"

def arrow : Span := styled [.blue] "-->"

/-- A place in a file. -/
def positionText (p : Position) : String :=
  p.file ++ ":" ++ toString p.line ++ ":" ++ toString p.column

def positionLine (p : Position) : Line := [plain "  ", arrow, plain (" " ++ positionText p)]

def placeLines : Place → List Line
  | .nowhere => []
  | .inFile file => [[plain "  ", arrow, plain (" " ++ file)]]
  | .onLine p => [positionLine p]

def noteLine (text : String) : Line :=
  [plain "  ", styled [.blue] "=", plain " ", styled [.bold] "note:", plain (" " ++ text)]

/-- A finding, and an empty line after it. -/
def diagnosticLines (d : Diagnostic) : List Line :=
  [[severitySpan d.severity, plain (": " ++ d.message ++ "  "),
      styled [.dimmed, .cyan] d.rule.name]] ++
    placeLines d.place ++ d.details?.toList.map noteLine ++ [[]]

/-- The findings that are listed. -/
def listed (verbose : Bool) (ds : List Diagnostic) : List Diagnostic :=
  ds.filter fun d => verbose || d.severity = .warning

def warningCount (ds : List Diagnostic) : Nat := ds.countP (·.severity = .warning)

/-- The findings, and the number of warnings if there are any. -/
def findingLines (verbose : Bool) (ds : List Diagnostic) : List Line :=
  let warnings := warningCount ds
  let closing : List Line :=
    if warnings = 0 then []
    else [[styled [.bold, .yellow] "warning:",
      plain (" generated " ++ counted warnings "warning" "warnings")]]
  (listed verbose ds).flatMap diagnosticLines ++ closing

/-- The number of fallbacks, where they are not listed. -/
def fallbackLines (verbose : Bool) (count : Nat) : List Line :=
  if count = 0 || verbose then []
  else [[styled [.bold, .cyan] "note:",
    plain (" " ++ counted count "translation" "translations" ++
      " fell back to the source locale (use "),
    styled [.cyan] "-v", plain " for details)"]]

def statsText (s : Stats) : String :=
  counted s.counts.total "token" "tokens" ++ ", " ++ counted s.localeCount "locale" "locales"

def successLine (text : String) : Line := [styled [.green] "✓", plain " ", styled [.green] text]

def upToDateText (output : Path) (stats : Stats) : String :=
  output.text ++ " is up to date (" ++ statsText stats ++ ")"

/-- The line about an output file that is not as it should be. -/
def problemLine (output : Path) (problem : String) : Line :=
  [styled [.red] "✘", plain " ", styled [.red] (output.text ++ " " ++ problem), plain " (run ",
    styled [.cyan] "dictgen generate", plain ")"]

def generatedLine (output : Path) (stats : Stats) : WriteOutcome → Line
  | .written => successLine ("Generated " ++ output.text ++ " (" ++ statsText stats ++ ")")
  | .unchanged => successLine (upToDateText output stats)
  | .printed _ => successLine ("Compiled " ++ statsText stats)

def checkedLine (output : Path) (stats : Stats) : OutputStatus → Line
  | .upToDate => successLine (upToDateText output stats)
  | .stale => problemLine output "is out of date"
  | .missing => problemLine output "does not exist"

def summaryLines (verbose : Bool) : Summary → List Line
  | .generated output outcome stats =>
    fallbackLines verbose stats.fallbackCount ++ [generatedLine output stats outcome]
  | .checked output status stats =>
    fallbackLines verbose stats.fallbackCount ++ [checkedLine output stats status]
  | .initialized file => [successLine ("Created " ++ file.text)]

/-- The report of a command that came to an end. -/
def resultLines (verbose : Bool) (r : CommandResult) : List Line :=
  findingLines verbose r.diagnostics ++ summaryLines verbose r.summary

/-- The report of a compilation that came to nothing. -/
def compileErrorLines (e : CompileError) : List Line :=
  let first : Line := [styled [.bold, .red] "error", plain (": " ++ e.message)]
  [first] ++ e.position?.toList.map positionLine ++ [noteLine "no output was written"]

/-- The report of a run that came to nothing. -/
def failureLines : Failure → List Line
  | .compile e => compileErrorLines e
  | f => [[plain ("Error: " ++ f.message)]]

end Phrasebook.Report
