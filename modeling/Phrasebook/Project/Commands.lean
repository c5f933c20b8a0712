import Phrasebook.Diagnostic.Order
import Phrasebook.LocaleFolder
import Phrasebook.Module
import Phrasebook.Project.Settings

/-!
# Commands on a project

Compiling a project reads locale files and writes nothing. What a command does with the compiled
module, and what it has to report, is told by its outcome.
-/

namespace Phrasebook

/-- What the report says about a compilation. -/
structure Stats where
  counts : TokenCounts
  localeCount : Nat
  fallbackCount : Nat
  deriving DecidableEq

/-- The text of the module and what was found on the way. -/
structure CompiledProject where
  text : String
  stats : Stats
  diagnostics : List Diagnostic
  deriving DecidableEq

/-- Loads and compiles the locale files of a project. -/
def Workspace.compileProject (w : Workspace) (s : Settings) : Except Failure CompiledProject := do
  let loaded ← LocaleFolder.load w s.messagesRoot s.sourceLocale
  match loaded.locales.compile s.sourceLocale with
  | .error e => throw (.compile e)
  | .ok c => return {
      text := c.render s.options
      stats := ⟨c.counts, c.locales.length, c.fallbackCount⟩
      diagnostics := loaded.diagnostics ++ c.diagnostics }

/-- What became of the module. -/
inductive WriteOutcome where
  | written
  /-- The file had the same content already. -/
  | unchanged
  /-- The module was printed, and no file touched. -/
  | printed (text : String)
  deriving DecidableEq

/-- The state of the output file. -/
inductive OutputStatus where
  | upToDate | stale | missing
  deriving DecidableEq

/-- What a command did. -/
inductive Summary where
  | generated (output : Path) (outcome : WriteOutcome) (stats : Stats)
  | checked (output : Path) (status : OutputStatus) (stats : Stats)
  | initialized (file : Path)
  deriving DecidableEq

/-- What a command did and found, the findings in the order of the report. -/
structure CommandResult where
  summary : Summary
  diagnostics : List Diagnostic
  deriving DecidableEq

namespace Workspace

/-- Writes the module, and first makes the folders around it that are missing. -/
def writeOutput (w : Workspace) (output : Path) (text : String) :
    Workspace × Except Failure Unit :=
  let write (w : Workspace) : Workspace × Except Failure Unit :=
    match w.write output text.toUTF8 with
    | .ok w => (w, .ok ())
    | .error e => (w, .error (.writeOutput output e))
  match output.ancestors.tail with
  | [] => write w
  | parent :: farther =>
    if parent.text = "" then write w
    else
      match w.makeFolders ((parent :: farther).filter (·.text ≠ "")) with
      | (w, .ok ()) => write w
      | (w, .error e) => (w, .error (.makeOutputFolder parent e))

/-- The file has exactly the text. -/
def holdsText (w : Workspace) (file : Path) (text : String) : Bool :=
  match w.readText file with
  | .ok content => content = text
  | .error _ => false

/-- Compiles a project and writes its module unless the file has the same content already, or only
prints it. -/
def generate (w : Workspace) (s : Settings) (toStdout : Bool) :
    Workspace × Except Failure CommandResult :=
  match w.compileProject s with
  | .error e => (w, .error e)
  | .ok c =>
    let result (outcome : WriteOutcome) : CommandResult :=
      ⟨.generated s.output outcome c.stats, Diagnostic.sort c.diagnostics⟩
    if toStdout then (w, .ok (result (.printed c.text)))
    else if w.holdsText s.output c.text then (w, .ok (result .unchanged))
    else
      match w.writeOutput s.output c.text with
      | (w, .ok ()) => (w, .ok (result .written))
      | (w, .error e) => (w, .error e)

/-- Compiles a project and compares its module with the file that is there. -/
def check (w : Workspace) (s : Settings) : Except Failure CommandResult := do
  let c ← w.compileProject s
  let status ← match w.readText s.output with
    | .ok text => pure (if text = c.text then OutputStatus.upToDate else .stale)
    | .error .notFound => pure .missing
    | .error e => throw (.readOutput s.output e)
  return ⟨.checked s.output status c.stats, Diagnostic.sort c.diagnostics⟩

/-- Writes a configuration file with the defaults into the working folder. -/
def init (w : Workspace) : Workspace × Except Failure CommandResult :=
  let file : Path := ⟨configFileName⟩
  if w.pathExists file then (w, .error .configExists)
  else
    match w.write file (Config.render {}).toUTF8 with
    | .error e => (w, .error (.writeConfig e))
    | .ok w => (w, .ok ⟨.initialized file, []⟩)

end Workspace

end Phrasebook
