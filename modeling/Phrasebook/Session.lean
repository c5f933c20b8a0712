import Phrasebook.CommandLine.Parser
import Phrasebook.Report.Basic

/-!
# Sessions

A run of the program from its arguments to its exit: what it prints, what its exit status is, and
what the files are afterwards.
-/

namespace Phrasebook

/-- What can be seen of a run from outside. -/
structure Transcript where
  exit : Nat
  stdout : String := ""
  stderr : String := ""
  deriving DecidableEq

namespace Session

open CommandLine (Command CommonOptions UsageError)

/-- The exit status of a command: a module that is missing or out of date fails a check. -/
def exitStatus : Summary → Nat
  | .checked _ .upToDate _ => 0
  | .checked _ .stale _ => 1
  | .checked _ .missing _ => 1
  | _ => 0

/-- The text that a command prints to the standard output. -/
def printed : Summary → String
  | .generated _ (.printed text) _ => text
  | _ => ""

/-- The transcript of a command, after what was told before. -/
def transcript (verbose color : Bool) (before : String) :
    Except Failure CommandResult → Transcript
  | .ok r => {
      exit := exitStatus r.summary
      stdout := printed r.summary
      stderr := before ++ Report.render color (Report.resultLines verbose r) }
  | .error f => { exit := 2, stderr := before ++ Report.render color (Report.failureLines f) }

/-- What a verbose run tells if there is no configuration file. -/
def defaultsNote : String :=
  "Note: No " ++ configFileName ++ " found, using default configuration\n"

/-- What is told about the configuration. -/
def configurationNote (verbose : Bool) (c : Config.InUse) : String :=
  if verbose && !c.fromFile then defaultsNote else ""

/-- Runs a compiling command with its settings. -/
def withSettings (w : Workspace) (o : CommonOptions) (color : Bool)
    (run : Settings → Workspace × Except Failure CommandResult) : Workspace × Transcript :=
  match Settings.configuration w with
  | .error f => (w, transcript o.verbose color "" (.error f))
  | .ok c =>
    let (w, result) := run (.ofConfiguration c o)
    (w, transcript o.verbose color (configurationNote o.verbose c) result)

/-- Runs a command. -/
def run (w : Workspace) (command : Command) (color : Bool) : Workspace × Transcript :=
  match command with
  | .overview => (w, { exit := 0, stdout := CommandLine.overviewText })
  | .init =>
    let (w, result) := w.init
    (w, transcript false color "" result)
  | .generate o toStdout => withSettings w o color fun s => w.generate s toStdout
  | .check o => withSettings w o color fun s => (w, w.check s)

/-- Runs the program with its arguments and the source locale that the environment names. Arguments
that ask for none of the commands run nothing. -/
def start (w : Workspace) (args : List String) (source : Option String) (color : Bool) :
    Workspace × Except UsageError Transcript :=
  match CommandLine.parse args source with
  | .error e => (w, .error e)
  | .ok command =>
    let (w, t) := run w command color
    (w, .ok t)

end Session

end Phrasebook
