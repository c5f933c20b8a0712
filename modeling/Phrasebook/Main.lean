import Phrasebook.Session

/-!
# The command line

Reads the part of the disk that a run can see, runs, writes what has changed and prints the
transcript.
-/

open Phrasebook

namespace Phrasebook.Main

/-- Adds what the disk has at the end of a path, and the names in it if it is a folder that is to be
listed. -/
def survey (w : Workspace) (p : Path) : IO Workspace := do
  let mut w := w
  for stem in p.stems do
    if stem.text = "" then continue
    let .ok loc := w.locate stem | return w
    let file := (← IO.currentDir) / stem.text
    if ← file.isDir then w := { w with tree := w.tree.put loc .folder }
    else if ← file.pathExists then
      w := { w with tree := w.tree.put loc (.file (← IO.FS.readBinFile file)) }
  return w

/-- Adds what is directly in a folder. -/
def surveyFolder (w : Workspace) (p : Path) : IO Workspace := do
  let mut w ← survey w p
  let folder := (← IO.currentDir) / p.text
  if ← folder.isDir then
    for entry in ← folder.readDir do
      w ← survey w (p.join ⟨entry.fileName⟩)
  return w

/-- The working folder, with what decides about its configuration. -/
def surveyConfiguration : IO Workspace := do
  let here : Path := ⟨(← IO.currentDir).toString⟩
  let names := here.components.filterMap fun c => match c with
    | .name n => some n
    | _ => none
  let mut w : Workspace := { tree := {}, here := names }
  for folder in here.ancestors.reverse do
    w ← survey w folder
    w ← survey w (folder.join ⟨configFileName⟩)
    if ← ((← IO.currentDir) / (folder.join ⟨".git"⟩).text).pathExists then
      match w.locate (folder.join ⟨".git"⟩) with
      | .ok loc => w := { w with tree := w.tree.put loc .folder }
      | .error _ => pure ()
  return w

/-- Adds what a compiling command reads and may write. -/
def surveyProject (w : Workspace) (o : CommandLine.CommonOptions) : IO Workspace := do
  match Settings.configuration w with
  | .error _ => return w
  | .ok c =>
    let s := Settings.ofConfiguration c o
    survey (← surveyFolder w s.messagesRoot) s.output

/-- Brings the disk from one tree to another with more or other files. -/
def update (old new : FileTree) : IO Unit := do
  for (loc, node) in new.nodes.entries do
    if old.nodes.get? loc ≠ some node then
      let path := "/" ++ "/".intercalate loc
      match node with
      | .folder => IO.FS.createDir path
      | .file content => IO.FS.writeBinFile path content

/-- The part of the disk that a run can see. -/
def surveyFor : Except CommandLine.UsageError CommandLine.Command → IO Workspace
  | .ok (.generate o _) => do surveyProject (← surveyConfiguration) o
  | .ok (.check o) => do surveyProject (← surveyConfiguration) o
  | .ok _ => surveyConfiguration
  | .error _ => return { tree := {}, here := [] }

def usageText : CommandLine.UsageError → String
  | .invalidValue => "invalid or missing value for an option"
  | .unknownArgument => "unexpected argument"
  | .argumentConflict => "an argument cannot be used multiple times"
  | .tooManyValues => "unexpected value for a flag"
  | .invalidSubcommand => "unrecognized subcommand"
  | .displayHelp => CommandLine.overviewText
  | .displayVersion => "dictgen 0.1.0"

/-- Runs the program and brings the disk up to date. -/
def runArguments (args : List String) (source : Option String) : IO UInt32 := do
  let w ← surveyFor (CommandLine.parse args source)
  let color ← (← IO.getStderr).isTty
  match Session.start w args source color with
  | (changed, .ok transcript) =>
    update w.tree changed.tree
    IO.print transcript.stdout
    IO.eprint transcript.stderr
    return transcript.exit.toUInt32
  | (_, .error .displayHelp) =>
    IO.print (usageText .displayHelp)
    return 0
  | (_, .error .displayVersion) =>
    IO.println (usageText .displayVersion)
    return 0
  | (_, .error e) =>
    IO.eprintln ("error: " ++ usageText e)
    return 2

end Phrasebook.Main

def main (args : List String) : IO UInt32 := do
  try Main.runArguments args (← IO.getEnv "DICTGEN_SOURCE_LOCALE")
  catch e =>
    IO.eprintln ("Error: " ++ toString e)
    return 2
