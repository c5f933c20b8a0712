import Phrasebook.Module.Options
import Phrasebook.Path

/-!
# Commands

What a command line asks for, and why it may be refused.
-/

namespace Phrasebook.CommandLine

/-- The options that compiling commands share. Each one takes the place of a configured value. -/
structure CommonOptions where
  sourceLocale : Option String := none
  messagesRoot : Option Path := none
  output : Option Path := none
  mode : Option Mode := none
  schema : Option Schema := none
  verbose : Bool := false
  deriving DecidableEq

inductive Command where
  /-- Compile and write the module, or print it if `stdout` is set. -/
  | generate (common : CommonOptions) (stdout : Bool)
  /-- Compile and compare with the module that is there. -/
  | check (common : CommonOptions)
  /-- Write a configuration file. -/
  | init
  /-- Tell what the commands are. -/
  | overview
  deriving DecidableEq

/-- The command asks for more to be told. -/
def Command.verbose : Command → Bool
  | generate common _ => common.verbose
  | check common => common.verbose
  | init => false
  | overview => false

/-- Why a command line asks for none of the commands. -/
inductive UsageError where
  /-- A value is missing, empty where it must not be, or none of the choices. -/
  | invalidValue
  | unknownArgument
  /-- An option or a flag is given twice. -/
  | argumentConflict
  /-- A flag is given a value. -/
  | tooManyValues
  | invalidSubcommand
  | displayHelp
  | displayVersion
  deriving DecidableEq

/-- The text that tells what the commands are. -/
def overviewLines : List String :=
  ["A build-time compiler that turns per-locale JSON dictionaries into a typed dictionary module",
   "",
   "Usage: dictgen [COMMAND]",
   "",
   "Commands:",
   "  generate  Compile locale files into a typed dictionary module",
   "  check     Fail if the generated module is missing or out of date",
   "  init      Initialize a new .dictgenrc.json configuration file",
   "  help      Print this message or the help of the given subcommand(s)",
   "",
   "Options:",
   "  -h, --help     Print help",
   "  -V, --version  Print version"]

def overviewText : String := String.join (overviewLines.map (· ++ "\n"))

end Phrasebook.CommandLine
