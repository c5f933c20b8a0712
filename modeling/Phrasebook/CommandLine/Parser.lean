import Phrasebook.CommandLine.Basic

/-!
# Reading a command line

The arguments are taken one at a time. An option waits for its value until the next argument that
does not look like an option, and its value is judged only when the next option or flag is taken or
the arguments are used up; so an unknown argument is found before a bad value right in front of it.
-/

namespace Phrasebook.CommandLine

/-- The options that take a value. -/
inductive Setting where
  | sourceLocale | messagesRoot | output | mode | schema
  deriving DecidableEq

/-- The flags. Only one command has `stdout`. -/
inductive Flag where
  | verbose | stdout | help
  deriving DecidableEq

/-- What a name stands for. -/
inductive Known where
  | setting (s : Setting)
  | flag (f : Flag)
  deriving DecidableEq

/-- The names that a compiling command knows after two hyphens. -/
def longName? (hasStdout : Bool) (name : String) : Option Known :=
  match name with
  | "source-locale" => some (.setting .sourceLocale)
  | "messages-root" => some (.setting .messagesRoot)
  | "output" => some (.setting .output)
  | "mode" => some (.setting .mode)
  | "schema" => some (.setting .schema)
  | "verbose" => some (.flag .verbose)
  | "help" => some (.flag .help)
  | "stdout" => if hasStdout then some (.flag .stdout) else none
  | _ => none

/-- The letters that a compiling command knows after one hyphen. -/
def shortName? : Char → Option Known
  | 'o' => some (.setting .output)
  | 'v' => some (.flag .verbose)
  | 'h' => some (.flag .help)
  | _ => none

/-- What the arguments taken so far have set. -/
structure Progress where
  common : CommonOptions := {}
  stdout : Bool := false
  /-- The last option, and its value if that has come. -/
  pending : Option (Setting × Option String) := none
  deriving DecidableEq

namespace Progress

/-- Gives an option its value, unless it has one. -/
def assign (p : Progress) (s : Setting) (value : String) : Except UsageError Progress :=
  let once {α : Type} (old : Option α) (new : Option α) (set : Option α → CommonOptions) :
      Except UsageError Progress :=
    match old, new with
    | some _, _ => .error .argumentConflict
    | none, none => .error .invalidValue
    | none, some a => .ok { p with common := set (some a) }
  let path := if value = "" then none else some (Path.mk value)
  match s with
  | .sourceLocale => once p.common.sourceLocale (some value) ({ p.common with sourceLocale := · })
  | .messagesRoot => once p.common.messagesRoot path ({ p.common with messagesRoot := · })
  | .output => once p.common.output path ({ p.common with output := · })
  | .mode => once p.common.mode (Mode.ofName? value) ({ p.common with mode := · })
  | .schema => once p.common.schema (Schema.ofName? value) ({ p.common with schema := · })

/-- Gives the last option its value. -/
def settle (p : Progress) : Except UsageError Progress :=
  match p.pending with
  | none => .ok p
  | some (_, none) => .error .invalidValue
  | some (s, some value) => { p with pending := none }.assign s value

/-- Takes an option, with its value if that is part of the same argument. -/
def takeSetting (p : Progress) (s : Setting) (value : Option String) :
    Except UsageError Progress := do
  let p ← p.settle
  match value with
  | some v => p.assign s v
  | none => return { p with pending := some (s, none) }

/-- Takes a flag. -/
def takeFlag (p : Progress) (f : Flag) : Except UsageError Progress := do
  let p ← p.settle
  match f with
  | .help => throw .displayHelp
  | .verbose =>
    if p.common.verbose then throw .argumentConflict
    return { p with common := { p.common with verbose := true } }
  | .stdout =>
    if p.stdout then throw .argumentConflict
    return { p with stdout := true }

/-- Takes what follows two hyphens: a name, or a name, an equals sign and a value. -/
def takeLong (p : Progress) (hasStdout : Bool) (cs : List Char) : Except UsageError Progress :=
  let name := String.ofList (cs.takeWhile (· ≠ '='))
  let value := match cs.dropWhile (· ≠ '=') with
    | [] => none
    | _ :: v => some (String.ofList v)
  match longName? hasStdout name with
  | none => .error .unknownArgument
  | some (.setting s) => p.takeSetting s value
  | some (.flag f) => if value.isSome then .error .tooManyValues else p.takeFlag f

/-- Takes the letters that follow one hyphen. The first option among them takes the rest, less an
equals sign, as its value. -/
def takeShort (p : Progress) : List Char → Except UsageError Progress
  | [] => .ok p
  | c :: cs =>
    match shortName? c with
    | none => .error .unknownArgument
    | some (.flag f) => do takeShort (← p.takeFlag f) cs
    | some (.setting s) =>
      match cs with
      | [] => p.takeSetting s none
      | '=' :: v => p.takeSetting s (some (String.ofList v))
      | _ => p.takeSetting s (some (String.ofList cs))

/-- Takes an argument that does not look like an option. -/
def takeValue (p : Progress) (value : String) : Except UsageError Progress :=
  match p.pending with
  | some (s, none) => .ok { p with pending := some (s, some value) }
  | _ => .error .unknownArgument

/-- Takes the arguments of a compiling command. After two hyphens alone there may be none. -/
def takeAll (hasStdout : Bool) (p : Progress) : List String → Except UsageError Progress
  | [] => p.settle
  | arg :: args =>
    match arg.toList with
    | ['-', '-'] => if args.isEmpty then p.settle else .error .unknownArgument
    | '-' :: '-' :: cs => do takeAll hasStdout (← p.takeLong hasStdout cs) args
    | '-' :: c :: cs => do takeAll hasStdout (← p.takeShort (c :: cs)) args
    | _ => do takeAll hasStdout (← p.takeValue arg) args

end Progress

/-- The names of the commands. -/
def commandNames : List String := ["generate", "check", "init", "help"]

/-- Why an argument that starts no command is refused: it asks for help or for the version, looks
like an option, or is taken for the name of a command. -/
def refuseFirst (arg : String) : UsageError :=
  match arg.toList with
  | '-' :: '-' :: cs =>
    let known := [("help", UsageError.displayHelp), ("version", .displayVersion)]
    match known.lookup (String.ofList (cs.takeWhile (· ≠ '='))) with
    | some e => if '=' ∈ cs then .tooManyValues else e
    | none => .unknownArgument
  | '-' :: 'h' :: _ => .displayHelp
  | '-' :: 'V' :: _ => .displayVersion
  | '-' :: _ :: _ => .unknownArgument
  | _ => .invalidSubcommand

/-- Why the arguments of the command without options are refused, if there are any. -/
def refuseInit? : List String → Option UsageError
  | [] => none
  | arg :: args =>
    match arg.toList with
    | ['-', '-'] => if args.isEmpty then none else some .unknownArgument
    | '-' :: 'h' :: _ => some .displayHelp
    | _ =>
      if arg = "--help" then some .displayHelp
      else if "--help=".toList.isPrefixOf arg.toList then some .tooManyValues
      else some .unknownArgument

/-- What asking for help about commands comes to. Only one command can be named. -/
def helpAbout : List String → UsageError
  | [] => .displayHelp
  | [name] => if name ∈ commandNames then .displayHelp else .invalidSubcommand
  | _ => .invalidSubcommand

/-- The command that the arguments ask for. `source` is the source locale that the environment
names; an option takes its place. -/
def parse (args : List String) (source : Option String) : Except UsageError Command :=
  let compiling (hasStdout : Bool) (args : List String) : Except UsageError Progress := do
    let p ← Progress.takeAll hasStdout {} args
    return { p with
      common := { p.common with sourceLocale := p.common.sourceLocale.or source } }
  match args with
  | [] => .ok .overview
  | "--" :: [] => .ok .overview
  | "--" :: name :: _ =>
    .error (if name ∈ commandNames then .unknownArgument else .invalidSubcommand)
  | "generate" :: args => do
    let p ← compiling true args
    return .generate p.common p.stdout
  | "check" :: args => do
    let p ← compiling false args
    return .check p.common
  | "init" :: args =>
    match refuseInit? args with
    | none => .ok .init
    | some e => .error e
  | "help" :: args => .error (helpAbout args)
  | arg :: _ => .error (refuseFirst arg)

end Phrasebook.CommandLine
