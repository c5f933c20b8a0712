import Phrasebook.Argument.Basic
import Phrasebook.Dictionary
import Phrasebook.Placeholder
import Phrasebook.Plural.Parser

/-!
# Tokens

What a token promises to those who use it: whether its message is plural, and with which arguments
it is filled in. The message of the source locale alone decides.
-/

namespace Phrasebook

/-- The three groups of tokens in the generated module. -/
inductive Bucket where
  | simpleNoArgs | simpleWithArgs | pluralWithArgs
  deriving DecidableEq

/-- The group of a token with the arguments that it needs. -/
inductive TokenKind where
  | simpleNoArgs
  | simpleWithArgs (args : List Variable)
  | pluralWithArgs (args : List Variable)
  deriving DecidableEq

namespace TokenKind

def args : TokenKind → List Variable
  | simpleNoArgs => []
  | simpleWithArgs args => args
  | pluralWithArgs args => args

def bucket : TokenKind → Bucket
  | simpleNoArgs => .simpleNoArgs
  | simpleWithArgs _ => .simpleWithArgs
  | pluralWithArgs _ => .pluralWithArgs

/-- The kind of a simple message with the given variables. -/
def ofVariables : List Variable → TokenKind
  | [] => simpleNoArgs
  | v :: vs => simpleWithArgs (v :: vs)

end TokenKind

/-- A message that has been read: one text, or a text for each of several categories. -/
inductive Message where
  | simple (text : String)
  | plural (branches : List Plural.Branch)
  deriving DecidableEq

/-- A token as its source message defines it. -/
structure Token where
  name : String
  kind : TokenKind
  source : Message
  deriving DecidableEq

/-- Why nothing can be compiled. -/
inductive CompileError where
  | noLocales
  | missingSource (locale : String) (available : List String)
  | malformedSource (token : String) (reason : Plural.Error) (position : Option Position)
  deriving DecidableEq

namespace CompileError

def message : CompileError → String
  | noLocales => "no locales to compile"
  | missingSource locale available =>
    "source locale '" ++ locale ++ "' not found (available: " ++ ", ".intercalate available ++ ")"
  | malformedSource token reason _ =>
    "invalid plural string for token '" ++ token ++ "': " ++ reason.message

def position? : CompileError → Option Position
  | malformedSource _ _ position => position
  | _ => none

end CompileError

namespace Token

/-- The argument that selects a plural category. -/
def countName : String := "count"

/-- The names of the arguments of a plural message: those in the text, and the count. -/
def pluralNames (text : String) : List String :=
  let names := Placeholder.names text
  if countName ∈ names then names else names ++ [countName]

/-- Reads the source message of a token. A plural message takes its arguments from its first
branch. -/
def ofEntry (name : String) (entry : Entry) : Except CompileError Token :=
  if Plural.isPlural entry.value then
    match Plural.parse entry.value with
    | .error reason => .error (.malformedSource name reason entry.position)
    | .ok branches =>
      let first := (branches.head?.map (·.text)).getD ""
      .ok ⟨name, .pluralWithArgs (Variable.ofNames (pluralNames first)), .plural branches⟩
  else
    .ok ⟨name, .ofVariables (Variable.ofNames (Placeholder.names entry.value)), .simple entry.value⟩

end Token

end Phrasebook
