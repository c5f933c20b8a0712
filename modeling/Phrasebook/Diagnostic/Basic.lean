import Phrasebook.Dictionary
import Phrasebook.Json.Basic
import Phrasebook.Plural.Basic

/-!
# Diagnostics

Findings that stop nothing: there is an answer for each of them, and the report tells which one was
taken.
-/

namespace Phrasebook

inductive Severity where
  | warning
  /-- Worth knowing, and listed only on request. -/
  | note
  deriving DecidableEq

def Severity.name : Severity → String
  | warning => "warning"
  | note => "note"

/-- The rules by which findings are made, in the order of the report. -/
inductive Rule where
  | fallback | malformedPlural | unknownToken | nonStringValue
  deriving DecidableEq

namespace Rule

def name : Rule → String
  | fallback => "fallback"
  | malformedPlural => "malformed-plural"
  | unknownToken => "unknown-token"
  | nonStringValue => "non-string-value"

/-- The rule's number in the order of the report. -/
def rank : Rule → Nat
  | fallback => 0
  | malformedPlural => 1
  | unknownToken => 2
  | nonStringValue => 3

end Rule

/-- Why a locale takes a message from the source locale. -/
inductive FallbackReason where
  | missing | empty
  deriving DecidableEq

def FallbackReason.name : FallbackReason → String
  | missing => "missing"
  | empty => "empty"

inductive Diagnostic where
  /-- A locale has no message of its own for a token. -/
  | fallback (token locale source : String) (reason : FallbackReason) (file : Option String)
  /-- The plural message of a locale is malformed. -/
  | malformedPlural (token locale source : String) (error : Plural.Error)
      (position : Option Position)
  /-- A locale has a message for a token that the source locale does not have. -/
  | unknownToken (token locale source : String) (position : Option Position)
  /-- A locale file has a value that is neither a string nor an object. -/
  | nonStringValue (key locale : String) (kind : Json.Kind) (position : Position)
  deriving DecidableEq

/-- Where a finding was made. -/
inductive Place where
  | nowhere
  | inFile (file : String)
  | onLine (position : Position)
  deriving DecidableEq

namespace Place

def ofPosition? : Option Position → Place
  | none => nowhere
  | some p => onLine p

def file? : Place → Option String
  | nowhere => none
  | inFile file => some file
  | onLine p => some p.file

/-- The line, or zero where there is none. -/
def line : Place → Nat
  | nowhere => 0
  | inFile _ => 0
  | onLine p => p.line

end Place

namespace Diagnostic

def rule : Diagnostic → Rule
  | fallback .. => .fallback
  | malformedPlural .. => .malformedPlural
  | unknownToken .. => .unknownToken
  | nonStringValue .. => .nonStringValue

/-- A fallback is expected where a locale is not finished; the rest calls for attention. -/
def severity (d : Diagnostic) : Severity := if d.rule = .fallback then .note else .warning

def place : Diagnostic → Place
  | fallback _ _ _ _ none => .nowhere
  | fallback _ _ _ _ (some file) => .inFile file
  | malformedPlural _ _ _ _ position => .ofPosition? position
  | unknownToken _ _ _ position => .ofPosition? position
  | nonStringValue _ _ _ position => .onLine position

def message : Diagnostic → String
  | fallback token locale source reason _ =>
    "'" ++ token ++ "' is " ++ reason.name ++ " in '" ++ locale ++ "', using '" ++ source ++ "'"
  | malformedPlural token locale _ error _ =>
    "invalid plural string for '" ++ token ++ "' in '" ++ locale ++ "': " ++ error.message
  | unknownToken token locale source _ =>
    "'" ++ token ++ "' in '" ++ locale ++ "' does not exist in '" ++ source ++ "'"
  | nonStringValue key locale kind _ =>
    "'" ++ key ++ "' in '" ++ locale ++ "' is a " ++ kind.name ++ ", expected a string"

/-- What was done about the finding, unless the message says so. -/
def details? : Diagnostic → Option String
  | fallback .. => none
  | malformedPlural _ locale source _ _ =>
    some ("all plural forms of '" ++ source ++ "' are used for '" ++ locale ++ "'")
  | unknownToken .. => some "the token is ignored"
  | nonStringValue .. => some "the value is skipped"

end Diagnostic

end Phrasebook
