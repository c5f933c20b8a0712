import Phrasebook.Literal

/-!
# Arguments

The values that a message is filled in with. The name of an argument alone decides its type: the
counts are numbers, everything else is a string.
-/

namespace Phrasebook

/-- The type of an argument at run time. -/
inductive ArgumentType where
  | string | number
  deriving DecidableEq, Repr

namespace ArgumentType

def name : ArgumentType → String
  | string => "string"
  | number => "number"

/-- The names of the arguments that are numbers. -/
def numberNames : List String := ["count", "found_count"]

/-- The type that goes with a name. -/
def infer (name : String) : ArgumentType := if name ∈ numberNames then number else string

end ArgumentType

/-- An argument that a message needs. -/
structure Variable where
  name : String
  type : ArgumentType
  deriving DecidableEq

namespace Variable

/-- The variable of a name, with the type that goes with the name. -/
def ofName (name : String) : Variable := ⟨name, .infer name⟩

/-- The variables of a list of names, each once, in the order in which the names first came. -/
def ofNames (names : List String) : List Variable := (names.map ofName).eraseDups

/-- A field of a record type. -/
def field (v : Variable) : String := Literal.quoteKey v.name ++ ": " ++ v.type.name

/-- A field of a record that holds the names of the types as strings. -/
def tag (v : Variable) : String := Literal.quoteKey v.name ++ ": \"" ++ v.type.name ++ "\""

end Variable

end Phrasebook
