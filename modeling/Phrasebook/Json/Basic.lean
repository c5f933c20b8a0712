/-!
# JSON values

The type of the texts in a value is a parameter. In a value as it is written a text may contain an
unpaired surrogate, which no string holds; in a value that a dictionary is made from every text is
a string.
-/

namespace Phrasebook.Json

/-- A number as it is written: sign, digits before and after the point, and exponent. -/
structure Numeral where
  negative : Bool := false
  whole : List Char
  fraction : List Char := []
  exponent : Int := 0
  deriving DecidableEq

/-- The kinds of values. -/
inductive Kind where
  | null | boolean | number | string | array | object
  deriving DecidableEq

def Kind.name : Kind → String
  | null => "null"
  | boolean => "boolean"
  | number => "number"
  | string => "string"
  | array => "array"
  | object => "object"

/-- A value, with texts of the type `τ`. -/
inductive Value (τ : Type) where
  | null
  | boolean (b : Bool)
  | number (n : Numeral)
  | string (text : τ)
  | array (items : List (Value τ))
  | object (members : List (τ × Value τ))

def Value.kind {τ : Type} : Value τ → Kind
  | null => .null
  | boolean _ => .boolean
  | number _ => .number
  | string _ => .string
  | array _ => .array
  | object _ => .object

end Phrasebook.Json
