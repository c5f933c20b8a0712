import Phrasebook.Json.Lexer
import Phrasebook.Json.Range
import Phrasebook.OrderedMap

/-!
# Reading JSON

The grammar as a machine that takes one token at a time and keeps the arrays and objects that are
still open. Values that dictionaries are made from are read strictly: texts are strings, numbers fit
a double, at most 127 arrays and objects are open at once, and a repeated key keeps its first place
and takes the last value. A lenient reading keeps everything as it is written.
-/

namespace Phrasebook.Json

variable {τ : Type}

/-- An array or object that is not closed yet. -/
inductive Frame (τ : Type) where
  | array (items : List (Value τ))
  | object (members : List (τ × Value τ)) (key : τ)

/-- What may come next, and the frames that are open, innermost first. -/
inductive State (τ : Type) where
  | value (frames : List (Frame τ))
  | firstItem (frames : List (Frame τ))
  | firstMember (frames : List (Frame τ))
  | afterItem (frames : List (Frame τ)) (items : List (Value τ))
  | key (frames : List (Frame τ)) (members : List (τ × Value τ))
  | colon (frames : List (Frame τ)) (members : List (τ × Value τ)) (key : τ)
  | afterMember (frames : List (Frame τ)) (members : List (τ × Value τ))
  | done (value : Value τ)

/-- How a member is added to those before it. -/
abbrev AddMember (τ : Type) := τ → Value τ → List (τ × Value τ) → List (τ × Value τ)

/-- Keeps every member. -/
def AddMember.keepAll : AddMember τ := fun key value members => members ++ [(key, value)]

/-- Keeps one member for each key. -/
def AddMember.keepLast [DecidableEq τ] : AddMember τ := OrderedMap.put

namespace State

/-- Puts a complete value into the innermost frame. -/
def complete (add : AddMember τ) (v : Value τ) : List (Frame τ) → State τ
  | [] => done v
  | .array items :: fs => afterItem fs (items ++ [v])
  | .object members k :: fs => afterMember fs (add k v members)

/-- Takes the first token of a value. -/
def begin? (add : AddMember τ) (fs : List (Frame τ)) : Token τ → Option (State τ)
  | .null => some (complete add .null fs)
  | .boolean b => some (complete add (.boolean b) fs)
  | .number n => some (complete add (.number n) fs)
  | .text t => some (complete add (.string t) fs)
  | .openArray => some (firstItem fs)
  | .openObject => some (firstMember fs)
  | _ => none

/-- Takes one token. -/
def step? (add : AddMember τ) : State τ → Token τ → Option (State τ)
  | value fs, t => begin? add fs t
  | firstItem fs, .closeArray => some (complete add (.array []) fs)
  | firstItem fs, t => begin? add (.array [] :: fs) t
  | firstMember fs, .closeObject => some (complete add (.object []) fs)
  | firstMember fs, .text k => some (colon fs [] k)
  | afterItem fs items, .comma => some (value (.array items :: fs))
  | afterItem fs items, .closeArray => some (complete add (.array items) fs)
  | key fs members, .text k => some (colon fs members k)
  | colon fs members k, .colon => some (value (.object members k :: fs))
  | afterMember fs members, .comma => some (key fs members)
  | afterMember fs members, .closeObject => some (complete add (.object members) fs)
  | _, _ => none

end State

/-- The value that is written with the tokens. -/
def ofTokens? (add : AddMember τ) (ts : List (Token τ)) : Option (Value τ) :=
  match ts.foldlM (State.step? add) (.value []) with
  | some (.done v) => some v
  | _ => none

/-- At most `limit` arrays and objects are open at once, after `depth` have been opened. -/
def withinDepth (limit : Nat) : Nat → List (Token τ) → Bool
  | _, [] => true
  | depth, t :: ts =>
    match t with
    | .openArray | .openObject => depth < limit && withinDepth limit (depth + 1) ts
    | .closeArray | .closeObject => withinDepth limit (depth - 1) ts
    | _ => withinDepth limit depth ts

/-- The arrays and objects that may be open at once. -/
def depthLimit : Nat := 127

/-- The token with a string for its text, if the text is a string and the number fits a double. -/
def Token.strict? : Token (Option τ) → Option (Token τ)
  | openObject => some openObject
  | closeObject => some closeObject
  | openArray => some openArray
  | closeArray => some closeArray
  | comma => some comma
  | colon => some colon
  | null => some null
  | boolean b => some (boolean b)
  | number n => if n.isFinite then some (number n) else none
  | text t => t.map text

/-- The strict reading of a text. -/
def parse? (text : String) : Option (Value String) := do
  let ts ← tokens text.toList
  if withinDepth depthLimit 0 ts then
    ofTokens? .keepLast (← ts.mapM Token.strict?)
  else none

/-- The lenient reading of a text. -/
def parseLenient? (text : String) : Option (Value (Option String)) := do
  ofTokens? .keepAll (← tokens text.toList)

end Phrasebook.Json
