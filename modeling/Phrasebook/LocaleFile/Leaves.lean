import Phrasebook.Json.Basic

/-!
# Leaves

The values of a JSON document that are no objects, each with the keys on the way to it. The dotted
key of a leaf joins them with dots; a key that is still empty adds none.
-/

namespace Phrasebook.LocaleFile

open Json (Value)

/-- A value that is no object, and its dotted key. -/
structure Leaf where
  key : String
  value : Value String

/-- The dotted key of a member below a dotted key. -/
def extendKey (above key : String) : String := if above = "" then key else above ++ "." ++ key

mutual

/-- The leaves of a value, in the order of the document. -/
def leaves (above : String) : Value String → List Leaf
  | .object members => leavesOfMembers above members
  | v => [⟨above, v⟩]

def leavesOfMembers (above : String) : List (String × Value String) → List Leaf
  | [] => []
  | m :: ms => leavesOfMember above m ++ leavesOfMembers above ms

def leavesOfMember (above : String) : String × Value String → List Leaf
  | (key, v) => leaves (extendKey above key) v

end

end Phrasebook.LocaleFile
