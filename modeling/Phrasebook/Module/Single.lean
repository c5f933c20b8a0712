import Phrasebook.Compilation
import Phrasebook.Literal
import Phrasebook.Module.Section

/-!
# The single module

The source locale as one constant object. The messages are written as they stand in the source,
plural blocks included.
-/

namespace Phrasebook.Module

open Literal

/-- The line of a token in the object. -/
def messageLine (t : CompiledToken) : String :=
  "  " ++ quoteKey t.name ++ ": " ++ singleQuoted t.raw ++ ","

/-- The sections of the single module. The object keeps its braces on lines of their own even if
there are no tokens. -/
def singleSections (c : Compilation) : List Section :=
  let name := constIdentifier c.source
  [disclaimer,
   ["export const " ++ name ++ " = \x7b"] ++ c.tokens.map messageLine ++ ["\x7d as const;"],
   ["export type Dictionary = typeof " ++ name ++ ";"]]

end Phrasebook.Module
