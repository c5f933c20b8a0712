/-!
# Sections

A module is written as sections with a blank line between two of them. A section is a list of
lines, so that what a line says and how many there are can be told apart.
-/

namespace Phrasebook

abbrev Section := List String

namespace Section

/-- The lines of a section, each with its end. -/
def render (s : Section) : String := String.join (s.map (· ++ "\n"))

/-- The sections of a module, one after another. -/
def renderAll (ss : List Section) : String := "\n".intercalate (ss.map render)

/-- Puts a text at the end of the last line. -/
def closeWith (ending : String) : Section → Section
  | [] => [ending]
  | [line] => [line ++ ending]
  | line :: lines => line :: closeWith ending lines

@[simp] theorem length_closeWith {s : Section} (ending : String) (h : s ≠ []) :
    (s.closeWith ending).length = s.length := by
  induction s with
  | nil => exact absurd rfl h
  | cons line lines ih =>
    cases lines with
    | nil => rfl
    | cons l ls =>
      have := ih (by simp)
      simp only [closeWith, List.length_cons] at this ⊢
      omega

/-- The lines of a block between braces, on the header's last line alone if there are none. -/
def braces (header : Section) (body : List String) (ending : String) : Section :=
  if body.isEmpty then header.closeWith (" \x7b\x7d" ++ ending)
  else header.closeWith " \x7b" ++ body ++ ["\x7d" ++ ending]

end Section

/-- The comment at the top of every generated module. -/
def disclaimer : Section :=
  ["// This file was generated by dictgen. Do not modify this file manually.",
   "// To make changes, modify the corresponding JSON file and re-run dictgen."]

end Phrasebook
