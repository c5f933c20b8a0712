/-!
# Styled text

Text for a terminal. A style is switched on before a piece of text and off after it, and only where
styles are wanted.
-/

namespace Phrasebook.Report

inductive Style where
  | bold | dimmed
  | red | green | yellow | blue | cyan
  deriving DecidableEq

/-- The number that switches a style on. -/
def Style.code : Style → String
  | bold => "1"
  | dimmed => "2"
  | red => "31"
  | green => "32"
  | yellow => "33"
  | blue => "34"
  | cyan => "36"

/-- A piece of text and its styles, in the order in which they are switched on. -/
structure Span where
  text : String
  styles : List Style := []
  deriving DecidableEq

/-- Text without a style. -/
def plain (text : String) : Span := { text }

def styled (styles : List Style) (text : String) : Span := ⟨text, styles⟩

/-- What switches styles on. -/
def switchOn (styles : List Style) : List Char :=
  '\x1b' :: '[' :: ((";".intercalate (styles.map Style.code)).toList ++ ['m'])

/-- What switches all styles off. -/
def switchOff : List Char := ['\x1b', '[', '0', 'm']

/-- The text, with the styles switched on again wherever it switches them off by itself. -/
def keepOn (on : List Char) : List Char → List Char
  | '\x1b' :: '[' :: '0' :: 'm' :: cs => switchOff ++ on ++ keepOn on cs
  | c :: cs => c :: keepOn on cs
  | [] => []

def Span.render (color : Bool) (s : Span) : String :=
  if color && !s.styles.isEmpty then
    let on := switchOn s.styles
    String.ofList (on ++ keepOn on s.text.toList ++ switchOff)
  else s.text

/-- A line of spans. -/
abbrev Line := List Span

/-- The lines of a report, each with its end. -/
def render (color : Bool) (lines : List Line) : String :=
  String.join (lines.map fun l => String.join (l.map (Span.render color)) ++ "\n")

end Phrasebook.Report
