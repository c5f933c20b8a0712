/-!
# Placeholders

A placeholder is a name between braces on one line, as in `Hello {name}`. The name ends at the
first closing brace, so `{a{b}c}` has the one name `a{b`; a brace whose line ends before it is
closed opens nothing, nor does any brace after it on that line.
-/

namespace Phrasebook.Placeholder

/-- A character that ends a name or shows that there is none. -/
def endsName (c : Char) : Bool := c = '}' || c = '\n'

/-- The name that an opening brace in front of the text begins. -/
def nameAhead? (cs : List Char) : Option String :=
  if (cs.dropWhile (!endsName ·)).head? = some '}' then
    some (String.ofList (cs.takeWhile (!endsName ·)))
  else none

/-- The names in the rest of a text. After an opening brace the characters up to the end of the name
or of the line are passed over. -/
def namesFrom (inside : Bool) : List Char → List String
  | [] => []
  | c :: cs =>
    if inside then namesFrom (!endsName c) cs
    else if c = '{' then (nameAhead? cs).toList ++ namesFrom true cs
    else namesFrom false cs

/-- The names of the placeholders of a text, in the order of the text, repeated ones included. -/
def names (text : String) : List String := namesFrom false text.toList

end Phrasebook.Placeholder
