/-!
# Literals and keys of the generated module

How texts, keys and locales are written in the module: line terminators and the enclosing quote are
escaped in a string literal, a key of ASCII letters, digits and underscores is written bare, and a
locale is written with hyphens.
-/

namespace Phrasebook.Literal

/-- An ASCII letter or digit. -/
def isAlphanumeric (c : Char) : Bool := c.isAlphanum

/-- The key is a nonempty word of ASCII letters, digits and underscores. -/
def isBareKey (key : String) : Bool :=
  key ≠ "" && key.toList.all fun c => isAlphanumeric c || c = '_'

/-- A character inside a literal between `quote`s: the line terminators and the quote have an escape
sequence, every other character stands for itself. -/
def escapeChar (quote : Char) (c : Char) : List Char :=
  if c = '\n' then ['\\', 'n']
  else if c = '\r' then ['\\', 'r']
  else if c = '\u2028' then ['\\', 'u', '2', '0', '2', '8']
  else if c = '\u2029' then ['\\', 'u', '2', '0', '2', '9']
  else if c = quote then ['\\', quote]
  else [c]

/-- The text inside a literal between `quote`s. -/
def escape (quote : Char) (text : String) : String :=
  String.ofList (text.toList.flatMap (escapeChar quote))

/-- The inside of a literal between double quotes. -/
def escapeDouble (text : String) : String := escape '\x22' text

/-- The inside of a literal between single quotes. -/
def escapeSingle (text : String) : String := escape '\x27' text

def doubleQuoted (text : String) : String := "\"" ++ escapeDouble text ++ "\""

def singleQuoted (text : String) : String := "'" ++ escapeSingle text ++ "'"

/-- A key of an object: bare if it can be, between single quotes otherwise. -/
def quoteKey (key : String) : String := if isBareKey key then key else singleQuoted key

/-- The name of a locale in the module: hyphens stand for underscores. -/
def outputLocale (locale : String) : String :=
  locale.map fun c => if c = '_' then '-' else c

def localeKey (locale : String) : String := quoteKey (outputLocale locale)

/-- An identifier made from a locale: what is no ASCII letter or digit becomes an underscore, and
one more is put before a leading digit or in an empty name. -/
def constIdentifier (locale : String) : String :=
  let word := locale.map fun c => if isAlphanumeric c then c else '_'
  match word.toList with
  | [] => "_"
  | c :: _ => if c.isDigit then "_" ++ word else word

end Phrasebook.Literal
