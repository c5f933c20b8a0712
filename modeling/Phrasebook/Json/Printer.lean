/-!
# Writing JSON

Texts are written with the short escape sequences where there is one, other controls with four
hexadecimal digits, and everything else as it is.
-/

namespace Phrasebook.Json

/-- A control character that has no short escape sequence. -/
def escapeControl (c : Char) : List Char :=
  let n := c.toNat
  ['\\', 'u', '0', '0', Nat.digitChar (n / 16), Nat.digitChar (n % 16)]

/-- A character of a text. -/
def escapeChar (c : Char) : List Char :=
  match c with
  | '\x22' => ['\\', '\x22']
  | '\\' => ['\\', '\\']
  | '\x08' => ['\\', 'b']
  | '\x0c' => ['\\', 'f']
  | '\n' => ['\\', 'n']
  | '\r' => ['\\', 'r']
  | '\t' => ['\\', 't']
  | c => if c.toNat < 0x20 then escapeControl c else [c]

/-- A text between quotes. -/
def quote (text : String) : String :=
  String.ofList ('\x22' :: text.toList.flatMap escapeChar ++ ['\x22'])

/-- An object of texts, a member to a line. -/
def renderTexts (members : List (String × String)) : String :=
  "\x7b\n" ++ ",\n".intercalate (members.map fun (key, text) =>
    "  " ++ quote key ++ ": " ++ quote text) ++ "\n\x7d"

end Phrasebook.Json
