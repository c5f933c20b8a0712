import Phrasebook.Json.Token
import Phrasebook.Literal
import Phrasebook.Proofs.Text.Units

/-!
# The value of a string literal

What a string literal of the generated module stands for, by the grammar of ECMAScript. A module is
strict code, so a decimal digit after a backslash is refused, but for a zero that no digit follows.
The other escape sequences are those of one letter, those of a number in hexadecimal digits (`\x41`,
`\u0041`, `\u{41}`) and the line continuation, which stands for nothing. No line terminator stands
in a literal as it is, the two separators included.

`value?` reads a text that is one literal from its first quote to its last, and gives the code units
of its value.
-/

namespace Phrasebook.Literal

open Json (hexValue?)
open Text (codeUnits)

def isLineTerminator (c : Char) : Bool :=
  c = '\n' || c = '\r' || c = '\u2028' || c = '\u2029'

/-- The character that a backslash and a single character stand for. -/
def escapedChar : Char → Char
  | 'b' => '\x08'
  | 'f' => '\x0c'
  | 'n' => '\n'
  | 'r' => '\r'
  | 't' => '\t'
  | 'v' => '\x0b'
  | c => c

def isHexDigit (c : Char) : Bool := (hexValue? c).isSome

/-- The number that hexadecimal digits stand for. -/
def hexNumber (ds : List Char) : Nat := ds.foldl (fun n d => 16 * n + (hexValue? d).getD 0) 0

/-- Reads a number of `n` hexadecimal digits. -/
def readDigits (n : Nat) (cs : List Char) : Option (List Nat × List Char) :=
  if (cs.take n).length = n ∧ (cs.take n).all isHexDigit then
    some (codeUnits (hexNumber (cs.take n)), cs.drop n)
  else none

/-- Reads the digits of a code point and the brace after them. -/
def readBraced (cs : List Char) : Option (List Nat × List Char) :=
  let ds := cs.takeWhile isHexDigit
  match cs.dropWhile isHexDigit with
  | '}' :: rest =>
    if ds ≠ [] ∧ hexNumber ds < 0x110000 then some (codeUnits (hexNumber ds), rest) else none
  | _ => none

/-- Reads what follows `\u`. -/
def readUnicode : List Char → Option (List Nat × List Char)
  | '{' :: cs => readBraced cs
  | cs => readDigits 4 cs

/-- What follows the line terminator `c`; a carriage return takes a line feed with it. -/
def afterTerminator (c : Char) (cs : List Char) : List Char :=
  match cs with
  | '\n' :: rest => if c = '\r' then rest else cs
  | _ => cs

/-- Reads an escape sequence, whose backslash has been read. -/
def readEscape : List Char → Option (List Nat × List Char)
  | [] => none
  | c :: cs =>
    if c = 'x' then readDigits 2 cs
    else if c = 'u' then readUnicode cs
    else if c.isDigit then
      if c = '0' ∧ (cs.takeWhile Char.isDigit).isEmpty then some ([0], cs) else none
    else if isLineTerminator c then some ([], afterTerminator c cs)
    else some (codeUnits (escapedChar c).toNat, cs)

theorem length_le_of_readDigits {n : Nat} {cs rest : List Char} {us : List Nat}
    (h : readDigits n cs = some (us, rest)) : rest.length ≤ cs.length := by
  unfold readDigits at h
  split at h
  · cases h
    rw [List.length_drop]
    exact Nat.sub_le _ _
  · cases h

theorem length_le_of_readBraced {cs rest : List Char} {us : List Nat}
    (h : readBraced cs = some (us, rest)) : rest.length ≤ cs.length := by
  have hle := (List.dropWhile_suffix (l := cs) isHexDigit).length_le
  unfold readBraced at h
  dsimp only at h
  split at h
  · rename_i hd
    rw [hd, List.length_cons] at hle
    split at h
    · cases h; omega
    · cases h
  · cases h

theorem length_le_of_readUnicode {cs rest : List Char} {us : List Nat}
    (h : readUnicode cs = some (us, rest)) : rest.length ≤ cs.length := by
  unfold readUnicode at h
  split at h
  · have := length_le_of_readBraced h
    rw [List.length_cons]
    omega
  · exact length_le_of_readDigits h

theorem afterTerminator_suffix (c : Char) (cs : List Char) : afterTerminator c cs <:+ cs := by
  unfold afterTerminator
  split
  · split
    · exact List.suffix_cons _ _
    · exact List.suffix_rfl
  · exact List.suffix_rfl

theorem length_lt_of_readEscape {cs rest : List Char} {us : List Nat}
    (h : readEscape cs = some (us, rest)) : rest.length < cs.length := by
  cases cs with
  | nil => cases h
  | cons c cs =>
    rw [List.length_cons, Nat.lt_succ_iff]
    rw [readEscape] at h
    split at h
    · exact length_le_of_readDigits h
    split at h
    · exact length_le_of_readUnicode h
    split at h
    · split at h
      · cases h; exact Nat.le_refl _
      · cases h
    split at h
    · cases h; exact (afterTerminator_suffix c cs).length_le
    · cases h; exact Nat.le_refl _

/-- The code units of the rest of a literal, whose opening quote has been read. The closing quote
has to be the last character. -/
def readBody (quote : Char) (cs : List Char) : Option (List Nat) :=
  match cs with
  | [] => none
  | c :: rest =>
    if c = quote then (if rest = [] then some [] else none)
    else if c = '\\' then
      match _h : readEscape rest with
      | none => none
      | some (us, rest') => (readBody quote rest').map (us ++ ·)
    else if isLineTerminator c then none
    else (readBody quote rest).map (codeUnits c.toNat ++ ·)
  termination_by cs.length
  decreasing_by
    · have := length_lt_of_readEscape _h
      rw [List.length_cons]
      omega
    · exact Nat.lt_succ_self _

def isQuote (c : Char) : Bool := c = '\x22' || c = '\x27'

/-- The code units of the value of a text that is exactly one string literal. -/
def value? (text : String) : Option (List Nat) :=
  match text.toList with
  | [] => none
  | c :: cs => if isQuote c then readBody c cs else none

end Phrasebook.Literal
