import Phrasebook.Json.Basic
import Phrasebook.Text.Beginning

/-!
# Tokens of JSON texts

The lexical part of JSON: punctuation, names, numbers and texts, with blanks between them. Blanks
are spaces, tabs, line feeds and carriage returns only. Everything that may follow a token is left
to the grammar, so `1true` is two tokens here.
-/

namespace Phrasebook.Json

/-- A token, with texts of the type `τ`. -/
inductive Token (τ : Type) where
  | openObject | closeObject
  | openArray | closeArray
  | comma | colon
  | null
  | boolean (b : Bool)
  | number (n : Numeral)
  | text (text : τ)
  deriving DecidableEq

/-- A piece of a text: a character as it is, or the code unit of an escape sequence with four
hexadecimal digits. -/
inductive Piece where
  | char (c : Char)
  | unit (code : Nat)
  deriving DecidableEq

/-- The value of a hexadecimal digit. -/
def hexValue? (c : Char) : Option Nat :=
  if '0' ≤ c ∧ c ≤ '9' then some (c.toNat - '0'.toNat)
  else if 'a' ≤ c ∧ c ≤ 'f' then some (c.toNat - 'a'.toNat + 10)
  else if 'A' ≤ c ∧ c ≤ 'F' then some (c.toNat - 'A'.toNat + 10)
  else none

/-- The code unit of four hexadecimal digits. -/
def codeUnit? (a b c d : Char) : Option Nat := do
  return ((← hexValue? a) * 16 + (← hexValue? b)) * 256 + (← hexValue? c) * 16 + (← hexValue? d)

/-- The character of an escape sequence of one letter. -/
def escaped? : Char → Option Char
  | '\x22' => some '\x22'
  | '\\' => some '\\'
  | '/' => some '/'
  | 'b' => some '\x08'
  | 'f' => some '\x0c'
  | 'n' => some '\n'
  | 'r' => some '\r'
  | 't' => some '\t'
  | _ => none

/-- Reads a text, whose opening quote has been read, and its closing quote. -/
def readPieces : List Char → Option (List Piece × List Char)
  | [] => none
  | '\x22' :: cs => some ([], cs)
  | '\\' :: 'u' :: a :: b :: c :: d :: cs => do
    let unit ← codeUnit? a b c d
    let (pieces, rest) ← readPieces cs
    return (.unit unit :: pieces, rest)
  | '\\' :: c :: cs => do
    let e ← escaped? c
    let (pieces, rest) ← readPieces cs
    return (.char e :: pieces, rest)
  | c :: cs =>
    if c.toNat < 0x20 then none
    else do
      let (pieces, rest) ← readPieces cs
      return (.char c :: pieces, rest)

def isHighSurrogate (n : Nat) : Bool := 0xD800 ≤ n && n < 0xDC00

def isLowSurrogate (n : Nat) : Bool := 0xDC00 ≤ n && n < 0xE000

/-- The characters of a text, unless it has a surrogate that is not part of a pair. -/
def joinPieces? : List Piece → Option (List Char)
  | [] => some []
  | .char c :: ps => (joinPieces? ps).map (c :: ·)
  | .unit n :: .unit m :: ps =>
    if isHighSurrogate n then
      if isLowSurrogate m then
        (joinPieces? ps).map (Char.ofNat (0x10000 + (n - 0xD800) * 0x400 + (m - 0xDC00)) :: ·)
      else none
    else if isLowSurrogate n then none
    else (joinPieces? (.unit m :: ps)).map (Char.ofNat n :: ·)
  | .unit n :: ps =>
    if isHighSurrogate n || isLowSurrogate n then none
    else (joinPieces? ps).map (Char.ofNat n :: ·)

/-- Reads digits, at least one. -/
def readDigits (cs : List Char) : Option (List Char × List Char) :=
  match cs.takeWhile Char.isDigit with
  | [] => none
  | d :: ds => some (d :: ds, cs.dropWhile Char.isDigit)

/-- Reads the digits before the point, which start with a zero only if it is the only one. -/
def readWhole (cs : List Char) : Option (List Char × List Char) :=
  match readDigits cs with
  | some ('0' :: _ :: _, _) => none
  | r => r

/-- Reads the point and the digits after it, if there is a point. -/
def readFraction (cs : List Char) : Option (List Char × List Char) :=
  match cs with
  | '.' :: cs => readDigits cs
  | _ => some ([], cs)

/-- Reads the exponent, if there is one. -/
def readExponent (cs : List Char) : Option (Int × List Char) :=
  match cs with
  | c :: cs' =>
    if c = 'e' ∨ c = 'E' then
      let (negative, cs) := match cs' with
        | '-' :: cs => (true, cs)
        | '+' :: cs => (false, cs)
        | _ => (false, cs')
      (readDigits cs).map fun (ds, rest) =>
        let n : Int := Nat.ofDigitChars 10 ds 0
        (if negative then -n else n, rest)
    else some (0, cs)
  | [] => some (0, [])

/-- Reads a number. -/
def readNumeral (cs : List Char) : Option (Numeral × List Char) := do
  let (negative, cs) := match cs with
    | '-' :: cs => (true, cs)
    | _ => (false, cs)
  let (whole, cs) ← readWhole cs
  let (fraction, cs) ← readFraction cs
  let (exponent, cs) ← readExponent cs
  return (⟨negative, whole, fraction, exponent⟩, cs)

/-- Reads the rest of a name. -/
def readName {τ : Type} (name : String) (token : Token τ) (cs : List Char) :
    Option (Token τ × List Char) :=
  (Text.after? name.toList cs).map fun rest => (token, rest)

/-- Reads the token that starts at a character. A text without a pair to one of its surrogates is a
token, though no string. -/
def readToken (c : Char) (cs : List Char) : Option (Token (Option String) × List Char) :=
  match c with
  | '{' => some (.openObject, cs)
  | '}' => some (.closeObject, cs)
  | '[' => some (.openArray, cs)
  | ']' => some (.closeArray, cs)
  | ',' => some (.comma, cs)
  | ':' => some (.colon, cs)
  | 'n' => readName "ull" .null cs
  | 't' => readName "rue" (.boolean true) cs
  | 'f' => readName "alse" (.boolean false) cs
  | '\x22' => (readPieces cs).map fun (ps, rest) =>
    (.text ((joinPieces? ps).map String.ofList), rest)
  | _ => (readNumeral (c :: cs)).map fun (n, rest) => (.number n, rest)

/-- A blank between tokens. -/
def isSpace (c : Char) : Bool := c = ' ' || c = '\t' || c = '\n' || c = '\r'

end Phrasebook.Json
