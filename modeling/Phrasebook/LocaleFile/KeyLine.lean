import Phrasebook.Text.Beginning
import Phrasebook.Text.Blank

/-!
# The lines of keys

The line of a locale file on which a dotted key is written, for reports. Each part of the key is
searched after the part before it, between quotes and with a colon behind it, so that a value with
the same text is not taken for it. The search stops at the first part that is not found.
-/

namespace Phrasebook.LocaleFile

open Text

/-- Where the lines of a text start, in ascending order and counted in characters. -/
structure LineTable where
  starts : Array Nat
  deriving DecidableEq

namespace LineTable

/-- The starts of the lines after the first one, in a text that begins at an offset. -/
def startsFrom (offset : Nat) : List Char → List Nat
  | [] => []
  | c :: cs => if c = '\n' then (offset + 1) :: startsFrom (offset + 1) cs
      else startsFrom (offset + 1) cs

def ofText (cs : List Char) : LineTable := ⟨(0 :: startsFrom 0 cs).toArray⟩

/-- How many of the starts from `low` on and before `high` come no later than an offset, and those
before `low`: halves the range until nothing is left of it. -/
def countUpTo (starts : Array Nat) (offset low high : Nat) : Nat :=
  if _h : low < high then
    let middle := (low + high) / 2
    if starts[middle]?.any (· ≤ offset) then countUpTo starts offset (middle + 1) high
    else countUpTo starts offset low middle
  else low
  termination_by high - low

/-- The number of the line that an offset lies in, counted from one. -/
def lineAt (t : LineTable) (offset : Nat) : Nat := countUpTo t.starts offset 0 t.starts.size

end LineTable

/-- A colon follows, perhaps after blanks. -/
def colonFollows (cs : List Char) : Bool := (skipBlanks cs).head? = some ':'

/-- The end of the first occurrence of a pattern with a colon behind it, and what follows it, in a
text that begins at an offset. -/
def findKey? (pattern : List Char) (offset : Nat) : List Char → Option (Nat × List Char)
  | [] => none
  | c :: cs =>
    match after? pattern (c :: cs) with
    | some rest =>
      if colonFollows rest then some (offset + pattern.length, rest)
      else findKey? pattern (offset + 1) cs
    | none => findKey? pattern (offset + 1) cs

/-- The end of the last key part that is found when each part is searched after the one before. -/
def findKeys (offset : Nat) (cs : List Char) : List (List Char) → Nat
  | [] => offset
  | part :: parts =>
    match findKey? ('\x22' :: part ++ ['\x22']) offset cs with
    | some (offset, rest) => findKeys offset rest parts
    | none => offset

/-- The line of a dotted key, or the first line if not even its first part is found. -/
def keyLine (table : LineTable) (cs : List Char) (key : String) : Nat :=
  let offset := findKeys 0 cs (key.toList.splitOn '.')
  if offset = 0 then 1 else table.lineAt offset

end Phrasebook.LocaleFile
