import Phrasebook.Plural.Basic
import Phrasebook.Text.Beginning
import Phrasebook.Text.Blank

/-!
# Reading plural messages

A block is the marker and then items, each a category keyword, an opening bracket, a text without
brackets and a closing bracket, with blanks allowed before and inside an item. A closing brace ends
the block and whatever follows it is ignored. Items with an empty text are read and dropped, and at
least one has to remain.
-/

namespace Phrasebook.Plural

open Phrasebook.Text

/-- A letter of a keyword: the ASCII letters. -/
def isLetter (c : Char) : Bool := c.isAlpha

def isBracket (c : Char) : Bool := c = '[' || c = ']'

/-- Reads the text of a branch, whose opening bracket has been read, and its closing bracket. -/
def readText (category : Category) (cs : List Char) : Except Error (Branch × List Char) :=
  match cs.dropWhile (!isBracket ·) with
  | [] => .error (.unterminatedBranch category)
  | c :: rest =>
    if c = ']' then .ok (⟨category, String.ofList (cs.takeWhile (!isBracket ·))⟩, rest)
    else .error (.nestedBracket category)

/-- Reads an item, which starts at the character `c`. -/
def readItem (c : Char) (cs : List Char) : Except Error (Branch × List Char) :=
  if !isLetter c then .error (.unexpectedChar c)
  else
    let word := String.ofList (c :: cs.takeWhile isLetter)
    match Category.ofKeyword? word with
    | none => .error (.unknownCategory word)
    | some category =>
      match skipBlanks (cs.dropWhile isLetter) with
      | '[' :: rest => readText category rest
      | _ => .error (.missingOpenBracket category)

theorem length_lt_of_readText {category : Category} {cs rest : List Char} {b : Branch}
    (h : readText category cs = .ok (b, rest)) : rest.length < cs.length := by
  have hle := (List.dropWhile_suffix (l := cs) (!isBracket ·)).length_le
  unfold readText at h
  split at h
  · cases h
  · rename_i hd
    rw [hd, List.length_cons] at hle
    split at h
    · cases h; exact hle
    · cases h

theorem length_le_of_readItem {c : Char} {cs rest : List Char} {b : Branch}
    (h : readItem c cs = .ok (b, rest)) : rest.length ≤ cs.length := by
  have hd := (List.dropWhile_suffix (l := cs) isLetter).length_le
  have hb := length_skipBlanks_le (cs.dropWhile isLetter)
  unfold readItem at h
  split at h
  · cases h
  · dsimp only at h
    split at h
    · cases h
    · split at h
      · rename_i hs
        have := length_lt_of_readText h
        rw [hs, List.length_cons] at hb
        omega
      · cases h

/-- Reads items up to the brace that closes the block, and keeps those that have a text. -/
def readItems (cs : List Char) : Except Error (List Branch) :=
  match _hb : skipBlanks cs with
  | [] => .error .unterminatedBlock
  | c :: rest =>
    if c = '}' then .ok []
    else
      match _hi : readItem c rest with
      | .error e => .error e
      | .ok (branch, rest') =>
        (readItems rest').map fun branches =>
          if branch.text = "" then branches else branch :: branches
  termination_by cs.length
  decreasing_by
    have h₁ := length_skipBlanks_le cs
    have h₂ := length_le_of_readItem _hi
    rw [_hb, List.length_cons] at h₁
    omega

/-- The characters after the marker, if the text begins with it. -/
def afterMarker? (text : String) : Option (List Char) :=
  after? marker.toList text.toList

/-- The text begins with the marker. -/
def isPlural (text : String) : Bool := (afterMarker? text).isSome

/-- The branches of a plural message, in the order of the text. -/
def parse (text : String) : Except Error (List Branch) :=
  match afterMarker? text with
  | none => .error .notPlural
  | some body =>
    match readItems body with
    | .error e => .error e
    | .ok [] => .error .noBranches
    | .ok branches => .ok branches

theorem ne_nil_of_parse {text : String} {branches : List Branch}
    (h : parse text = .ok branches) : branches ≠ [] := by
  unfold parse at h
  split at h
  · cases h
  · split at h <;> simp_all

end Phrasebook.Plural
