/-!
# Plural messages

A message whose wording depends on a count lists its wordings in a block,
`{count, plural, one [1 item] other [{count} items]}`: branches, each a category and a text in
square brackets. Here are the categories, the branches, the ways in which a block can be malformed,
and the block that a list of branches is written as.
-/

namespace Phrasebook.Plural

/-- The plural categories of the Unicode locale data. -/
inductive Category where
  | zero | one | two | few | many | other
  deriving DecidableEq, Repr

namespace Category

/-- All categories, in their customary order. -/
def all : List Category := [zero, one, two, few, many, other]

def keyword : Category → String
  | zero => "zero"
  | one => "one"
  | two => "two"
  | few => "few"
  | many => "many"
  | other => "other"

/-- The category written as a keyword, if there is one. -/
def ofKeyword? (word : String) : Option Category := all.find? (·.keyword = word)

@[simp] theorem ofKeyword?_keyword (c : Category) : ofKeyword? c.keyword = some c := by
  cases c <;> decide

theorem ofKeyword?_eq_some_iff {word : String} {c : Category} :
    ofKeyword? word = some c ↔ c.keyword = word := by
  constructor
  · intro h
    simpa using List.find?_some h
  · rintro rfl
    exact ofKeyword?_keyword c

end Category

/-- A wording and the category of counts it is for. -/
structure Branch where
  category : Category
  text : String
  deriving DecidableEq

/-- Why a text cannot be taken apart into plural branches. -/
inductive Error where
  | notPlural
  | noBranches
  | unknownCategory (word : String)
  | unexpectedChar (c : Char)
  | missingOpenBracket (category : Category)
  | nestedBracket (category : Category)
  | unterminatedBranch (category : Category)
  | unterminatedBlock
  deriving DecidableEq

/-- Every plural message begins with this marker. -/
def marker : String := "\x7bcount, plural, "

def Error.message : Error → String
  | notPlural => "missing the '" ++ marker ++ "' prefix"
  | noBranches => "no plural categories found"
  | unknownCategory word => "unknown plural category '" ++ word ++ "'"
  | unexpectedChar c =>
    "unexpected character '" ++ c.toString ++ "' where a plural category was expected"
  | missingOpenBracket category => "expected '[' after plural category '" ++ category.keyword ++ "'"
  | nestedBracket category => "nested '[' inside the '" ++ category.keyword ++ "' branch"
  | unterminatedBranch category =>
    "unterminated '" ++ category.keyword ++ "' branch, missing ']'"
  | unterminatedBlock => "unterminated plural block, missing '\x7d'"

/-- A branch as it is written inside a block. -/
def Branch.render (branch : Branch) : String :=
  branch.category.keyword ++ " [" ++ branch.text ++ "]"

/-- The block that holds the branches, with one space between two of them. -/
def render (branches : List Branch) : String :=
  marker ++ " ".intercalate (branches.map Branch.render) ++ "\x7d"

end Phrasebook.Plural
