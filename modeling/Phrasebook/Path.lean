/-!
# Paths

Paths are kept as they are written, because reports show them so. What a path means is read off its
components: slashes in a row count as one, and a dot counts only at the start of a relative path.
-/

namespace Phrasebook

/-- A path as it is written. -/
structure Path where
  text : String
  deriving DecidableEq

namespace Path

/-- A step on the way that a path describes. -/
inductive Component where
  | root | current | parent
  | name (name : String)
  deriving DecidableEq

/-- The texts between the slashes. -/
def segments (p : Path) : List String := (p.text.toList.splitOn '/').map String.ofList

def isAbsolute (p : Path) : Bool := p.text.toList.head? = some '/'

/-- The component of a segment that does not start a path. -/
def componentOf? (segment : String) : Option Component :=
  if segment = "" then none
  else if segment = "." then none
  else if segment = ".." then some .parent
  else some (.name segment)

/-- The component of the first segment. -/
def firstComponent? (p : Path) (segment : String) : Option Component :=
  if p.isAbsolute then some .root
  else if segment = "." then some .current
  else componentOf? segment

/-- The segments with their components. -/
def steps (p : Path) : List (String × Option Component) :=
  match p.segments with
  | [] => []
  | first :: rest => (first, p.firstComponent? first) :: rest.map fun s => (s, componentOf? s)

def components (p : Path) : List Component := p.steps.filterMap Prod.snd

/-- The path with a relative path put at its end; an absolute path takes its place. -/
def join (base p : Path) : Path :=
  if p.isAbsolute then p
  else if base.text = "" || base.text.toList.getLast? = some '/' then ⟨base.text ++ p.text⟩
  else ⟨base.text ++ "/" ++ p.text⟩

/-- The beginnings of a path that end with a component, after what has been read of it. -/
def stemsFrom (read : String) : List String → List String
  | [] => []
  | s :: ss =>
    let longer := read ++ "/" ++ s
    if (componentOf? s).isSome then longer :: stemsFrom longer ss else stemsFrom longer ss

/-- The beginnings of a path, from its root or the empty path to its last component. -/
def stems (p : Path) : List Path :=
  match p.segments with
  | [] => []
  | first :: rest =>
    if p.isAbsolute then ⟨"/"⟩ :: (stemsFrom first rest).map Path.mk
    else
      let start := if (p.firstComponent? first).isSome then [first] else []
      ⟨""⟩ :: (start ++ stemsFrom first rest).map Path.mk

/-- The path and the paths that are left when the last component is dropped again and again. -/
def ancestors (p : Path) : List Path := p :: p.stems.dropLast.reverse

/-- The path without its last component. A root and the empty path have none to drop. -/
def parent? (p : Path) : Option Path := p.ancestors.tail.head?

/-- What follows the first `n` components. -/
def dropComponents : Nat → List (String × Option Component) → List (String × Option Component)
  | 0, steps => steps
  | _ + 1, [] => []
  | n + 1, (_, some _) :: steps => dropComponents n steps
  | n + 1, (_, none) :: steps => dropComponents (n + 1) steps

/-- The steps from the first component to the last. -/
def trimSteps (steps : List (String × Option Component)) : List (String × Option Component) :=
  ((steps.dropWhile (·.2.isNone)).reverse.dropWhile (·.2.isNone)).reverse

/-- What is left of a path below a base that it begins with. -/
def below? (p base : Path) : Option Path :=
  if base.components.isPrefixOf p.components then
    let rest := trimSteps (dropComponents base.components.length p.steps)
    some ⟨"/".intercalate (rest.map Prod.fst)⟩
  else none

/-- The last component, if it is a name. -/
def fileName? (p : Path) : Option String :=
  match p.components.getLast? with
  | some (.name n) => some n
  | _ => none

/-- Splits a name at its last dot. A dot at the start is part of the name. -/
def splitLast {α : Type} [DecidableEq α] (dot : α) (name : List α) : List α × Option (List α) :=
  let backwards := name.reverse
  match backwards.dropWhile (· ≠ dot) with
  | _ :: c :: before => ((c :: before).reverse, some (backwards.takeWhile (· ≠ dot)).reverse)
  | _ => (name, none)

/-- A name without its extension, and the extension. -/
def splitExtension (name : String) : String × Option String :=
  let (stem, extension?) := splitLast '.' name.toList
  (String.ofList stem, extension?.map String.ofList)

/-- The file name without its extension. -/
def stem? (p : Path) : Option String := p.fileName?.map fun n => (splitExtension n).1

def extension? (p : Path) : Option String := p.fileName?.bind fun n => (splitExtension n).2

end Path

end Phrasebook
