import Phrasebook.Diagnostic.Basic
import Phrasebook.Failure
import Phrasebook.Json.Reader
import Phrasebook.LocaleFile.KeyLine
import Phrasebook.LocaleFile.Leaves

/-!
# Locale files

A locale file is a JSON object of messages, which may be grouped in objects of their own. The token
of a message is its dotted key. Values that are neither strings nor objects are skipped, with a
finding for each.
-/

namespace Phrasebook

/-- A dictionary and the findings that were made on the way to it. -/
structure Loaded where
  dictionary : Dictionary
  diagnostics : List Diagnostic
  deriving DecidableEq

namespace LocaleFile

/-- Adds a leaf to what has been loaded: a string to the dictionary, another value to the
findings. -/
def addLeaf (positionOf : String → Position) (loaded : Loaded) (leaf : Leaf) : Loaded :=
  let position := positionOf leaf.key
  match leaf.value with
  | .string text =>
    { loaded with
      dictionary := loaded.dictionary.insertEntry leaf.key { value := text, position } }
  | v =>
    let finding := .nonStringValue leaf.key loaded.dictionary.locale v.kind position
    { loaded with diagnostics := loaded.diagnostics ++ [finding] }

/-- The dictionary of a document whose keys have the given positions. -/
def ofDocument (file locale : String) (positionOf : String → Position)
    (document : Json.Value String) : Loaded :=
  (leaves "" document).foldl (addLeaf positionOf) ⟨{ locale, file := some file }, []⟩

/-- The dictionary of the text of a file. -/
def parse (file : Path) (locale text : String) : Except Failure Loaded :=
  match Json.parse? text with
  | none => .error (.parseLocale file)
  | some (.object members) =>
    let cs := text.toList
    let table := LineTable.ofText cs
    let positionOf (key : String) : Position :=
      { file := file.text, line := keyLine table cs key }
    .ok (ofDocument file.text locale positionOf (.object members))
  | some v => .error (.localeNotObject file v.kind)

/-- Loads the dictionary of a locale from a file. -/
def load (w : Workspace) (file : Path) (locale : String) : Except Failure Loaded :=
  match w.readText file with
  | .error e => .error (.readLocale file e)
  | .ok text => parse file locale text

end LocaleFile

end Phrasebook
