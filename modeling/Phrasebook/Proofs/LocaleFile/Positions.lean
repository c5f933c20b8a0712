import Phrasebook.Proofs.LocaleFile.Kept

/-!
# The positions in a locale file

The position of a dotted key depends on the text of the file and the key alone (`positionIn`), so
all that is loaded from a file is in the file, and findings in it with the same key have the same
position.
-/

namespace Phrasebook

/-- The dictionary of a file, in which all its entries are. -/
structure Dictionary.IsOfFile (d : Dictionary) (file : String) : Prop where
  file_eq : d.file = some file
  position : ∀ e ∈ d.entries.entries, e.2.position.map (·.file) = some file

namespace LocaleFile

open Json (Value)

variable {w : Workspace} {file : Path} {locale text : String} {loaded : Loaded}

/-- The position of a dotted key in the text of a file. -/
def positionIn (file : Path) (text key : String) : Position :=
  { file := file.text, line := keyLine (.ofText text.toList) text.toList key }

theorem parse_eq_ok_iff : parse file locale text = .ok loaded ↔
    ∃ members, Json.parse? text = some (.object members) ∧
      loaded = ofDocument file.text locale (positionIn file text) (.object members) := by
  unfold parse
  constructor
  · intro h
    split at h
    · cases h
    · rename_i members hparse
      cases h
      exact ⟨members, hparse, rfl⟩
    · cases h
  · rintro ⟨members, hparse, rfl⟩
    rw [hparse]
    rfl

/-- What is loaded from a file is the dictionary of a text in it. -/
theorem load_eq_ok_iff : load w file locale = .ok loaded ↔
    ∃ text members, w.readText file = .ok text ∧ Json.parse? text = some (.object members) ∧
      loaded = ofDocument file.text locale (positionIn file text) (.object members) := by
  unfold load
  cases w.readText file with
  | error e => exact ⟨nofun, nofun⟩
  | ok text =>
    dsimp only
    rw [parse_eq_ok_iff]
    constructor
    · rintro ⟨members, hparse, hloaded⟩
      exact ⟨text, members, rfl, hparse, hloaded⟩
    · rintro ⟨_, members, ⟨⟩, hparse, hloaded⟩
      exact ⟨members, hparse, hloaded⟩

theorem isOfFile_ofDocument {positionOf : String → Position} {document : Value String}
    {file : String} (h : ∀ key, (positionOf key).file = file) :
    (ofDocument file locale positionOf document).dictionary.IsOfFile file := by
  rw [ofDocument_eq]
  refine ⟨rfl, fun e he => ?_⟩
  obtain ⟨l, -, rfl⟩ := List.mem_map.1 (OrderedMap.mem_of_mem_ofList he)
  exact congrArg some (h _)

theorem isOfFile_of_load (h : load w file locale = .ok loaded) :
    loaded.dictionary.IsOfFile file.text := by
  obtain ⟨text, members, -, -, rfl⟩ := load_eq_ok_iff.1 h
  exact isOfFile_ofDocument fun _ => rfl

/-- The position of a dotted key in a file. -/
def positionInFile (w : Workspace) (file : Path) (key : String) : Position :=
  match w.readText file with
  | .ok text => positionIn file text key
  | .error _ => { file := file.text, line := 1 }

theorem file_positionInFile (w : Workspace) (file : Path) (key : String) :
    (positionInFile w file key).file = file.text := by
  unfold positionInFile
  split <;> rfl

/-- The findings in a file are about values of its locale, each at the position of its key. -/
theorem eq_of_mem_diagnostics (h : load w file locale = .ok loaded) :
    ∀ f ∈ loaded.diagnostics, ∃ key kind,
      f = .nonStringValue key locale kind (positionInFile w file key) := by
  obtain ⟨text, members, hread, -, rfl⟩ := load_eq_ok_iff.1 h
  intro f hf
  rw [ofDocument_eq] at hf
  obtain ⟨l, -, rfl⟩ := List.mem_map.1 hf
  unfold positionInFile
  rw [hread]
  exact ⟨_, _, rfl⟩

end LocaleFile

end Phrasebook
