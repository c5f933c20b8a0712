import Phrasebook.LocaleFile.Basic

/-!
# Folders of locale files

Every file of a folder whose extension is `json` holds the messages of one locale, named by the
rest of the file's name, and is passed over if that is no text. The source locale comes first and
the others follow by the code points of their names. One file that cannot be loaded spoils the whole
folder, since a locale less would change the module.
-/

namespace Phrasebook

/-- The dictionaries of a folder and the findings of its files. -/
structure LoadedSet where
  locales : LocaleSet
  diagnostics : List Diagnostic
  deriving DecidableEq

namespace LocaleFolder

/-- The locale of a file and the file. -/
abbrev LocalePath := String × Path

/-- The locale of a name in the folder, if it is that of a locale file. -/
def localePath? (w : Workspace) (folder : Path) (name : String) : Option LocalePath :=
  let file := folder.join ⟨name⟩
  if w.isFile file && file.extension? = some "json" then file.stem?.map fun locale => (locale, file)
  else none

/-- The locale file under a name of any kind. What is left of a name that is no text has to be one
for the file to be that of a locale. -/
def entryPath? (w : Workspace) (folder : Path) : FileName → Option LocalePath
  | .text name => localePath? w folder name
  | .raw name =>
    if w.isRawFile folder name && name.extension? = some "json" then
      name.stem?.map fun locale => (locale, folder.join ⟨locale ++ ".json"⟩)
    else none

/-- The source locale comes before the others. -/
def order (source : String) : LocalePath → LocalePath → Ordering :=
  compareLex (compareOn fun f => decide (f.1 ≠ source)) (compareOn Prod.fst)

/-- The locale files of a folder in the order of the module. -/
def localePaths (w : Workspace) (folder : Path) (source : String) : List LocalePath :=
  ((w.listing folder).filterMap (entryPath? w folder)).mergeSort fun a b =>
    (order source a b).isLE

/-- Loads all locale files of a folder. -/
def load (w : Workspace) (folder : Path) (source : String) : Except Failure LoadedSet := do
  if !w.pathExists folder then throw (.messagesMissing folder)
  if !w.isFolder folder then throw (.messagesNotFolder folder)
  let loaded ← (localePaths w folder source).mapM fun (locale, file) =>
    LocaleFile.load w file locale
  return ⟨.ofList (loaded.map (·.dictionary)), loaded.flatMap (·.diagnostics)⟩

end LocaleFolder

end Phrasebook
