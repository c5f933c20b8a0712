import Phrasebook.Config.Basic
import Phrasebook.FileTree
import Phrasebook.Json.Basic
import Phrasebook.Text.Quoted
import Phrasebook.Token

/-!
# Failures

Why a run comes to nothing.
-/

namespace Phrasebook

inductive Failure where
  | readConfig (file : Path) (e : FileError)
  /-- A configuration file is not written as it has to be. -/
  | parseConfig (file : Path)
  | invalidConfig (file : Path) (reason : Config.Invalid)
  | readLocale (file : Path) (e : FileError)
  /-- A locale file is not written as it has to be. -/
  | parseLocale (file : Path)
  | localeNotObject (file : Path) (kind : Json.Kind)
  | messagesMissing (folder : Path)
  | messagesNotFolder (folder : Path)
  | compile (e : CompileError)
  | readOutput (file : Path) (e : FileError)
  | makeOutputFolder (folder : Path) (e : FileError)
  | writeOutput (file : Path) (e : FileError)
  | configExists
  | writeConfig (e : FileError)
  deriving DecidableEq

/-- The name of a configuration file. -/
def configFileName : String := ".dictgenrc.json"

namespace Failure

/-- A file in a message, between quotes. -/
def quotedPath (p : Path) : String := Text.quoted p.text

def message : Failure → String
  | readConfig file e => "Failed to read config file: " ++ quotedPath file ++ ": " ++ e.message
  | parseConfig file => "Failed to parse config file: " ++ quotedPath file ++ ": [json error]"
  | invalidConfig file reason =>
    "Invalid config file: " ++ quotedPath file ++ ": " ++ reason.message
  | readLocale file e => "Failed to read locale file: " ++ quotedPath file ++ ": " ++ e.message
  | parseLocale file => "Failed to parse locale file: " ++ quotedPath file ++ ": [json error]"
  | localeNotObject file kind =>
    "Locale file " ++ quotedPath file ++ " must contain a JSON object, found " ++ kind.name
  | messagesMissing folder =>
    "Messages directory '" ++ folder.text ++ "' does not exist.\nHint: Check your " ++
      configFileName ++ " 'messagesRoot' setting."
  | messagesNotFolder folder => "'" ++ folder.text ++ "' is not a directory."
  | compile e => e.message
  | readOutput file e => "Failed to read " ++ file.text ++ ": " ++ e.message
  | makeOutputFolder folder e =>
    "Failed to create directory " ++ quotedPath folder ++ ": " ++ e.message
  | writeOutput file e => "Failed to write " ++ quotedPath file ++ ": " ++ e.message
  | configExists => configFileName ++ " already exists"
  | writeConfig e => "Failed to write " ++ configFileName ++ ": " ++ e.message

end Failure

end Phrasebook
