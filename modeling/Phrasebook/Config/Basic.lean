import Phrasebook.Json.Printer
import Phrasebook.Literal
import Phrasebook.Module.Options
import Phrasebook.Text.Blank

/-!
# Configuration

What a project may set once for all runs, with a default for everything.
-/

namespace Phrasebook

structure Config where
  messagesRoot : String := "./messages"
  sourceLocale : String := "en"
  output : String := "./locales.ts"
  mode : Mode := .merged
  schema : Schema := .flat
  localeType : String := "CrowdinLocale"
  localeTypeModule : String := "./constants"
  deriving DecidableEq

namespace Config

/-- The settings, by their names in a configuration file. -/
inductive Field where
  | messagesRoot | sourceLocale | output | mode | schema | localeType | localeTypeModule
  deriving DecidableEq

namespace Field

/-- All settings, in the order in which they are written. -/
def all : List Field :=
  [messagesRoot, sourceLocale, output, mode, schema, localeType, localeTypeModule]

def key : Field → String
  | messagesRoot => "messagesRoot"
  | sourceLocale => "sourceLocale"
  | output => "output"
  | mode => "mode"
  | schema => "schema"
  | localeType => "localeType"
  | localeTypeModule => "localeTypeModule"

def ofKey? (key : String) : Option Field := all.find? (·.key = key)

end Field

/-- The text of a setting. -/
def get (c : Config) : Field → String
  | .messagesRoot => c.messagesRoot
  | .sourceLocale => c.sourceLocale
  | .output => c.output
  | .mode => c.mode.name
  | .schema => c.schema.name
  | .localeType => c.localeType
  | .localeTypeModule => c.localeTypeModule

/-- The text of a configuration file. -/
def render (c : Config) : String :=
  Json.renderTexts (Field.all.map fun f => (f.key, c.get f))

/-- The options of the generated module. -/
def moduleOptions (c : Config) : ModuleOptions where
  mode := c.mode
  schema := c.schema
  localeType := c.localeType
  localeTypeModule := c.localeTypeModule

/-- Why a configuration cannot be used. -/
inductive Invalid where
  | emptySourceLocale
  | emptyOutput
  | localeType (name : String)
  | emptyLocaleTypeModule
  deriving DecidableEq

def Invalid.message : Invalid → String
  | emptySourceLocale => "'sourceLocale' must not be empty"
  | emptyOutput => "'output' must not be empty"
  | localeType name => "Invalid 'localeType': \"" ++ name ++ "\" is not a valid type name"
  | emptyLocaleTypeModule => "'localeTypeModule' must not be empty"

/-- The name is an ASCII letter, an underscore or a dollar sign, and then more of these or
digits. -/
def isIdentifier (name : String) : Bool :=
  match name.toList with
  | [] => false
  | c :: cs =>
    (c.isAlpha || c = '_' || c = '$') &&
      cs.all fun c => Literal.isAlphanumeric c || c = '_' || c = '$'

/-- The first reason why the configuration cannot be used. -/
def invalid? (c : Config) : Option Invalid :=
  if Text.allBlank c.sourceLocale then some .emptySourceLocale
  else if Text.allBlank c.output then some .emptyOutput
  else if !isIdentifier c.localeType then some (.localeType c.localeType)
  else if Text.allBlank c.localeTypeModule then some .emptyLocaleTypeModule
  else none

end Config

end Phrasebook
