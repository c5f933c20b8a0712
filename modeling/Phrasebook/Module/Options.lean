/-!
# Options of the generated module
-/

namespace Phrasebook

/-- What the module holds. -/
inductive Mode where
  /-- The source locale as one constant object. -/
  | single
  /-- All locales, with typed tables and argument types. -/
  | merged
  deriving DecidableEq

namespace Mode

def all : List Mode := [single, merged]

def name : Mode → String
  | single => "single"
  | merged => "merged"

def ofName? (name : String) : Option Mode := all.find? (·.name = name)

end Mode

/-- The tables of a merged module. -/
inductive Schema where
  /-- Tables from locales to texts. -/
  | flat
  /-- Tables that also record the types of the arguments. -/
  | nested
  deriving DecidableEq

namespace Schema

def all : List Schema := [flat, nested]

def name : Schema → String
  | flat => "flat"
  | nested => "nested"

def ofName? (name : String) : Option Schema := all.find? (·.name = name)

end Schema

structure ModuleOptions where
  mode : Mode := .merged
  schema : Schema := .flat
  /-- The type of locales that a merged module imports. -/
  localeType : String := "CrowdinLocale"
  /-- The module that the type of locales comes from. -/
  localeTypeModule : String := "./constants"
  deriving DecidableEq

end Phrasebook
