import Phrasebook.Config.Basic
import Phrasebook.Json.Reader

/-!
# Reading a configuration

A configuration is an object with any of the settings as members, each at most once, among others
that are skipped; or an array with the settings in their order, of which the last ones may be left
out. What is skipped has to be written correctly and nothing more.
-/

namespace Phrasebook.Config

/-- A value as it stands in a configuration file. -/
abbrev Written := Json.Value (Option String)

/-- The name of one of several choices: a text, or an object with the name as its only key and
null as its value. -/
def choice? : Written → Option String
  | .string name => name
  | .object [(name, .null)] => name
  | _ => none

def text? : Written → Option String
  | .string text => text
  | _ => none

/-- The configuration with one setting changed, if the value is one for the setting. -/
def set? (c : Config) (f : Field) (v : Written) : Option Config :=
  match f with
  | .messagesRoot => (text? v).map fun text => { c with messagesRoot := text }
  | .sourceLocale => (text? v).map fun text => { c with sourceLocale := text }
  | .output => (text? v).map fun text => { c with output := text }
  | .mode => ((choice? v).bind Mode.ofName?).map fun mode => { c with mode }
  | .schema => ((choice? v).bind Schema.ofName?).map fun schema => { c with schema }
  | .localeType => (text? v).map fun text => { c with localeType := text }
  | .localeTypeModule => (text? v).map fun text => { c with localeTypeModule := text }

/-- Applies the members of an object, after the settings in `seen`. -/
def applyMembers? (c : Config) (seen : List Field) :
    List (Option String × Written) → Option Config
  | [] => some c
  | (none, _) :: _ => none
  | (some key, v) :: members =>
    match Field.ofKey? key with
    | none => applyMembers? c seen members
    | some f =>
      if f ∈ seen then none
      else (c.set? f v).bind fun c => applyMembers? c (f :: seen) members

/-- Applies values to settings in order. There may be fewer values, not more. -/
def applyItems? (c : Config) : List Field → List Written → Option Config
  | _, [] => some c
  | [], _ :: _ => none
  | f :: fs, v :: vs => (c.set? f v).bind fun c => applyItems? c fs vs

/-- The configuration that a value holds. -/
def ofValue? : Written → Option Config
  | .object members => applyMembers? {} [] members
  | .array items => applyItems? {} Field.all items
  | _ => none

/-- The configuration that a text holds. -/
def parse? (text : String) : Option Config := (Json.parseLenient? text).bind ofValue?

end Phrasebook.Config
