import Phrasebook.Argument.Fragment
import Phrasebook.Compilation
import Phrasebook.Module.Options
import Phrasebook.Module.Section

/-!
# The merged module

All locales in one module: the types of the arguments first, then the names of the tokens and the
arguments that each one takes, then a table of texts for each of the three buckets.
-/

namespace Phrasebook.Module

open Literal

/-- The import of the type of locales. -/
def importSection (o : ModuleOptions) : Section :=
  ["import type \x7b " ++ o.localeType ++ " \x7d from '" ++ o.localeTypeModule ++ "';"]

/-- The declarations of all fragments. -/
def fragmentSection (r : Registry) : Section := r.values.map Fragment.declaration

/-- The union of the names of the tokens. -/
def unionSection (name : String) (tokens : List CompiledToken) : Section :=
  let header := "export type " ++ name ++ " ="
  if tokens.isEmpty then [header ++ " never;"]
  else Section.closeWith ";" (header :: tokens.map fun t => "  | " ++ singleQuoted t.name)

/-- The argument type of each token. -/
def argumentSection (name : String) (r : Registry) (tokens : List CompiledToken) : Section :=
  Section.braces ["export type " ++ name ++ " ="]
    (tokens.map fun t => "  " ++ quoteKey t.name ++ ": " ++ (r.shapeOf t.kind.args).render ++ ";")
    ";"

/-- The types of a token's arguments as a record. -/
def argumentRecord (args : List Variable) : String :=
  "\x7b" ++ ", ".intercalate (args.map Variable.tag) ++ "\x7d"

/-- The lines of a value of a token. -/
def valueLines : Resolved → List String
  | .simple texts => texts.entries.map fun (locale, text) =>
    "    " ++ localeKey locale ++ ": " ++ doubleQuoted text ++ ","
  | .plural values => values.entries.flatMap fun (locale, branches) =>
    ["    " ++ localeKey locale ++ ": \x7b"] ++
      (branches.map fun b =>
        "      " ++ b.category.keyword ++ ": " ++ doubleQuoted b.text ++ ",") ++
      ["    \x7d,"]

/-- The line that records the arguments of a token. -/
def argumentLine (t : CompiledToken) : String :=
  "    args: " ++ argumentRecord t.kind.args ++ ","

/-- The entry of a token in a table. -/
def tokenLines (withArgs : Bool) (t : CompiledToken) : List String :=
  ["  " ++ quoteKey t.name ++ ": \x7b"] ++ valueLines t.resolved ++
    (if withArgs then [argumentLine t] else []) ++ ["  \x7d,"]

def tableSection (header : Section) (withArgs : Bool) (tokens : List CompiledToken) : Section :=
  Section.braces header (tokens.flatMap (tokenLines withArgs)) " as const;"

/-- The header of a table that maps each token of a union to a text in every locale. -/
def typedHeader (o : ModuleOptions) (name union : String) : Section :=
  ["export const " ++ name ++ ": Record<",
   "  " ++ union ++ ",",
   "  Record<" ++ o.localeType ++ ", string>",
   "> ="]

def plainHeader (name : String) : Section := ["export const " ++ name ++ " ="]

/-- The sections of the merged module. -/
def mergedSections (c : Compilation) (o : ModuleOptions) : List Section :=
  let noArgs := c.bucket .simpleNoArgs
  let withArgs := c.bucket .simpleWithArgs
  let plurals := c.bucket .pluralWithArgs
  let nested := o.schema = .nested
  [disclaimer,
   importSection o,
   fragmentSection .builtin,
   unionSection "TokenSimpleNoArgs" noArgs,
   argumentSection "TokensSimpleAndArgs" .builtin withArgs,
   argumentSection "TokensPluralAndArgs" .builtin plurals,
   unionSection "TokenSimpleWithArgs" withArgs,
   unionSection "TokenPluralWithArgs" plurals,
   tableSection (typedHeader o "simpleDictionaryNoArgs" "TokenSimpleNoArgs") false noArgs,
   tableSection
     (if nested then plainHeader "simpleDictionaryWithArgs"
      else typedHeader o "simpleDictionaryWithArgs" "TokenSimpleWithArgs")
     nested withArgs,
   tableSection (plainHeader "pluralsDictionaryWithArgs") nested plurals]

end Phrasebook.Module
