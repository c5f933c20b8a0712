import Phrasebook.CommandLine.Basic
import Phrasebook.Config.Discovery

/-!
# Settings of a run

What a run goes by: the options of the command line first, then the configuration, then the
defaults. Paths on the command line are relative to the working folder.
-/

namespace Phrasebook

structure Settings where
  messagesRoot : Path
  sourceLocale : String
  output : Path
  options : ModuleOptions
  deriving DecidableEq

namespace Settings

/-- The configuration of the working folder. A base at or below it is written relative to it. -/
def configuration (w : Workspace) : Except Failure Config.InUse :=
  (Config.load w w.path).map fun c =>
    match c.base.below? w.path with
    | some rest => { c with base := Path.join ⟨"."⟩ rest }
    | none => c

/-- The settings of a configuration and the options of a command. -/
def ofConfiguration (c : Config.InUse) (o : CommandLine.CommonOptions) : Settings where
  messagesRoot := o.messagesRoot.getD (c.resolve ⟨c.config.messagesRoot⟩)
  sourceLocale := o.sourceLocale.getD c.config.sourceLocale
  output := o.output.getD (c.resolve ⟨c.config.output⟩)
  options :=
    { c.config.moduleOptions with
      mode := o.mode.getD c.config.mode
      schema := o.schema.getD c.config.schema }

end Settings

end Phrasebook
