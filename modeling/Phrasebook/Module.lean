import Phrasebook.Module.Merged
import Phrasebook.Module.Single

/-!
# The generated module
-/

namespace Phrasebook

/-- The sections of the module that the options ask for. -/
def Compilation.sections (c : Compilation) (o : ModuleOptions) : List Section :=
  match o.mode with
  | .single => Module.singleSections c
  | .merged => Module.mergedSections c o

/-- The text of the generated module. -/
def Compilation.render (c : Compilation) (o : ModuleOptions) : String :=
  Section.renderAll (c.sections o)

end Phrasebook
