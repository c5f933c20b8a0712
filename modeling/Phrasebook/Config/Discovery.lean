import Phrasebook.Config.Reader
import Phrasebook.Failure

/-!
# Finding the configuration

The configuration of a folder is in the folder itself or in the nearest folder around it that has a
configuration file, but no farther up than the folder with the repository, `.git`. Configured paths
are relative to the folder of the file that configures them.
-/

namespace Phrasebook.Config

/-- A configuration in use. -/
structure InUse where
  config : Config
  /-- The configuration was loaded from a file. -/
  fromFile : Bool
  /-- The folder that configured paths are relative to. -/
  base : Path
  deriving DecidableEq

/-- The first configuration file in a list of folders, up to one with a repository. -/
def findIn (w : Workspace) : List Path → Option Path
  | [] => none
  | folder :: folders =>
    let file := folder.join ⟨configFileName⟩
    if w.pathExists file then some file
    else if w.pathExists (folder.join ⟨".git"⟩) then none
    else findIn w folders

/-- The configuration file that is nearest to a folder. -/
def find? (w : Workspace) (start : Path) : Option Path := findIn w start.ancestors

/-- The configuration of a folder: that of the nearest file, or the defaults. -/
def load (w : Workspace) (start : Path) : Except Failure InUse :=
  match find? w start with
  | none => .ok ⟨{}, false, start⟩
  | some file =>
    match w.readText file with
    | .error e => .error (.readConfig file e)
    | .ok text =>
      match parse? text with
      | none => .error (.parseConfig file)
      | some config =>
        match config.invalid? with
        | some reason => .error (.invalidConfig file reason)
        | none => .ok ⟨config, true, file.parent?.getD start⟩

/-- The path that a configured path stands for. Where the base is the working folder itself the
path stays as it is written. -/
def InUse.resolve (c : InUse) (p : Path) : Path :=
  if p.isAbsolute then p
  else if c.base.components.all (· = .current) then p
  else c.base.join ((p.below? ⟨"."⟩).getD p)

end Phrasebook.Config
