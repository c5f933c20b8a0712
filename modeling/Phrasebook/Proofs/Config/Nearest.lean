import Phrasebook.Proofs.Config.Written
import Phrasebook.Proofs.Path.Parents
import Phrasebook.Proofs.Traversal

/-!
# The nearest configuration

Of the folders above a start, taken one after another until nothing is left to drop, the
configuration is that of the first one that has a file for it, unless a repository comes before
(`load_nearest`). In one and the same folder the file comes before the repository.
-/

namespace Phrasebook.Config

variable {w : Workspace} {start file : Path} {c : InUse}

def HasConfig (w : Workspace) (folder : Path) : Prop :=
  w.pathExists (folder.join ⟨configFileName⟩) = true

def HasRepository (w : Workspace) (folder : Path) : Prop :=
  w.pathExists (folder.join ⟨".git"⟩) = true

instance (w : Workspace) (folder : Path) : Decidable (HasConfig w folder) :=
  inferInstanceAs (Decidable (_ = true))

instance (w : Workspace) (folder : Path) : Decidable (HasRepository w folder) :=
  inferInstanceAs (Decidable (_ = true))

/-- Of the folders above the start, counted from the start itself, this is the first one with a
configuration file, and no folder before it has a repository. -/
structure IsNearest (w : Workspace) (start : Path) (i : Nat) (folder : Path) : Prop where
  above : start.above i = some folder
  config : HasConfig w folder
  before : ∀ j < i, ∀ d, start.above j = some d → ¬ HasConfig w d ∧ ¬ HasRepository w d

/-- The configuration is that of the file in a folder, and its paths are relative to the folder. -/
structure IsOfFolder (w : Workspace) (folder : Path) (c : InUse) : Prop where
  read : ∃ text, w.readText (folder.join ⟨configFileName⟩) = .ok text ∧ parse? text = some c.config
  valid : c.config.invalid? = none
  fromFile : c.fromFile = true
  /-- The same folder as a path, though the start may be written with slashes at its end. -/
  base : c.base.components = folder.components

/-! ## Finding -/

/-- The first of the folders with a configuration file, and none before it with a repository. -/
def IsFirst (w : Workspace) (folders : List Path) (i : Nat) (folder : Path) : Prop :=
  folders[i]? = some folder ∧ HasConfig w folder ∧
    ∀ j < i, ∀ d, folders[j]? = some d → ¬ HasConfig w d ∧ ¬ HasRepository w d

theorem isFirst_zero_iff {first folder : Path} {rest : List Path} :
    IsFirst w (first :: rest) 0 folder ↔ first = folder ∧ HasConfig w folder := by
  simp [IsFirst]

theorem isFirst_succ_iff {first folder : Path} {rest : List Path} {i : Nat} :
    IsFirst w (first :: rest) (i + 1) folder ↔
      (¬ HasConfig w first ∧ ¬ HasRepository w first) ∧ IsFirst w rest i folder := by
  unfold IsFirst
  rw [Nat.forall_lt_succ_left]
  simp only [List.getElem?_cons_zero, List.getElem?_cons_succ, Option.some.injEq, forall_eq']
  tauto

/-- One folder after another is looked at. -/
theorem findIn_eq_some_iff {folders : List Path} :
    findIn w folders = some file ↔
      ∃ i folder, IsFirst w folders i folder ∧ file = folder.join ⟨configFileName⟩ := by
  induction folders with
  | nil => simp [findIn, IsFirst]
  | cons first rest ih =>
    rw [← Nat.or_exists_add_one]
    simp only [isFirst_zero_iff, isFirst_succ_iff, and_assoc, exists_and_left, exists_eq_left',
      ← ih]
    rw [findIn]
    by_cases hconfig : HasConfig w first
    · have hif : w.pathExists (first.join ⟨configFileName⟩) = true := hconfig
      rw [if_pos hif, Option.some.injEq]
      simp [hconfig, eq_comm]
    · have hif : ¬ w.pathExists (first.join ⟨configFileName⟩) = true := hconfig
      rw [if_neg hif]
      by_cases hrepository : HasRepository w first
      · have hif : w.pathExists (first.join ⟨".git"⟩) = true := hrepository
        rw [if_pos hif]
        simp [hconfig, hrepository]
      · have hif : ¬ w.pathExists (first.join ⟨".git"⟩) = true := hrepository
        rw [if_neg hif]
        simp [hconfig, hrepository]

/-- **The file that is found** is that of the nearest folder. -/
theorem find?_eq_some_iff :
    find? w start = some file ↔
      ∃ i folder, IsNearest w start i folder ∧ file = folder.join ⟨configFileName⟩ := by
  rw [find?, findIn_eq_some_iff]
  simp only [IsFirst, Path.getElem?_ancestors]
  constructor
  · rintro ⟨i, folder, ⟨habove, hconfig, hbefore⟩, hfile⟩
    exact ⟨i, folder, ⟨habove, hconfig, hbefore⟩, hfile⟩
  · rintro ⟨i, folder, h, hfile⟩
    exact ⟨i, folder, ⟨h.above, h.config, h.before⟩, hfile⟩

/-- Nothing is looked at behind a repository. -/
theorem IsNearest.le_of_hasRepository {i j : Nat} {folder d : Path} (h : IsNearest w start i folder)
    (hd : start.above j = some d) (hrepository : HasRepository w d) : i ≤ j :=
  Nat.le_of_not_lt fun hlt => (h.before j hlt d hd).2 hrepository

/-! ## Loading -/

theorem isName_configFileName : IsName configFileName := by decide

/-- The folder of a file that was found is the one that it was found in. -/
theorem exists_parent?_of_isNearest {i : Nat} {folder : Path} (h : IsNearest w start i folder) :
    ∃ base, (folder.join ⟨configFileName⟩).parent? = some base ∧
      base.components = folder.components ∧ (0 < i → base = folder) := by
  rw [Path.parent?_join folder isName_configFileName]
  obtain ⟨base, hbase, hcomponents⟩ := folder.exists_last_stem
  refine ⟨base, hbase, hcomponents, fun hi => ?_⟩
  obtain ⟨i, rfl⟩ := Nat.exists_eq_succ_of_ne_zero (Nat.pos_iff_ne_zero.1 hi)
  rw [Path.getLast?_stems_of_above h.above] at hbase
  exact (Option.some.inj hbase).symm

/-- A file that was found is loaded if it holds a configuration that can be used. -/
theorem load_eq_ok_iff (h : find? w start = some file) :
    load w start = .ok c ↔
      (∃ text, w.readText file = .ok text ∧ parse? text = some c.config) ∧
        c.config.invalid? = none ∧ c.fromFile = true ∧ c.base = file.parent?.getD start := by
  constructor
  · intro hload
    rw [load, h] at hload
    dsimp only at hload
    split at hload
    · cases hload
    rename_i text htext
    split at hload
    · cases hload
    rename_i config hconfig
    split at hload
    · cases hload
    rename_i hvalid
    cases hload
    exact ⟨⟨text, htext, hconfig⟩, hvalid, rfl, rfl⟩
  · rintro ⟨⟨text, htext, hconfig⟩, hvalid, hfile, hbase⟩
    obtain ⟨config, fromFile, base⟩ := c
    obtain rfl : fromFile = true := hfile
    obtain rfl : base = file.parent?.getD start := hbase
    exact load_of_readText h htext hconfig hvalid

/-- What is loaded where a file was found. -/
theorem IsNearest.load_eq_ok {i : Nat} {folder : Path} (h : IsNearest w start i folder)
    (hload : load w start = .ok c) : IsOfFolder w folder c ∧ (0 < i → c.base = folder) := by
  have hfind := find?_eq_some_iff.2 ⟨i, folder, h, rfl⟩
  obtain ⟨hread, hvalid, hfile, hbase⟩ := (load_eq_ok_iff hfind).1 hload
  obtain ⟨base, hparent, hcomponents, hsame⟩ := exists_parent?_of_isNearest h
  rw [hparent, Option.getD_some] at hbase
  subst hbase
  exact ⟨⟨hread, hvalid, hfile, hcomponents⟩, hsame⟩

/-- **The nearest configuration.** The folders above the start are looked at one after another, each
without the last component of the one before, until there is none left to drop. -/
theorem load_nearest (w : Workspace) (start : Path) :
    (∀ i d e, start.above i = some d → start.above (i + 1) = some e →
        e.components = d.components.dropLast) ∧
      (∀ i d, start.above i = some d →
        (start.above (i + 1) = none ↔ d.components = [] ∨ d.components = [.root])) ∧
      start.above (start.components.length + 1) = none ∧
      (∀ file, find? w start = some file ↔
        ∃ i folder, IsNearest w start i folder ∧ file = folder.join ⟨configFileName⟩) ∧
      (∀ j d, start.above j = some d → HasRepository w d → ∀ file, find? w start = some file →
        ∃ i ≤ j, ∃ folder, start.above i = some folder ∧ file = folder.join ⟨configFileName⟩) ∧
      (∀ i folder, IsNearest w start i folder →
        (∀ c, load w start = .ok c → IsOfFolder w folder c ∧ (0 < i → c.base = folder)) ∧
        ((∃ c, load w start = .ok c) ↔ ∃ text config,
          w.readText (folder.join ⟨configFileName⟩) = .ok text ∧ parse? text = some config ∧
            config.invalid? = none)) ∧
      (find? w start = none → load w start = .ok ⟨{}, false, start⟩) := by
  refine ⟨?_, ?_, start.above_eq_none, fun file => find?_eq_some_iff, ?_, ?_,
    load_of_find?_eq_none⟩
  · intro i d e hd he
    rw [Path.above, hd] at he
    exact (Path.components_of_parent? he).1
  · intro i d hd
    rw [Path.above, hd]
    exact Path.parent?_eq_none_iff
  · intro j d hd hrepository file hfile
    obtain ⟨i, folder, h, rfl⟩ := find?_eq_some_iff.1 hfile
    exact ⟨i, h.le_of_hasRepository hd hrepository, folder, h.above, rfl⟩
  · intro i folder h
    have hfind := find?_eq_some_iff.2 ⟨i, folder, h, rfl⟩
    refine ⟨fun c hload => h.load_eq_ok hload, ?_, ?_⟩
    · rintro ⟨c, hload⟩
      obtain ⟨⟨text, htext, hparse⟩, hvalid, -⟩ := (load_eq_ok_iff hfind).1 hload
      exact ⟨text, c.config, htext, hparse, hvalid⟩
    · rintro ⟨text, config, htext, hparse, hvalid⟩
      exact ⟨_, load_of_readText hfind htext hparse hvalid⟩

/-- A repository with a configuration beside it, a folder in it, and a configuration above. -/
def nestedProject : Workspace where
  here := ["p", "app"]
  tree.nodes := .ofList [
    ([".dictgenrc.json"], .file "\x7b\x7d".toUTF8),
    (["p"], .folder),
    (["p", ".git"], .folder),
    (["p", ".dictgenrc.json"], .file "\x7b\"sourceLocale\": \"de\"\x7d".toUTF8),
    (["p", "app"], .folder)]

theorem isNearest_nestedProject : IsNearest nestedProject ⟨"/p/app"⟩ 1 ⟨"/p"⟩ where
  above := by decide
  config := by decide
  before := by
    intro j hj d hd
    obtain rfl : j = 0 := by omega
    obtain rfl : (⟨"/p/app"⟩ : Path) = d := Option.some.inj hd
    decide

theorem load_nestedProject :
    load nestedProject ⟨"/p/app"⟩ = .ok ⟨{ sourceLocale := "de" }, true, ⟨"/p"⟩⟩ :=
  Traversal.eq_ok_of_toOption (by decide +kernel)

/-- The configuration beside the repository is the one that is used in the folder below, though
there is one above as well. -/
theorem load_beside_repository :
    nestedProject.WellFormed ∧ HasConfig nestedProject ⟨"/"⟩ ∧
      find? nestedProject ⟨"/p/app"⟩ = some ⟨"/p/.dictgenrc.json"⟩ ∧
        ∃ c, load nestedProject ⟨"/p/app"⟩ = .ok c ∧ c.base = ⟨"/p"⟩ ∧
          c.config.sourceLocale = "de" := by
  obtain ⟨-, -, -, hfind, -, hload, -⟩ := load_nearest nestedProject ⟨"/p/app"⟩
  refine ⟨by decide, by decide,
    (hfind _).2 ⟨1, ⟨"/p"⟩, isNearest_nestedProject, by decide⟩, ?_⟩
  obtain ⟨hbase, -⟩ := hload 1 ⟨"/p"⟩ isNearest_nestedProject
  exact ⟨_, load_nestedProject, (hbase _ load_nestedProject).2 Nat.one_pos, rfl⟩

end Phrasebook.Config
