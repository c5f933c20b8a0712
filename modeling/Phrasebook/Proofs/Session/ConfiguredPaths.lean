import Phrasebook.Proofs.Config.Nearest
import Phrasebook.Proofs.Path.Targets
import Phrasebook.Proofs.Session.Basic
import Phrasebook.Proofs.Traversal

/-!
# Configured paths

A configured path is resolved by its components: an absolute one stays as it is, and a relative one
goes on behind the folder that it is relative to (`Config.InUse.parts_resolve`). What a run takes
for the messages and the output names what the configured path names in the folder of the
configuration file, and leads there unless the path is one of those that `Config.Strays` describes
(`configured_paths`).
-/

namespace Phrasebook

namespace Config

variable {w : Workspace} {folder p : Path} {c : InUse} {i : Nat}

/-! ## Resolving -/

theorem InUse.resolve_of_isAbsolute (c : InUse) (h : p.isAbsolute = true) : c.resolve p = p :=
  if_pos h

theorem InUse.resolve_of_current (hbase : c.base.components.all (· = .current) = true) :
    c.resolve p = p := by
  unfold InUse.resolve
  rw [if_pos hbase, ite_self]

theorem InUse.resolve_of_not_current (hbase : ¬ c.base.components.all (· = .current) = true)
    (hp : p.isAbsolute = false) : c.resolve p = c.base.join ((p.below? ⟨"."⟩).getD p) := by
  unfold InUse.resolve
  rw [hp, if_neg Bool.false_ne_true, if_neg hbase]

/-- **A relative path goes on behind the base.** -/
theorem InUse.parts_resolve (c : InUse) (hp : p.isAbsolute = false) :
    (c.resolve p).parts = c.base.parts ++ p.parts := by
  by_cases hbase : c.base.components.all (· = .current) = true
  · have hempty : c.base.parts = [] := by
      refine List.filter_eq_nil_iff.2 fun x hx => ?_
      simpa using List.all_eq_true.1 hbase x hx
    rw [InUse.resolve_of_current hbase, hempty, List.nil_append]
  · obtain ⟨habs, hparts⟩ := Path.parts_getD_below_dot hp
    rw [InUse.resolve_of_not_current hbase hp, Path.parts_join _ habs, hparts]

/-! ## The base of a run -/

theorem isAbsolute_path (w : Workspace) : w.path.isAbsolute = true :=
  Path.isAbsolute_append (a := "/") (by decide)

/-- In the working folder itself paths stay as they are written. -/
theorem configuration_of_here (hw : w.WellFormed) (h : IsNearest w w.path 0 folder)
    (hload : load w w.path = .ok c) :
    folder = w.path ∧ c.base = folder ∧
      Settings.configuration w = .ok { c with base := ⟨"./"⟩ } := by
  obtain rfl : w.path = folder := Option.some.inj h.above
  have hfind := find?_eq_some_iff.2 ⟨0, w.path, h, rfl⟩
  have hbase := ((load_eq_ok_iff hfind).1 hload).2.2.2
  rw [Workspace.parent?_join_path (hw.tree.isName hw.here) isName_configFileName,
    Option.getD_some] at hbase
  refine ⟨rfl, hbase, ?_⟩
  unfold Settings.configuration
  rw [hload]
  dsimp only [Except.map]
  rw [hbase, Path.below?_self]
  dsimp only
  have hcurrent : Path.join ⟨"."⟩ ⟨""⟩ = ⟨"./"⟩ := by decide
  rw [hcurrent]

/-- A folder above the working folder is the base as it is. -/
theorem configuration_of_above (h : IsNearest w w.path (i + 1) folder)
    (hload : load w w.path = .ok c) :
    folder ≠ w.path ∧ folder.isAbsolute = true ∧ c.base = folder ∧
      Settings.configuration w = .ok c := by
  obtain ⟨hlength, habs⟩ := Path.components_of_above h.above
  have hbase := (h.load_eq_ok hload).2 i.succ_pos
  refine ⟨?_, habs.trans (isAbsolute_path w), hbase, ?_⟩
  · rintro rfl
    omega
  · unfold Settings.configuration
    rw [hload]
    dsimp only [Except.map]
    rw [hbase, Path.below?_eq_none (by omega)]

/-! ## What the paths of a run stand for -/

/-- The path `q` that a run takes for the configured path `p` does not lead where `p` leads in the
folder: if the folder is the working folder, when the path is empty, and if it is one above, when
the path starts with a dot and ends with a slash or a dot, but does not lead to a folder. -/
def Strays (w : Workspace) (folder p q : Path) : Prop :=
  folder = w.path ∧ p.text = "" ∨
    folder ≠ w.path ∧ p.components.head? = some .current ∧ p.moves.getLast? = some .stay ∧
      ∃ l, w.locate q = .ok l ∧ w.tree.node? l ≠ some .folder

/-- The path `q` is what a run takes for the path `p` of a configuration in the folder: it names the
same location, and leads to it as `p` does if it does not stray. -/
structure StandsFor (w : Workspace) (folder p q : Path) : Prop where
  target : w.target q = w.target (folder.join p)
  locate_iff : w.locate q = w.locate (folder.join p) ↔ ¬ Strays w folder p q

theorem join_of_isAbsolute (folder : Path) (hp : p.isAbsolute = true) : folder.join p = p :=
  if_pos hp

theorem not_strays_of_isAbsolute {q : Path} (hp : p.isAbsolute = true) :
    ¬ Strays w folder p q := by
  rintro (⟨-, htext⟩ | ⟨-, hdot, -⟩)
  · obtain ⟨text⟩ := p
    obtain rfl : text = "" := htext
    cases hp
  · obtain ⟨cs, hcs⟩ := Path.exists_components_of_isAbsolute hp
    rw [hcs] at hdot
    cases hdot

/-- An absolute path is not relative to anything. -/
theorem standsFor_of_isAbsolute (w : Workspace) (folder : Path) (hp : p.isAbsolute = true) :
    StandsFor w folder p p := by
  have hjoin := join_of_isAbsolute folder hp
  exact ⟨by rw [hjoin], iff_of_true (by rw [hjoin]) (not_strays_of_isAbsolute hp)⟩

theorem standsFor_here (hw : w.WellFormed) (p : Path) : StandsFor w w.path p p := by
  cases hp : p.isAbsolute with
  | true => exact standsFor_of_isAbsolute w w.path hp
  | false =>
    refine ⟨(Workspace.target_path_join hw hp).symm, ?_⟩
    by_cases hempty : p.text = ""
    · -- an empty path leads nowhere, and behind the working folder into it
      have hjoin : w.locate (w.path.join p) = .ok w.here := by
        obtain ⟨text⟩ := p
        obtain rfl : text = "" := hempty
        rw [Workspace.locate_join_relative (Workspace.locate_path hw) hp]
        exact FileTree.follow_stay (List.forall_mem_singleton.2 rfl) hw.here
      have hnone : w.locate p = .error .notFound := if_pos hempty
      rw [hjoin, hnone]
      exact iff_of_false nofun (not_not_intro (.inl ⟨rfl, hempty⟩))
    · refine iff_of_true (Workspace.locate_path_join hw hp hempty).symm ?_
      rintro (⟨-, htext⟩ | ⟨hne, -⟩)
      · exact hempty htext
      · exact hne rfl

theorem standsFor_above (hw : w.WellFormed) (hfolder : folder ∈ w.path.ancestors)
    (hne : folder ≠ w.path) (hbase : c.base = folder) (habs : folder.isAbsolute = true) (p : Path) :
    StandsFor w folder p (c.resolve p) := by
  subst hbase
  cases hp : p.isAbsolute with
  | true =>
    rw [c.resolve_of_isAbsolute hp]
    exact standsFor_of_isAbsolute w c.base hp
  | false =>
    have hroot : ¬ c.base.components.all (· = .current) = true := by
      obtain ⟨cs, hcs⟩ := Path.exists_components_of_isAbsolute habs
      rw [hcs]
      exact Bool.false_ne_true
    obtain ⟨hrest, hparts⟩ := Path.parts_getD_below_dot hp
    have hresolve := InUse.resolve_of_not_current hroot hp
    refine ⟨by rw [hresolve, Workspace.target_eq_of_parts w c.base hp hrest hparts], ?_⟩
    obtain ⟨l, hl, hf⟩ := Workspace.exists_locate_of_mem_ancestors hw hfolder
    have hstrays : Strays w c.base p (c.resolve p) ↔ p.components.head? = some .current ∧
        p.moves.getLast? = some .stay ∧
          ∃ l, w.locate (c.resolve p) = .ok l ∧ w.tree.node? l ≠ some .folder := by
      simp [Strays, hne]
    rw [hstrays, hresolve, Workspace.locate_join_relative hl hrest,
      Workspace.locate_join_relative hl hp]
    by_cases hdot : p.components.head? = some .current
    · obtain ⟨q, hq, -⟩ := Path.exists_below_dot hdot
      rw [and_iff_right hdot, hq, Option.getD_some]
      exact Path.follow_below_dot_iff hdot hq hf
    · rw [Path.below?_dot_eq_none hdot]
      exact iff_of_true rfl fun h => hdot h.1

/-- What a run takes for the paths of the configuration of a folder. -/
theorem exists_configuration (hw : w.WellFormed) (h : IsNearest w w.path i folder)
    (hload : load w w.path = .ok c) :
    ∃ c', Settings.configuration w = .ok c' ∧ c'.config = c.config ∧
      ∀ p, StandsFor w folder p (c'.resolve p) := by
  cases i with
  | zero =>
    obtain ⟨rfl, -, hconfiguration⟩ := configuration_of_here hw h hload
    have hcurrent : (⟨"./"⟩ : Path).components.all (· = .current) = true := by decide
    refine ⟨_, hconfiguration, rfl, fun p => ?_⟩
    rw [InUse.resolve_of_current hcurrent]
    exact standsFor_here hw p
  | succ i =>
    obtain ⟨hne, habs, hbase, hconfiguration⟩ := configuration_of_above h hload
    have hfolder : folder ∈ w.path.ancestors :=
      List.mem_of_getElem? ((w.path.getElem?_ancestors (i + 1)).trans h.above)
    exact ⟨c, hconfiguration, rfl, standsFor_above hw hfolder hne hbase habs⟩

end Config

namespace Session

open CommandLine (CommonOptions)

variable {w : Workspace} {o : CommonOptions} {s : Settings}

theorem settings_eq_ok_iff :
    settings w o = .ok s ↔ ∃ c, Settings.configuration w = .ok c ∧ .ofConfiguration c o = s := by
  unfold settings
  cases Settings.configuration w with
  | error f => exact ⟨nofun, nofun⟩
  | ok c => simp [Except.map]

/-- **Configured paths.** An absolute path stays as it is, and a relative one goes on behind the
base. So what a run takes for the paths of a configuration stands for them in the folder of the file
that configures them, and the paths of the command line are taken as they are, from the working
folder. -/
theorem configured_paths (w : Workspace) (hw : w.WellFormed) (o : CommonOptions) :
    (∀ (c : Config.InUse) (p : Path), (p.isAbsolute = true → c.resolve p = p) ∧
      (p.isAbsolute = false → (c.resolve p).parts = c.base.parts ++ p.parts)) ∧
    (∀ (i : Nat) (folder : Path) (c : Config.InUse),
      Config.IsNearest w w.path i folder → Config.load w w.path = .ok c →
        Config.IsOfFolder w folder c ∧ ∃ s, settings w o = .ok s ∧
          (o.messagesRoot = none →
            Config.StandsFor w folder ⟨c.config.messagesRoot⟩ s.messagesRoot) ∧
          (o.output = none → Config.StandsFor w folder ⟨c.config.output⟩ s.output)) ∧
    (∀ s, settings w o = .ok s → (∀ p, o.messagesRoot = some p → s.messagesRoot = p) ∧
      ∀ p, o.output = some p → s.output = p) ∧
    ∀ p : Path, p.isAbsolute = false → w.target p = w.target (w.path.join p) ∧
      (p.text ≠ "" → w.locate p = w.locate (w.path.join p)) := by
  refine ⟨fun c p => ⟨c.resolve_of_isAbsolute, c.parts_resolve⟩, ?_, ?_, ?_⟩
  · intro i folder c h hload
    obtain ⟨c', hc', hconfig, hpaths⟩ := Config.exists_configuration hw h hload
    refine ⟨(h.load_eq_ok hload).1, _, settings_eq_ok_iff.2 ⟨c', hc', rfl⟩, ?_, ?_⟩
    · intro ho
      rw [Settings.ofConfiguration, ho, Option.getD_none, hconfig]
      exact hpaths _
    · intro ho
      rw [Settings.ofConfiguration, ho, Option.getD_none, hconfig]
      exact hpaths _
  · intro s hs
    obtain ⟨c, -, rfl⟩ := settings_eq_ok_iff.1 hs
    refine ⟨fun p hp => ?_, fun p hp => ?_⟩
    · rw [Settings.ofConfiguration, hp, Option.getD_some]
    · rw [Settings.ofConfiguration, hp, Option.getD_some]
  · intro p hp
    exact ⟨(Workspace.target_path_join hw hp).symm,
      fun hne => (Workspace.locate_path_join hw hp hne).symm⟩

/-- A configuration with an empty path in the working folder. -/
def emptyRoot : Workspace where
  here := []
  tree.nodes := .ofList [([".dictgenrc.json"], .file "\x7b\"messagesRoot\": \"\"\x7d".toUTF8)]

/-- A configuration with a path that ends with a slash, above the working folder. -/
def slashedOutput : Workspace where
  here := ["app"]
  tree.nodes := .ofList [
    ([".dictgenrc.json"], .file "\x7b\"output\": \"./gen/\"\x7d".toUTF8),
    (["app"], .folder)]

theorem isNearest_emptyRoot : Config.IsNearest emptyRoot emptyRoot.path 0 ⟨"/"⟩ where
  above := by decide
  config := by decide
  before := nofun

theorem isNearest_slashedOutput :
    Config.IsNearest slashedOutput slashedOutput.path 1 ⟨"/"⟩ where
  above := by decide
  config := by decide
  before := by
    intro j hj d hd
    obtain rfl : j = 0 := by omega
    obtain rfl : slashedOutput.path = d := Option.some.inj hd
    decide

/-- The empty path leads nowhere, though behind the folder of its configuration it leads into it.
And a path that is to be that of a folder leads to a file to be written, once the slash at its end
is gone. -/
theorem configured_paths_stray :
    (emptyRoot.WellFormed ∧ Config.IsNearest emptyRoot emptyRoot.path 0 ⟨"/"⟩ ∧
      ∃ c s, Config.load emptyRoot emptyRoot.path = .ok c ∧ settings emptyRoot {} = .ok s ∧
        emptyRoot.locate s.messagesRoot = .error .notFound ∧
          emptyRoot.locate (.join ⟨"/"⟩ ⟨c.config.messagesRoot⟩) = .ok emptyRoot.here) ∧
      slashedOutput.WellFormed ∧ Config.IsNearest slashedOutput slashedOutput.path 1 ⟨"/"⟩ ∧
        ∃ c s, Config.load slashedOutput slashedOutput.path = .ok c ∧
          settings slashedOutput {} = .ok s ∧ slashedOutput.locate s.output = .ok ["gen"] ∧
            slashedOutput.locate (.join ⟨"/"⟩ ⟨c.config.output⟩) = .error .notFound := by
  constructor
  · refine ⟨by decide, isNearest_emptyRoot, ⟨{ messagesRoot := "" }, true, ⟨"/"⟩⟩,
      ⟨⟨""⟩, "en", ⟨"./locales.ts"⟩, {}⟩, Traversal.eq_ok_of_toOption ?_,
      Traversal.eq_ok_of_toOption ?_, ?_⟩
    all_goals decide +kernel
  · refine ⟨by decide, isNearest_slashedOutput, ⟨{ output := "./gen/" }, true, ⟨"/"⟩⟩,
      ⟨⟨"/messages"⟩, "en", ⟨"/gen"⟩, {}⟩, Traversal.eq_ok_of_toOption ?_,
      Traversal.eq_ok_of_toOption ?_, ?_⟩
    all_goals decide +kernel

/-- Below the folder of the configuration the output is the one that is meant there, and the
messages are where the command line says. -/
theorem configured_paths_nestedProject :
    Config.nestedProject.WellFormed ∧
      ∃ s, settings Config.nestedProject { messagesRoot := some ⟨"i18n"⟩ } = .ok s ∧
        s.messagesRoot = ⟨"i18n"⟩ ∧
          Config.nestedProject.locate (.join ⟨"/p/app"⟩ s.messagesRoot) =
            .ok ["p", "app", "i18n"] ∧
          Config.nestedProject.locate s.output = .ok ["p", "locales.ts"] := by
  have hw : Config.nestedProject.WellFormed := by decide
  obtain ⟨-, hconfigured, hgiven, hrelative⟩ :=
    configured_paths Config.nestedProject hw { messagesRoot := some ⟨"i18n"⟩ }
  have hpath : Config.nestedProject.path = ⟨"/p/app"⟩ := by decide
  have hnearest := Config.isNearest_nestedProject
  have hload := Config.load_nestedProject
  rw [← hpath] at hnearest hload
  obtain ⟨-, s, hs, -, houtput⟩ := hconfigured 1 ⟨"/p"⟩ _ hnearest hload
  have hroot := (hgiven s hs).1 _ rfl
  refine ⟨hw, s, hs, hroot, ?_, ?_⟩
  · rw [hroot, ← hpath, ← (hrelative ⟨"i18n"⟩ rfl).2 (by decide)]
    decide
  · have hkept : ¬ Config.Strays Config.nestedProject ⟨"/p"⟩ ⟨"./locales.ts"⟩ s.output := by
      rintro (⟨-, hempty⟩ | ⟨-, -, hstay, -⟩)
      · exact absurd hempty (by decide)
      · exact absurd hstay (by decide)
    rw [(houtput rfl).locate_iff.2 hkept]
    decide

end Session

end Phrasebook
