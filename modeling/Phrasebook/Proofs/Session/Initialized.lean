import Phrasebook.Proofs.Config.Written
import Phrasebook.Proofs.Path.Parents
import Phrasebook.Proofs.Project.AgreeBut
import Phrasebook.Proofs.Project.Inputs
import Phrasebook.Proofs.Session.Frame

/-!
# Initialized projects

Initializing puts a file where there was nothing (`agreeBut_initialized`). The configuration that it
holds is that of the defaults, with the same folder to start from (`load_initialized`), and what is
compiled stays the same, unless the locale files are in the working folder itself
(`compileProject_initialized`).
-/

namespace Phrasebook

open FileTree Move

namespace Workspace

variable {w : Workspace} {p : Path}

/-! ## The configuration file -/

/-- The workspace with a configuration file of the defaults in its working folder. -/
def initialized (w : Workspace) : Workspace :=
  { w with tree := w.tree.put w.configLocation (.file (Config.render {}).toUTF8) }

theorem isName_configFileName : IsName configFileName := by decide

theorem configLocation_ne_nil (w : Workspace) : w.configLocation ≠ [] :=
  List.append_ne_nil_of_right_ne_nil _ (List.cons_ne_nil _ _)

theorem locate_configFileName (h : w.WellFormed) :
    w.locate ⟨configFileName⟩ = .ok w.configLocation := by
  have hmoves : (⟨configFileName⟩ : Path).moves = [.down configFileName] := by decide +kernel
  rw [locate_eq (by decide), hmoves]
  exact follow_cons_folder h.here

/-- No configuration file is found only if there is none in the working folder. -/
theorem node?_configLocation_of_find? (h : w.WellFormed) (hnone : Config.find? w w.path = none) :
    w.tree.node? w.configLocation = none := by
  have hlocate := locate_join (locate_path h) h.here isName_configFileName
  rw [Config.find?, Path.ancestors, Config.findIn] at hnone
  split at hnone
  · cases hnone
  · rename_i hexists
    rw [pathExists, node?, hlocate] at hexists
    exact Option.not_isSome_iff_eq_none.1 hexists

section Initialized

variable (h : w.WellFormed) (hnone : w.tree.node? w.configLocation = none)

include h hnone

theorem init_eq : w.init = (w.initialized, .ok ⟨.initialized ⟨configFileName⟩, []⟩) := by
  have hlocate := locate_configFileName h
  have hexists : w.pathExists ⟨configFileName⟩ = false := by
    rw [pathExists, node?, hlocate]
    dsimp only
    rw [hnone]
    rfl
  have hwrite : w.write ⟨configFileName⟩ (Config.render {}).toUTF8 = .ok w.initialized :=
    write_eq_ok_iff.2 ⟨by decide, _, hlocate, by simp [hnone], rfl⟩
  rw [init, hexists, if_neg Bool.false_ne_true, hwrite]

theorem wellFormed_initialized : w.initialized.WellFormed :=
  h.put (locate_configFileName h) (by rw [hnone]; nofun)

theorem addsFile_initialized :
    w.AddsFile ⟨configFileName⟩ (Config.render {}).toUTF8 w.initialized :=
  addsFile_put (.refl _ w) (locate_configFileName h) (by rw [hnone]; nofun)

/-- What leads to where the file is, leads to the file. -/
theorem locate_initialized (hp : w.locate p = .ok w.configLocation) :
    ∃ l, w.initialized.locate p = .ok l ∧
      w.initialized.tree.node? l = some (.file (Config.render {}).toUTF8) := by
  have hadds := addsFile_initialized h hnone
  refine ⟨_, locate_of_keepsFolders hadds.here_eq hadds.keepsFolders hp, ?_⟩
  exact (node?_put w.configLocation_ne_nil).trans (if_pos rfl)

theorem readText_initialized (hp : w.locate p = .ok w.configLocation) :
    w.initialized.readText p = .ok (Config.render {}) :=
  readText_eq_ok_iff.2 (read_eq_ok_iff.2 (locate_initialized h hnone hp))

omit h in
theorem readText_of_locate_configLocation (hp : w.locate p = .ok w.configLocation) :
    w.readText p = .error .notFound :=
  readText_eq_error_iff.2 (.inl (read_eq_notFound_iff.2 (.inr ⟨_, hp, hnone⟩)))

omit h in
theorem agreeBut_initialized : AgreeBut w.configLocation w w.initialized := by
  refine ⟨rfl, rfl, fun l hl => ?_, by rw [hnone]; nofun, ?_⟩
  · exact (node?_put w.configLocation_ne_nil).trans (if_neg hl)
  · rw [initialized, node?_put w.configLocation_ne_nil, if_pos rfl]
    nofun

end Initialized

end Workspace

/-! ## The configuration -/

theorem Config.load_initialized {w : Workspace} (h : w.WellFormed)
    (hnone : w.tree.node? w.configLocation = none) :
    load w.initialized w.path = .ok ⟨{}, true, w.path⟩ := by
  have hlocate :=
    Workspace.locate_join (Workspace.locate_path h) h.here Workspace.isName_configFileName
  have hexists : w.initialized.pathExists (w.path.join ⟨configFileName⟩) = true := by
    obtain ⟨l, hl, hn⟩ := Workspace.locate_initialized h hnone hlocate
    rw [Workspace.pathExists, Workspace.node?, hl]
    dsimp only
    rw [hn]
    rfl
  have hfind : find? w.initialized w.path = some (w.path.join ⟨configFileName⟩) := by
    rw [find?, Path.ancestors, findIn, if_pos hexists]
  have hparent := Workspace.parent?_join_path (h.tree.isName h.here) Workspace.isName_configFileName
  rw [load_of_readText hfind (Workspace.readText_initialized h hnone hlocate)
    (parse?_render {}) invalid?_default, hparent]
  rfl

/-! ## What is compiled -/

/-- Every module starts with a comment. -/
theorem Compilation.head?_render (c : Compilation) (o : ModuleOptions) :
    (c.render o).toList.head? = some '/' := by
  have hsections : ∃ rest, c.sections o = disclaimer :: rest := by
    unfold sections
    split
    · exact ⟨_, rfl⟩
    · exact ⟨_, rfl⟩
  obtain ⟨rest, hrest⟩ := hsections
  have hdisclaimer : ∀ more, (disclaimer.render ++ more).toList.head? = some '/' := by
    intro more
    rw [Section.render, disclaimer, List.map_cons, String.join_cons, String.append_assoc,
      String.append_assoc, String.toList_append]
    rfl
  rw [render, hrest, Section.renderAll, List.map_cons]
  cases rest.map Section.render with
  | nil =>
    rw [String.intercalate_singleton, ← String.append_empty (s := disclaimer.render)]
    exact hdisclaimer ""
  | cons t ts =>
    rw [String.intercalate_cons_cons, String.append_assoc]
    exact hdisclaimer _

/-- A module is not a configuration file. -/
theorem CompiledProject.text_ne_render {w : Workspace} {s : Settings} {c : CompiledProject}
    (h : w.compileProject s = .ok c) (config : Config) : config.render ≠ c.text := by
  have htext : ∃ (d : Compilation) (o : ModuleOptions), c.text = d.render o := by
    unfold Workspace.compileProject at h
    cases hload : LocaleFolder.load w s.messagesRoot s.sourceLocale with
    | error f =>
      rw [hload] at h
      cases h
    | ok loaded =>
      rw [hload] at h
      dsimp only [bind, Except.bind] at h
      split at h
      · cases h
      · cases h
        exact ⟨_, _, rfl⟩
  obtain ⟨d, o, htext⟩ := htext
  intro heq
  have hhead := config.head?_render
  rw [heq, htext, d.head?_render] at hhead
  cases hhead

namespace Workspace

variable {w : Workspace} {s : Settings}

/-- The locale files are the same, unless the working folder is the folder they are in. Where the
file stands itself there is no folder, before and after. -/
theorem compileProject_initialized (h : w.WellFormed)
    (hnone : w.tree.node? w.configLocation = none) (hroot : w.locate s.messagesRoot ≠ .ok w.here) :
    w.initialized.compileProject s = w.compileProject s ∨
      w.locate s.messagesRoot = .ok w.configLocation ∧
        (∃ f, w.compileProject s = .error f) ∧ ∃ f, w.initialized.compileProject s = .error f := by
  have hagree := agreeBut_initialized hnone
  by_cases hk : w.locate s.messagesRoot = .ok w.configLocation
  · -- there was nothing, and now there is a file
    have hfolder : w.isFolder s.messagesRoot = false := by
      rw [isFolder, node?, hk]
      exact decide_eq_false hagree.free_left
    have hfolder' : w.initialized.isFolder s.messagesRoot = false := by
      rw [isFolder, node?, hagree.locate_eq_ok_iff.2 hk]
      exact decide_eq_false hagree.free_right
    exact .inr ⟨hk, ⟨_, compileProject_of_load_error (LocaleFolder.load_of_not_folder hfolder)⟩,
      _, compileProject_of_load_error (LocaleFolder.load_of_not_folder hfolder')⟩
  · refine .inl (compileProject_of_load_eq ?_)
    have hnode := hagree.node?_path_eq hk
    cases hf : w.isFolder s.messagesRoot with
    | true =>
      obtain ⟨m, hm, hfolder⟩ := isFolder_iff.1 hf
      -- the file would have to be in this folder to be a locale file
      refine LocaleFolder.load_eq h (wellFormed_initialized h hnone)
        (addsFile_initialized h hnone) hm hfolder fun name heq _ => hroot ?_
      rw [(locate_eq_ok_iff.1 (locate_configFileName h)).2.2, (locate_eq_ok_iff.1 hm).2.2] at heq
      rw [hm, (List.append_inj' heq rfl).1]
    | false =>
      have hf' : w.initialized.isFolder s.messagesRoot = false := by
        rw [isFolder, hnode]
        exact hf
      rw [LocaleFolder.load_of_not_folder hf, LocaleFolder.load_of_not_folder hf', pathExists,
        pathExists, hnode]

end Workspace

end Phrasebook
