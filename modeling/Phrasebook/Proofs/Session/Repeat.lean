import Phrasebook.Proofs.Project.Inputs
import Phrasebook.Proofs.Session.Agreement

/-!
# Generating again

After the module has been generated, the output holds what would have been printed, a check with the
same arguments passes, and generating again changes nothing (`generate_again`). This needs that the
output is not one of the files that a run reads.
-/

namespace Phrasebook

namespace Session

open CommandLine (Command CommonOptions)

variable {w w' : Workspace} {o : CommonOptions} {s : Settings} {c : CompiledProject}
  {args : List String} {source : Option String} {color : Bool} {t : Transcript}

/-- The settings are those of a module that no run reads when it generates it. -/
structure OutputApart (w : Workspace) (s : Settings) : Prop where
  config : .name configFileName ∉ s.output.components
  repository : .name ".git" ∉ s.output.components
  locales : LocaleFolder.Avoids w s.output s.messagesRoot

/-- What is compiled stays the same when the module has been written. -/
theorem compiled_of_addsFile {content : ByteArray} (hw : w.WellFormed) (hw' : w'.WellFormed)
    (h : w.AddsFile s.output content w') (hapart : OutputApart w s)
    (hc : compiled w o = .ok (s, c)) : compiled w' o = .ok (s, c) := by
  obtain ⟨hs, hp⟩ := compiled_eq_ok_iff.1 hc
  rw [compiled_eq_ok_iff]
  refine ⟨?_, Workspace.compileProject_eq hw hw' h hapart.locales hp⟩
  rw [settings, Settings.configuration_eq hw h hapart.config hapart.repository]
  exact hs

/-- Once generated, the module is what would be compiled again. -/
theorem compiled_and_read_of_generated (hw : w.WellFormed) (hc : compiled w o = .ok (s, c))
    (hapart : OutputApart w s) (hok : ∀ f, (generated w o false).2 ≠ .error f) :
    compiled (generated w o false).1 o = .ok (s, c) ∧
      (generated w o false).1.read s.output = .ok c.text.toUTF8 := by
  rcases generated_cases hc with ⟨hholds, hg⟩ | ⟨-, hwritten, hg⟩ | ⟨-, f, -, hg⟩
  · rw [hg]
    exact ⟨hc, Workspace.readText_eq_ok_iff.1 (Workspace.holdsText_iff.1 hholds)⟩
  · rw [hg]
    rcases Workspace.adds_of_writeOutput w s.output c.text with ⟨-, hadds⟩ | ⟨f, herror, -⟩
    · refine ⟨compiled_of_addsFile hw hw.writeOutput hadds hapart hc, ?_⟩
      exact Workspace.read_eq_ok_iff.2 ⟨_, hadds.locate_eq, hadds.node?_target⟩
    · rw [herror] at hwritten
      cases hwritten
  · exact absurd (congrArg Prod.snd hg) (hok f)

/-- **Generating is idempotent, and a check agrees.** -/
theorem generate_again (hw : w.WellFormed)
    (hargs : CommandLine.parse ("generate" :: args) source = .ok (.generate o false))
    (hrun : start w ("generate" :: args) source color = (w', .ok t)) (hexit : t.exit = 0)
    (hs : settings w o = .ok s) (hapart : OutputApart w s) :
    (∃ printed, start w ("generate" :: "--stdout" :: args) source color = (w, .ok printed) ∧
      printed.exit = 0 ∧ w'.read s.output = .ok printed.stdout.toUTF8) ∧
    (∃ checked, start w' ("check" :: args) source color = (w', .ok checked) ∧
      checked.exit = 0) ∧
    ∃ again, start w' ("generate" :: args) source color = (w', .ok again) ∧ again.exit = 0 ∧
      again = transcript o.verbose color (note w' o) (generated w' o false).2 ∧
      Generates .unchanged (generated w' o false).2 := by
  rw [start_of_ok hargs, run_generate, Prod.mk.injEq, Except.ok.injEq] at hrun
  obtain ⟨hw', rfl⟩ := hrun
  have hok : ∀ f, (generated w o false).2 ≠ .error f := by
    intro f hf
    rw [hf] at hexit
    cases hexit
  cases hc : compiled w o with
  | error f => exact absurd (congrArg Prod.snd (generated_of_error hc)) (hok f)
  | ok sc =>
    obtain ⟨s', c⟩ := sc
    have hs' := (compiled_eq_ok_iff.1 hc).1
    rw [hs] at hs'
    obtain rfl := Except.ok.inj hs'
    obtain ⟨hc', hread⟩ := compiled_and_read_of_generated hw hc hapart hok
    rw [hw'] at hc' hread
    have htext := Workspace.readText_eq_ok_iff.2 hread
    have hprinted : start w ("generate" :: "--stdout" :: args) source color =
        (w, .ok (transcript o.verbose color (note w o)
          (.ok (resultOf s c (.printed c.text))))) := by
      rw [start_of_ok (CommandLine.parse_stdout hargs), run_generate, generated_stdout hc]
    have hchecked : start w' ("check" :: args) source color =
        (w', .ok (transcript o.verbose color (note w' o) (checked w' o))) := by
      rw [start_of_ok (CommandLine.parse_check_iff.2 hargs), run_check]
    have hagain : start w' ("generate" :: args) source color =
        (w', .ok (transcript o.verbose color (note w' o) (generated w' o false).2)) := by
      rw [start_of_ok hargs, run_generate,
        generated_of_holdsText hc' (Workspace.holdsText_iff.2 htext)]
    have hgenerated := (generates_unchanged_iff hc').2 htext
    exact ⟨⟨_, hprinted, rfl, hread⟩, ⟨_, hchecked, (exit_checked_eq_zero_iff hc').2 htext⟩,
      ⟨_, hagain, exit_eq_zero_of_generates hgenerated, rfl, hgenerated⟩⟩

theorem outputApart_smallProject : OutputApart smallProject smallSettings where
  config := by decide
  repository := by decide
  locales := by
    have houtput : smallProject.target smallSettings.output = ["locales.ts"] := by decide
    have hroot : smallProject.target smallSettings.messagesRoot = ["messages"] := by decide
    unfold LocaleFolder.Avoids
    rw [houtput, hroot]
    intro name h
    simp at h

/-- The small project is generated once. -/
theorem generate_again_smallProject :
    smallProject.WellFormed ∧ CommandLine.parse ["generate"] none = .ok (.generate {} false) ∧
      settings smallProject {} = .ok smallSettings ∧ OutputApart smallProject smallSettings ∧
      ∃ w' t, start smallProject ["generate"] none false = (w', .ok t) ∧ t.exit = 0 ∧
        (∃ checked, start w' ["check"] none false = (w', .ok checked) ∧ checked.exit = 0) ∧
        Generates .unchanged (generated w' {} false).2 := by
  have hargs : CommandLine.parse ["generate"] none = .ok (.generate {} false) := rfl
  have hexit : exit? smallProject ["generate"] = some 0 := by decide +kernel
  have hrun : start smallProject ["generate"] none false = _ := start_of_ok hargs
  rw [exit?, hrun] at hexit
  obtain ⟨-, hchecked, _, -, -, -, hgenerated⟩ := generate_again wellFormed_smallProject hargs hrun
    (Option.some.inj hexit) settings_smallProject outputApart_smallProject
  exact ⟨wellFormed_smallProject, hargs, settings_smallProject, outputApart_smallProject, _, _, hrun,
    Option.some.inj hexit, hchecked, hgenerated⟩

end Session

end Phrasebook
