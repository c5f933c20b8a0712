import Phrasebook.Proofs.CommandLine.Verbose
import Phrasebook.Proofs.Report.Text
import Phrasebook.Proofs.Session.Transparent

/-!
# Runs that tell more

A run that is asked to tell more does the same and ends in the same way: the files, the exit status
and the standard output are those of the run that is not asked to, and both report the same result
(`run_withVerbose`). What the reports of one result differ in is a note about the configuration, the
findings that are notes, and the number of fallbacks (`start_verbose`).
-/

namespace Phrasebook.Session

open CommandLine (Command CommonOptions UsageError IsCompiling IsVerboseFlag)

variable {w : Workspace} {color : Bool} {name flag : String} {source : Option String}

/-- Two runs that end in the same way, of which the first tells more. -/
structure TellsMore (color : Bool) (told quiet : Workspace × Transcript) : Prop where
  tree_eq : told.1 = quiet.1
  exit_eq : told.2.exit = quiet.2.exit
  stdout_eq : told.2.stdout = quiet.2.stdout
  /-- Both report the same failure or the same result. -/
  stderr : ∃ note result, (note = "" ∨ note = defaultsNote) ∧
    told.2 = transcript true color note result ∧ quiet.2 = transcript false color "" result

theorem tellsMore_of_result {w : Workspace} {note : String}
    (hnote : note = "" ∨ note = defaultsNote) (result : Except Failure CommandResult) :
    TellsMore color (w, transcript true color note result)
      (w, transcript false color "" result) := by
  have hvisible : ((transcript true color note result).exit,
        (transcript true color note result).stdout) =
      ((transcript false color "" result).exit, (transcript false color "" result).stdout) :=
    (visible_transcript result).trans (visible_transcript result).symm
  exact ⟨rfl, congrArg Prod.fst hvisible, congrArg Prod.snd hvisible, note, result, hnote, rfl, rfl⟩

theorem note_cases (w : Workspace) (o : CommonOptions) :
    (note w o = "" ∨ note w o = defaultsNote) ∧ (o.verbose = false → note w o = "") := by
  unfold note
  cases Settings.configuration w with
  | error f => exact ⟨.inl rfl, fun _ => rfl⟩
  | ok c =>
    dsimp only [configurationNote]
    refine ⟨?_, fun h => by rw [h]; rfl⟩
    split
    · exact .inr rfl
    · exact .inl rfl

/-- **What a command does is the same however much is told of it.** -/
theorem run_withVerbose {command : Command} (h : command.IsQuiet) :
    TellsMore color (run w (command.withVerbose true) color) (run w command color) := by
  cases command with
  | generate o toStdout =>
    have hquiet : o.verbose = false := h
    obtain ⟨hnote, -⟩ := note_cases w { o with verbose := true }
    show TellsMore color (run w (.generate { o with verbose := true } toStdout) color) _
    rw [run_generate, run_generate, hquiet, (note_cases w o).2 hquiet]
    -- Nothing that is generated looks at the option.
    exact tellsMore_of_result hnote (generated w o toStdout).2
  | check o =>
    have hquiet : o.verbose = false := h
    obtain ⟨hnote, -⟩ := note_cases w { o with verbose := true }
    show TellsMore color (run w (.check { o with verbose := true }) color) _
    rw [run_check, run_check, hquiet, (note_cases w o).2 hquiet]
    exact tellsMore_of_result hnote (checked w o)
  | init => exact h.elim
  | overview => exact h.elim

/-- **Telling more changes only what is told.** From wherever the flag is taken away in a command
line that is accepted, the run ends in the same way. In front of the other arguments the flag leaves
refused ones refused, and accepted ones accepted unless they ask for more to be told already. Of
every list of findings, the report in brief shows what the report in full shows about warnings, and
the number of fallbacks is told in brief only, and only if there are any. So it is with the lines of
a report and with the text that is printed, and what is told of a failure is the same. -/
theorem start_verbose (w : Workspace) (source : Option String) (color : Bool)
    (hname : IsCompiling name) (hflag : IsVerboseFlag flag) :
    (∀ before args w' t, start w (name :: (before ++ flag :: args)) source color = (w', .ok t) →
      ∃ quiet, start w (name :: (before ++ args)) source color = (quiet.1, .ok quiet.2) ∧
        TellsMore color (w', t) quiet) ∧
    (∀ args,
      (∃ told quiet, start w (name :: flag :: args) source color = (told.1, .ok told.2) ∧
        start w (name :: args) source color = (quiet.1, .ok quiet.2) ∧
        TellsMore color told quiet) ∨
      (∃ e, start w (name :: flag :: args) source color = (w, .error e) ∧
        start w (name :: args) source color = (w, .error e)) ∨
      (∀ quiet, CommandLine.parse (name :: args) source = .ok quiet → ¬ quiet.IsQuiet) ∧
        start w (name :: flag :: args) source color = (w, .error .argumentConflict)) ∧
    (∀ ds, Report.BriefReport ds (Report.findingLines true ds) (Report.findingLines false ds)) ∧
    (∀ r, ∃ last : Report.Line, ∀ verbose, Report.resultLines verbose r =
      Report.findingLines verbose r.diagnostics ++
        Report.fallbackLines verbose (Report.fallbackCount r.summary) ++ [last]) ∧
    (∀ verbose n, Report.fallbackLines verbose n ≠ [] ↔ verbose = false ∧ 0 < n) ∧
    (∀ ds, Report.BriefText color ds (Report.render color (Report.findingLines true ds))
      (Report.render color (Report.findingLines false ds))) ∧
    (∀ r, ∃ last : Report.Line, ∀ verbose before,
      (transcript verbose color before (.ok r)).stderr =
        before ++ (Report.render color (Report.findingLines verbose r.diagnostics) ++
          (if verbose then "" else Report.fallbackText color (Report.fallbackCount r.summary)) ++
          Report.render color [last])) ∧
    ∀ f, ∃ text, ∀ verbose before,
      (transcript verbose color before (.error f)).stderr = before ++ text := by
  refine ⟨fun before args w' t h => ?_, fun args => ?_, Report.briefReport,
    Report.exists_resultLines_eq, fun _ _ => Report.fallbackLines_ne_nil_iff,
    Report.briefText color, fun r => ?_, fun f => ⟨_, fun _ _ => rfl⟩⟩
  · cases hparse : CommandLine.parse (name :: (before ++ flag :: args)) source with
    | error e =>
      rw [start_of_error hparse] at h
      cases h
    | ok command =>
      obtain ⟨quiet, hquiet, hisQuiet, rfl⟩ :=
        CommandLine.parse_of_parse_verbose hname hflag hparse
      rw [start_of_ok hparse] at h
      cases h
      exact ⟨run w quiet color, start_of_ok hquiet, run_withVerbose hisQuiet⟩
  · rcases @CommandLine.parse_verbose name flag args source hname hflag with
      ⟨quiet, hquiet, hisQuiet, htold⟩ | ⟨e, hquiet, htold⟩ | ⟨htwice, htold⟩
    · exact .inl ⟨_, _, start_of_ok htold, start_of_ok hquiet, run_withVerbose hisQuiet⟩
    · exact .inr (.inl ⟨e, start_of_error htold, start_of_error hquiet⟩)
    · exact .inr (.inr ⟨htwice, start_of_error htold⟩)
  · obtain ⟨last, hlast⟩ := Report.exists_render_resultLines_eq color r
    exact ⟨last, fun verbose before => congrArg (before ++ ·) (hlast verbose)⟩

/-- Checking the small project finds its module out of date, whether more is told or not. -/
theorem start_verbose_smallProject :
    IsCompiling "check" ∧ IsVerboseFlag "-v" ∧
      ∃ told quiet,
        start smallProject ["check", "--source-locale", "en", "-v"] none false =
          (told.1, .ok told.2) ∧
        start smallProject ["check", "--source-locale", "en"] none false = (quiet.1, .ok quiet.2) ∧
        TellsMore false told quiet ∧ quiet.2.exit = 1 := by
  have hname : IsCompiling "check" := .inr rfl
  have hflag : IsVerboseFlag "-v" := .inl rfl
  have hexit : exit? smallProject ["check", "--source-locale", "en", "-v"] = some 1 := by
    decide +kernel
  cases htold : start smallProject ["check", "--source-locale", "en", "-v"] none false with
  | mk w' result =>
    rw [exit?, htold] at hexit
    cases result with
    | error e => cases hexit
    | ok t =>
      obtain ⟨hany, -⟩ := start_verbose smallProject none false hname hflag
      obtain ⟨quiet, hquiet, htells⟩ := hany ["--source-locale", "en"] [] w' t htold
      refine ⟨hname, hflag, (w', t), quiet, rfl, hquiet, htells, ?_⟩
      rw [← htells.exit_eq]
      exact Option.some.inj hexit

end Phrasebook.Session
