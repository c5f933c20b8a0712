import Phrasebook.Proofs.Project.Output
import Phrasebook.Session

/-!
# What a run comes to

A command that compiles takes its settings and compiles the project (`compiled`); if that fails, the
command fails and leaves everything as it is. Otherwise generating keeps, prints or writes the
module, and checking compares it with the file that is there. The transcript is that of the result,
and its exit status is 2 exactly if the command has failed.
-/

namespace Phrasebook.Session

open CommandLine (Command CommonOptions)

variable {w w' : Workspace} {o : CommonOptions} {s : Settings} {c : CompiledProject} {f : Failure}
  {toStdout verbose color : Bool} {before : String} {r : CommandResult}
  {outcome : WriteOutcome}

/-! ## Compiling -/

/-- The settings of a command that compiles. -/
def settings (w : Workspace) (o : CommonOptions) : Except Failure Settings :=
  (Settings.configuration w).map fun c => .ofConfiguration c o

/-- The settings of a command that compiles, and what it compiles with them. -/
def compiled (w : Workspace) (o : CommonOptions) : Except Failure (Settings × CompiledProject) := do
  let s ← settings w o
  return (s, ← w.compileProject s)

theorem compiled_eq_ok_iff :
    compiled w o = .ok (s, c) ↔ settings w o = .ok s ∧ w.compileProject s = .ok c := by
  unfold compiled
  cases settings w o with
  | error f => exact ⟨nofun, nofun⟩
  | ok s' =>
    rw [Except.ok.injEq]
    constructor
    · intro h
      cases hc : w.compileProject s' with
      | error f =>
        simp only [bind, Except.bind, hc] at h
        cases h
      | ok c' =>
        simp only [bind, Except.bind, hc] at h
        cases h
        exact ⟨rfl, hc⟩
    · rintro ⟨rfl, hc⟩
      simp only [bind, Except.bind, hc]
      rfl

theorem compiled_eq_error_iff :
    compiled w o = .error f ↔
      settings w o = .error f ∨ ∃ s, settings w o = .ok s ∧ w.compileProject s = .error f := by
  unfold compiled
  cases settings w o with
  | error f' => simp [bind, Except.bind]
  | ok s => cases h : w.compileProject s <;> simp [bind, Except.bind, pure, Except.pure, h]

/-! ## Generating and checking -/

/-- What generating with some options comes to. -/
def generated (w : Workspace) (o : CommonOptions) (toStdout : Bool) :
    Workspace × Except Failure CommandResult :=
  match settings w o with
  | .error f => (w, .error f)
  | .ok s => w.generate s toStdout

/-- What checking with some options comes to. -/
def checked (w : Workspace) (o : CommonOptions) : Except Failure CommandResult :=
  settings w o >>= w.check

/-- The module has been generated, and this became of it. -/
def Generates (outcome : WriteOutcome) (r : Except Failure CommandResult) : Prop :=
  ∃ output stats ds, r = .ok ⟨.generated output outcome stats, ds⟩

theorem generated_of_error (h : compiled w o = .error f) :
    generated w o toStdout = (w, .error f) := by
  unfold generated
  rcases compiled_eq_error_iff.1 h with h | ⟨s, hs, h⟩
  · rw [h]
  · rw [hs]
    dsimp only [Workspace.generate]
    rw [h]

theorem checked_of_error (h : compiled w o = .error f) : checked w o = .error f := by
  unfold checked
  rcases compiled_eq_error_iff.1 h with h | ⟨s, hs, h⟩
  · rw [h]
    rfl
  · rw [hs]
    show w.compileProject s >>= _ = _
    rw [h]
    rfl

/-- The result of generating. -/
def resultOf (s : Settings) (c : CompiledProject) (outcome : WriteOutcome) : CommandResult :=
  ⟨.generated s.output outcome c.stats, Diagnostic.sort c.diagnostics⟩

theorem generates_resultOf_iff {outcome' : WriteOutcome} :
    Generates outcome (.ok (resultOf s c outcome')) ↔ outcome = outcome' := by
  constructor
  · rintro ⟨_, _, _, h⟩
    obtain ⟨-, h, -⟩ := Summary.generated.inj (congrArg CommandResult.summary (Except.ok.inj h))
    exact h.symm
  · rintro rfl
    exact ⟨_, _, _, rfl⟩

theorem not_generates_error : ¬ Generates outcome (.error f) := by
  rintro ⟨_, _, _, h⟩
  cases h

theorem generated_stdout (h : compiled w o = .ok (s, c)) :
    generated w o true = (w, .ok (resultOf s c (.printed c.text))) := by
  obtain ⟨hs, hc⟩ := compiled_eq_ok_iff.1 h
  unfold generated Workspace.generate
  rw [hs]
  dsimp only
  rw [hc]
  rfl

theorem generated_of_holdsText (h : compiled w o = .ok (s, c))
    (ht : w.holdsText s.output c.text = true) :
    generated w o false = (w, .ok (resultOf s c .unchanged)) := by
  obtain ⟨hs, hc⟩ := compiled_eq_ok_iff.1 h
  unfold generated Workspace.generate
  rw [hs]
  dsimp only
  rw [hc]
  dsimp only
  rw [ht]
  rfl

theorem generated_of_not_holdsText (h : compiled w o = .ok (s, c))
    (ht : w.holdsText s.output c.text = false) :
    generated w o false = ((w.writeOutput s.output c.text).1,
      (w.writeOutput s.output c.text).2.map fun _ => resultOf s c .written) := by
  obtain ⟨hs, hc⟩ := compiled_eq_ok_iff.1 h
  unfold generated Workspace.generate
  rw [hs]
  dsimp only
  rw [hc]
  dsimp only
  rw [ht]
  rcases w.writeOutput s.output c.text with ⟨w', _ | _⟩ <;> rfl

/-- **What generating changes**: nothing, or what writing the module changes. -/
theorem generated_cases (h : compiled w o = .ok (s, c)) :
    w.holdsText s.output c.text = true ∧
        generated w o false = (w, .ok (resultOf s c .unchanged)) ∨
      w.holdsText s.output c.text = false ∧ (w.writeOutput s.output c.text).2 = .ok () ∧
        generated w o false =
          ((w.writeOutput s.output c.text).1, .ok (resultOf s c .written)) ∨
      w.holdsText s.output c.text = false ∧ ∃ f, (w.writeOutput s.output c.text).2 = .error f ∧
        generated w o false = ((w.writeOutput s.output c.text).1, .error f) := by
  cases ht : w.holdsText s.output c.text with
  | true => exact .inl ⟨rfl, generated_of_holdsText h ht⟩
  | false =>
    rw [generated_of_not_holdsText h ht]
    rcases w.writeOutput s.output c.text with ⟨w', f | _⟩
    · exact .inr (.inr ⟨rfl, f, rfl, rfl⟩)
    · exact .inr (.inl ⟨rfl, rfl, rfl⟩)

theorem checked_of_settings (h : settings w o = .ok s) : checked w o = w.check s := by
  unfold checked
  rw [h]
  rfl

theorem check_eq (h : w.compileProject s = .ok c) :
    w.check s =
      match w.readText s.output with
      | .ok text =>
        .ok ⟨.checked s.output (if text = c.text then .upToDate else .stale) c.stats,
          Diagnostic.sort c.diagnostics⟩
      | .error .notFound =>
        .ok ⟨.checked s.output .missing c.stats, Diagnostic.sort c.diagnostics⟩
      | .error e => .error (.readOutput s.output e) := by
  rw [Workspace.check, h]
  dsimp only [bind, Except.bind]
  cases w.readText s.output with
  | ok text => rfl
  | error e => cases e <;> rfl

theorem checked_eq (h : compiled w o = .ok (s, c)) :
    checked w o =
      match w.readText s.output with
      | .ok text =>
        .ok ⟨.checked s.output (if text = c.text then .upToDate else .stale) c.stats,
          Diagnostic.sort c.diagnostics⟩
      | .error .notFound =>
        .ok ⟨.checked s.output .missing c.stats, Diagnostic.sort c.diagnostics⟩
      | .error e => .error (.readOutput s.output e) := by
  obtain ⟨hs, hc⟩ := compiled_eq_ok_iff.1 h
  rw [checked_of_settings hs, check_eq hc]

/-! ## Transcripts -/

/-- What is told before the report. -/
def note (w : Workspace) (o : CommonOptions) : String :=
  match Settings.configuration w with
  | .error _ => ""
  | .ok c => configurationNote o.verbose c

theorem run_generate : run w (.generate o toStdout) color =
    ((generated w o toStdout).1,
      transcript o.verbose color (note w o) (generated w o toStdout).2) := by
  unfold run withSettings generated settings note
  cases Settings.configuration w <;> rfl

theorem run_check : run w (.check o) color =
    (w, transcript o.verbose color (note w o) (checked w o)) := by
  unfold run withSettings checked settings note
  cases Settings.configuration w <;> rfl

theorem exit_of_ok : (transcript verbose color before (.ok r)).exit = exitStatus r.summary := rfl

theorem exit_transcript_eq_two_iff {r : Except Failure CommandResult} :
    (transcript verbose color before r).exit = 2 ↔ ∃ f, r = .error f := by
  cases r with
  | error f => exact ⟨fun _ => ⟨f, rfl⟩, fun _ => rfl⟩
  | ok r =>
    refine ⟨fun h => ?_, nofun⟩
    rw [exit_of_ok] at h
    unfold exitStatus at h
    split at h <;> cases h

/-! ## Runs of programs -/

variable {args : List String} {source : Option String}

theorem start_of_error {e : CommandLine.UsageError}
    (h : CommandLine.parse args source = .error e) :
    start w args source color = (w, .error e) := by
  unfold start
  rw [h]

theorem start_of_ok {command : Command} (h : CommandLine.parse args source = .ok command) :
    start w args source color = ((run w command color).1, .ok (run w command color).2) := by
  unfold start
  rw [h]

end Phrasebook.Session
