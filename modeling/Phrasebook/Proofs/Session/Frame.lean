import Phrasebook.Proofs.Session.Basic

/-!
# What runs leave as it is

A run changes files only by writing the module or a configuration file (`start_frame`): checking,
printing and telling about the commands change nothing, a failure changes no file, and writing the
module changes no other file and adds only folders around it. So every run keeps a tree well-formed
(`wellFormed_start`).
-/

namespace Phrasebook

open FileTree Move

namespace Workspace

variable {w w' : Workspace}

/-- Where the configuration file of the working folder is. -/
def configLocation (w : Workspace) : Location := w.here ++ [configFileName]

/-- **What initializing changes**: nothing, or there is a configuration file where nothing was. -/
theorem init_cases (w : Workspace) :
    (∃ f, w.init = (w, .error f)) ∨
      w.tree.node? w.configLocation = none ∧
        w.init =
          ({ w with tree := w.tree.put w.configLocation (.file (Config.render {}).toUTF8) },
            .ok ⟨.initialized ⟨configFileName⟩, []⟩) := by
  unfold init
  dsimp only
  cases he : w.pathExists ⟨configFileName⟩ with
  | true => exact .inl ⟨_, rfl⟩
  | false =>
    rw [if_neg Bool.false_ne_true]
    cases hw : w.write ⟨configFileName⟩ (Config.render {}).toUTF8 with
    | error e => exact .inl ⟨_, rfl⟩
    | ok w' =>
      obtain ⟨-, l, hl, -, rfl⟩ := write_eq_ok_iff.1 hw
      have htarget : w.configLocation = l := (locate_eq_ok_iff.1 hl).2.2
      subst htarget
      refine .inr ⟨?_, rfl⟩
      rw [pathExists, node?, hl] at he
      exact Option.not_isSome_iff_eq_none.1 (by rw [he]; nofun)

theorem WellFormed.init (h : w.WellFormed) : w.init.1.WellFormed := by
  rcases w.init_cases with ⟨f, hi⟩ | ⟨hnone, hi⟩ <;> rw [hi]
  · exact h
  · have hfree : w.tree.node? w.configLocation ≠ some .folder := by
      rw [hnone]
      nofun
    refine ⟨h.tree.put h.here (by decide) hfree, keepsFolders_put ?_ hfree _ h.here⟩
    exact List.append_ne_nil_of_right_ne_nil _ (List.cons_ne_nil _ _)

end Workspace

namespace Session

open CommandLine (Command CommonOptions)

variable {w w' : Workspace} {o : CommonOptions} {s : Settings} {color : Bool}

/-- What a failed run may change that was to write the module: no file, and nothing at all if there
was nothing to write. -/
structure FrameOfFailure (o : CommonOptions) (w w' : Workspace) : Prop where
  here_eq : w'.here = w.here
  raw_eq : w'.tree.raw = w.tree.raw
  files : ∀ l content,
    w'.tree.node? l = some (.file content) ↔ w.tree.node? l = some (.file content)
  before_writing : ∀ f, compiled w o = .error f → w' = w
  folders : ∀ s c, compiled w o = .ok (s, c) → w.AddsFolders s.output.around w'

/-- What writing the module may change: the file at the end of the path of the output, and folders
around it that were missing. -/
structure FrameOfSuccess (output : Path) (w w' : Workspace) : Prop where
  here_eq : w'.here = w.here
  raw_eq : w'.tree.raw = w.tree.raw
  node?_cases : ∀ l, w'.tree.node? l = w.tree.node? l ∨
    (w'.locate output = .ok l ∧ w.tree.node? l ≠ some .folder ∧
      ∃ content, w'.tree.node? l = some (.file content)) ∨
    (w.tree.node? l = none ∧ w'.tree.node? l = some .folder ∧
      ∃ folder ∈ output.ancestors.tail, w'.locate folder = .ok l)

/-- What a command may change, by its exit status. -/
def Frame (w w' : Workspace) (exit : Nat) : Command → Prop
  | .overview => w' = w
  | .check _ => w' = w
  | .generate _ true => w' = w
  | .generate o false =>
    exit = 2 ∧ FrameOfFailure o w w' ∨
      exit = 0 ∧ ∃ s c, compiled w o = .ok (s, c) ∧ FrameOfSuccess s.output w w'
  | .init =>
    exit = 2 ∧ w' = w ∨
      exit = 0 ∧ w.tree.node? w.configLocation = none ∧
        ∃ content, w' = { w with tree := w.tree.put w.configLocation (.file content) }

theorem mem_ancestors_of_mem_around {p q : Path} (h : q ∈ p.around) : q ∈ p.ancestors.tail :=
  (List.mem_filter.1 h).1

theorem frameOfFailure_refl {f : Failure} (h : compiled w o = .error f) :
    FrameOfFailure o w w where
  here_eq := rfl
  raw_eq := rfl
  files _ _ := Iff.rfl
  before_writing _ _ := rfl
  folders s c hc := by
    rw [h] at hc
    cases hc

theorem frameOfFailure_of_addsFolders {c : CompiledProject} (hc : compiled w o = .ok (s, c))
    (h : w.AddsFolders s.output.around w') : FrameOfFailure o w w' where
  here_eq := h.here_eq
  raw_eq := h.raw_eq
  files _ _ := h.node?_file_iff
  before_writing f hf := by
    rw [hc] at hf
    cases hf
  folders s' c' hc' := by
    rw [hc] at hc'
    cases hc'
    exact h

theorem frameOfSuccess_of_addsFile {output : Path} {content : ByteArray}
    (h : w.AddsFile output content w') : FrameOfSuccess output w w' := by
  refine ⟨h.here_eq, h.raw_eq, fun l => ?_⟩
  by_cases hl : l = w.target output
  · subst hl
    exact .inr (.inl ⟨h.locate_eq, h.free, content, h.node?_target⟩)
  · exact (h.node?_cases l hl).imp_right fun ⟨hn, hf, p, hp, hlp⟩ =>
      .inr ⟨hn, hf, p, mem_ancestors_of_mem_around hp, hlp⟩

theorem frame_generate (w : Workspace) (o : CommonOptions) (color : Bool) :
    Frame w (run w (.generate o false) color).1 (run w (.generate o false) color).2.exit
      (.generate o false) := by
  rw [run_generate]
  cases hc : compiled w o with
  | error f =>
    rw [generated_of_error hc]
    exact .inl ⟨rfl, frameOfFailure_refl hc⟩
  | ok sc =>
    obtain ⟨s, c⟩ := sc
    have hadds := Workspace.adds_of_writeOutput w s.output c.text
    rcases generated_cases hc with ⟨-, hg⟩ | ⟨-, hok, hg⟩ | ⟨-, f, herror, hg⟩ <;> rw [hg]
    · exact .inr ⟨rfl, s, c, hc, rfl, rfl, fun l => .inl rfl⟩
    · rcases hadds with ⟨-, hfile⟩ | ⟨f, herror, -⟩
      · exact .inr ⟨rfl, s, c, hc, frameOfSuccess_of_addsFile hfile⟩
      · rw [herror] at hok
        cases hok
    · rcases hadds with ⟨hok, -⟩ | ⟨f', -, hfolders⟩
      · rw [herror] at hok
        cases hok
      · exact .inl ⟨rfl, frameOfFailure_of_addsFolders hc hfolders⟩

theorem frame_run (w : Workspace) (command : Command) (color : Bool) :
    Frame w (run w command color).1 (run w command color).2.exit command := by
  cases command with
  | overview => exact rfl
  | check o =>
    rw [run_check]
    exact rfl
  | generate o toStdout =>
    cases toStdout with
    | false => exact frame_generate w o color
    | true =>
      rw [run_generate]
      cases hc : compiled w o with
      | error f => exact congrArg Prod.fst (generated_of_error hc)
      | ok sc => exact congrArg Prod.fst (generated_stdout hc)
  | init =>
    unfold run
    rcases w.init_cases with ⟨f, hi⟩ | ⟨hn, hi⟩ <;> rw [hi]
    · exact .inl ⟨rfl, rfl⟩
    · exact .inr ⟨rfl, hn, _, rfl⟩

theorem wellFormed_run (h : w.WellFormed) (command : Command) (color : Bool) :
    (run w command color).1.WellFormed := by
  cases command with
  | overview => exact h
  | init => exact h.init
  | check o =>
    rw [run_check]
    exact h
  | generate o toStdout =>
    rw [run_generate]
    cases hc : compiled w o with
    | error f =>
      rw [generated_of_error hc]
      exact h
    | ok sc =>
      cases toStdout with
      | true =>
        rw [generated_stdout hc]
        exact h
      | false =>
        rcases generated_cases hc with ⟨-, hg⟩ | ⟨-, -, hg⟩ | ⟨-, f, -, hg⟩ <;> rw [hg]
        · exact h
        · exact h.writeOutput
        · exact h.writeOutput

/-- **Every run keeps the tree well-formed**, and the working folder in it. -/
theorem wellFormed_start (h : w.WellFormed) (args : List String) (source : Option String)
    (color : Bool) : (start w args source color).1.WellFormed := by
  cases hc : CommandLine.parse args source with
  | error e =>
    rw [start_of_error hc]
    exact h
  | ok command =>
    rw [start_of_ok hc]
    exact wellFormed_run h command color

/-- **What a run changes**, whatever its arguments are. -/
theorem start_frame (w : Workspace) (args : List String) (source : Option String) (color : Bool) :
    match CommandLine.parse args source with
    | .error e => start w args source color = (w, .error e)
    | .ok command => ∃ w' t, start w args source color = (w', .ok t) ∧
        Frame w w' t.exit command := by
  cases h : CommandLine.parse args source with
  | error e => exact start_of_error h
  | ok command => exact ⟨_, _, start_of_ok h, frame_run w command color⟩

end Session

end Phrasebook
