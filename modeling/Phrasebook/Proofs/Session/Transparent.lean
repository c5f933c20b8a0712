import Phrasebook.Proofs.Session.Agreement
import Phrasebook.Proofs.Session.Initialized

/-!
# Running after initializing

What a command line comes to is the same with the configuration file that initializing writes as
without it (`start_after_init`), as long as the file is apart from the project. It is not if the
working folder has the locale files, since the file is taken for one of them, or if the path of the
output leads through it (`init_in_the_way`).
-/

namespace Phrasebook

namespace Session

open CommandLine (Command CommonOptions)

variable {w : Workspace} {o : CommonOptions} {s : Settings} {c : CompiledProject}
  {toStdout verbose color : Bool}

/-! ## The settings -/

theorem configuration_initialized (h : w.WellFormed) (hnone : Config.find? w w.path = none) :
    ∃ base, Settings.configuration w = .ok ⟨{}, false, base⟩ ∧
      Settings.configuration w.initialized = .ok ⟨{}, true, base⟩ := by
  have hload := Config.load_initialized h (Workspace.node?_configLocation_of_find? h hnone)
  have hpath : w.initialized.path = w.path := rfl
  unfold Settings.configuration
  rw [hpath, hload, Config.load_of_find?_eq_none hnone]
  dsimp only [Except.map]
  cases w.path.below? w.path with
  | none => exact ⟨_, rfl, rfl⟩
  | some rest => exact ⟨_, rfl, rfl⟩

/-- The settings are the same, and only without the file is there anything to note. -/
theorem exists_settings_initialized (h : w.WellFormed) (hnone : Config.find? w w.path = none)
    (o : CommonOptions) :
    ∃ s, settings w o = .ok s ∧ settings w.initialized o = .ok s ∧
      note w o = (if o.verbose then defaultsNote else "") ∧ note w.initialized o = "" := by
  obtain ⟨base, hbefore, hafter⟩ := configuration_initialized h hnone
  unfold settings note
  rw [hbefore, hafter]
  refine ⟨_, rfl, rfl, ?_, ?_⟩
  · dsimp only [configurationNote]
    rw [Bool.not_false, Bool.and_true]
  · dsimp only [configurationNote]
    rw [Bool.not_true, Bool.and_false]
    rfl

/-! ## What commands come to -/

/-- What the exit status and the standard output of a transcript tell of a result. -/
def visible : Except Failure CommandResult → Nat × String
  | .ok r => (exitStatus r.summary, printed r.summary)
  | .error _ => (2, "")

theorem visible_transcript {before : String} (r : Except Failure CommandResult) :
    ((transcript verbose color before r).exit, (transcript verbose color before r).stdout) =
      visible r := by
  cases r <;> rfl

theorem stderr_transcript {before : String} (r : Except Failure CommandResult) :
    (transcript verbose color before r).stderr =
      before ++ (transcript verbose color "" r).stderr := by
  cases r <;> simp [transcript]

/-- The command reads or writes the file of the module. -/
def usesOutput : Command → Bool
  | .generate _ toStdout => !toStdout
  | .check _ => true
  | _ => false

/-- The configuration file of the working folder is no locale file, and the file of the module is
not looked for behind it. -/
structure ConfigApart (w : Workspace) (s : Settings) (command : Command) : Prop where
  locales : w.locate s.messagesRoot ≠ .ok w.here
  output : usesOutput command = true → ¬ w.LeadsThrough s.output w.configLocation

/-- Neither the folder of locale files nor a module that is checked is looked for where the
configuration file of the working folder is. -/
structure ConfigUnnamed (w : Workspace) (s : Settings) (command : Command) : Prop where
  locales : w.locate s.messagesRoot ≠ .ok w.configLocation
  checked : ∀ o, command = .check o → w.locate s.output ≠ .ok w.configLocation

/-- Where the file stands, a module was missing and is out of date now. -/
theorem check_of_locate_configLocation (h : w.WellFormed)
    (hnone : w.tree.node? w.configLocation = none) (hk : w.locate s.output = .ok w.configLocation) :
    (w.compileProject s = .ok c →
      w.check s = .ok ⟨.checked s.output .missing c.stats, Diagnostic.sort c.diagnostics⟩) ∧
    (w.initialized.compileProject s = .ok c →
      w.initialized.check s =
        .ok ⟨.checked s.output .stale c.stats, Diagnostic.sort c.diagnostics⟩) := by
  constructor
  · intro hc
    rw [check_eq hc, Workspace.readText_of_locate_configLocation hnone hk]
  · intro hc
    rw [check_eq hc, Workspace.readText_initialized h hnone hk]
    dsimp only
    rw [if_neg (CompiledProject.text_ne_render hc {})]

section Initialized

variable (h : w.WellFormed) (hnone : w.tree.node? w.configLocation = none)
  (hs : settings w o = .ok s) (hs' : settings w.initialized o = .ok s)

include h hnone hs hs'

theorem compiled_initialized (hroot : w.locate s.messagesRoot ≠ .ok w.here) :
    compiled w.initialized o = compiled w o ∨
      w.locate s.messagesRoot = .ok w.configLocation ∧
        (∃ f, compiled w o = .error f) ∧ ∃ f, compiled w.initialized o = .error f := by
  unfold compiled
  rw [hs, hs']
  dsimp only [bind, Except.bind]
  rcases Workspace.compileProject_initialized h hnone hroot with
    heq | ⟨hk, ⟨f, hf⟩, f', hf'⟩
  · rw [heq]
    exact .inl rfl
  · rw [hf, hf']
    exact .inr ⟨hk, ⟨f, rfl⟩, f', rfl⟩

omit hs hs' in
theorem holdsText_initialized (hp : ¬ w.LeadsThrough s.output w.configLocation)
    (hc : compiled w o = .ok (s, c)) :
    w.initialized.holdsText s.output c.text = w.holdsText s.output c.text := by
  by_cases hk : w.locate s.output = .ok w.configLocation
  · have hne := CompiledProject.text_ne_render (compiled_eq_ok_iff.1 hc).2 {}
    rw [Workspace.holdsText, Workspace.holdsText, Workspace.readText_initialized h hnone hk,
      Workspace.readText_of_locate_configLocation hnone hk]
    exact decide_eq_false hne
  · rw [Workspace.holdsText, Workspace.holdsText,
      (Workspace.agreeBut_initialized hnone).readText_eq hp hk]

theorem generated_initialized (hapart : ConfigApart w s (.generate o toStdout)) :
    Workspace.AgreeBut w.configLocation (generated w o toStdout).1
        (generated w.initialized o toStdout).1 ∧
      visible (generated w.initialized o toStdout).2 = visible (generated w o toStdout).2 ∧
      (w.locate s.messagesRoot ≠ .ok w.configLocation →
        (generated w.initialized o toStdout).2 = (generated w o toStdout).2) := by
  have hagree := Workspace.agreeBut_initialized hnone
  rcases compiled_initialized h hnone hs hs' hapart.locales with heq | ⟨hk, ⟨f, hf⟩, f', hf'⟩
  · suffices hsame : Workspace.SameResult w.configLocation (generated w o toStdout)
        (generated w.initialized o toStdout) from
      ⟨hsame.agree, congrArg visible hsame.result_eq, fun _ => hsame.result_eq⟩
    cases hc : compiled w o with
    | error f =>
      rw [generated_of_error hc, generated_of_error (heq.trans hc)]
      exact ⟨hagree, rfl⟩
    | ok sc =>
      obtain ⟨s', c⟩ := sc
      obtain rfl := Except.ok.inj (hs.symm.trans (compiled_eq_ok_iff.1 hc).1)
      cases toStdout with
      | true =>
        rw [generated_stdout hc, generated_stdout (heq.trans hc)]
        exact ⟨hagree, rfl⟩
      | false =>
        have hp := hapart.output rfl
        have htext := holdsText_initialized h hnone hp hc
        cases ht : w.holdsText s.output c.text with
        | true =>
          rw [generated_of_holdsText hc ht, generated_of_holdsText (heq.trans hc) (htext.trans ht)]
          exact ⟨hagree, rfl⟩
        | false =>
          rw [generated_of_not_holdsText hc ht,
            generated_of_not_holdsText (heq.trans hc) (htext.trans ht)]
          exact (hagree.writeOutput hp).map _
  · rw [generated_of_error hf, generated_of_error hf']
    exact ⟨hagree, rfl, fun hne => absurd hk hne⟩

theorem checked_initialized (hapart : ConfigApart w s (.check o)) :
    visible (checked w.initialized o) = visible (checked w o) ∧
      (ConfigUnnamed w s (.check o) → checked w.initialized o = checked w o) := by
  rcases compiled_initialized h hnone hs hs' hapart.locales with heq | ⟨hk, ⟨f, hf⟩, f', hf'⟩
  · cases hc : compiled w o with
    | error f =>
      rw [checked_of_error hc, checked_of_error (heq.trans hc)]
      exact ⟨rfl, fun _ => rfl⟩
    | ok sc =>
      obtain ⟨s', c⟩ := sc
      obtain rfl := Except.ok.inj (hs.symm.trans (compiled_eq_ok_iff.1 hc).1)
      by_cases hk : w.locate s.output = .ok w.configLocation
      · obtain ⟨hmissing, hstale⟩ := check_of_locate_configLocation (c := c) h hnone hk
        rw [checked_of_settings hs, checked_of_settings hs',
          hmissing (compiled_eq_ok_iff.1 hc).2, hstale (compiled_eq_ok_iff.1 (heq.trans hc)).2]
        exact ⟨rfl, fun hunnamed => absurd hk (hunnamed.checked o rfl)⟩
      · rw [checked_eq hc, checked_eq (heq.trans hc),
          (Workspace.agreeBut_initialized hnone).readText_eq (hapart.output rfl) hk]
        exact ⟨rfl, fun _ => rfl⟩
  · rw [checked_of_error hf, checked_of_error hf']
    exact ⟨rfl, fun hunnamed => absurd hk hunnamed.locales⟩

end Initialized

/-! ## What runs come to -/

/-- Runs with the same exit status and standard output, which leave workspaces that agree but for a
location. -/
structure SameOutcome (k : Location) (r r' : Workspace × Transcript) : Prop where
  agree : Workspace.AgreeBut k r.1 r'.1
  exit_eq : r'.2.exit = r.2.exit
  stdout_eq : r'.2.stdout = r.2.stdout

theorem sameOutcome_of_visible {k : Location} {before before' : String}
    {r r' : Except Failure CommandResult} {w w' : Workspace} (hagree : Workspace.AgreeBut k w w')
    (h : visible r' = visible r) :
    SameOutcome k (w, transcript verbose color before r)
      (w', transcript verbose color before' r') :=
  have hsame := (visible_transcript r').trans (h.trans (visible_transcript r).symm)
  ⟨hagree, congrArg Prod.fst hsame, congrArg Prod.snd hsame⟩

/-- The options of a command that compiles. -/
def commonOptions? : Command → Option CommonOptions
  | .generate o _ => some o
  | .check o => some o
  | _ => none

theorem start_init {initArgs : List String} {source : Option String} (h : w.WellFormed)
    (hnone : Config.find? w w.path = none)
    (hinit : CommandLine.parse initArgs source = .ok .init) :
    start w initArgs source color = (w.initialized,
      .ok (transcript false color "" (.ok ⟨.initialized ⟨configFileName⟩, []⟩))) := by
  rw [start_of_ok hinit, run, Workspace.init_eq h (Workspace.node?_configLocation_of_find? h hnone)]

theorem run_initialized {command : Command} (h : w.WellFormed)
    (hnone : Config.find? w w.path = none) (ho : commonOptions? command = some o)
    (hs : settings w o = .ok s) (hapart : ConfigApart w s command) :
    SameOutcome w.configLocation (run w command color) (run w.initialized command color) ∧
      (ConfigUnnamed w s command →
        (run w command color).2.stderr =
          (if o.verbose then defaultsNote else "") ++
            (run w.initialized command color).2.stderr) := by
  have hfree := Workspace.node?_configLocation_of_find? h hnone
  obtain ⟨s', hs₁, hs', hnote, hnote'⟩ := exists_settings_initialized h hnone o
  obtain rfl := Except.ok.inj (hs₁.symm.trans hs)
  cases command with
  | init => cases ho
  | overview => cases ho
  | generate o' toStdout =>
    obtain rfl := Option.some.inj ho
    obtain ⟨hagree, hvisible, heq⟩ := generated_initialized h hfree hs hs' hapart
    rw [run_generate, run_generate]
    refine ⟨sameOutcome_of_visible hagree hvisible, fun hunnamed => ?_⟩
    dsimp only
    rw [heq hunnamed.locales, stderr_transcript, hnote, hnote']
  | check o' =>
    obtain rfl := Option.some.inj ho
    obtain ⟨hvisible, heq⟩ := checked_initialized h hfree hs hs' hapart
    rw [run_check, run_check]
    refine ⟨sameOutcome_of_visible (Workspace.agreeBut_initialized hfree) hvisible,
      fun hunnamed => ?_⟩
    dsimp only
    rw [heq hunnamed, stderr_transcript, hnote, hnote']

/-- **Initializing is transparent.** It writes the configuration file and nothing else, and the file
holds the defaults. A command line that compiles then has the settings that it had without the file.
As long as the file is apart from the project it comes to the same, and what is reported differs at
most by the note that there is no configuration file, unless the file stands where the folder of
locale files or a module to be checked should be. -/
theorem start_after_init {initArgs : List String} {source₀ : Option String} (color₀ : Bool)
    (h : w.WellFormed) (hnone : Config.find? w w.path = none)
    (hinit : CommandLine.parse initArgs source₀ = .ok .init) :
    ∃ w₀ t₀, start w initArgs source₀ color₀ = (w₀, .ok t₀) ∧ t₀.exit = 0 ∧
      Workspace.AgreeBut w.configLocation w w₀ ∧
      (∃ text, w₀.readText ⟨configFileName⟩ = .ok text ∧ Config.parse? text = some {}) ∧
      ∀ args source color,
        (∀ e, CommandLine.parse args source = .error e →
          start w args source color = (w, .error e) ∧
            start w₀ args source color = (w₀, .error e)) ∧
        ∀ command o, CommandLine.parse args source = .ok command →
          commonOptions? command = some o →
          ∃ s r r', settings w o = .ok s ∧ settings w₀ o = .ok s ∧
            start w args source color = (r.1, .ok r.2) ∧
            start w₀ args source color = (r'.1, .ok r'.2) ∧
            (ConfigApart w s command →
              SameOutcome w.configLocation r r' ∧
                (ConfigUnnamed w s command →
                  r.2.stderr = (if o.verbose then defaultsNote else "") ++ r'.2.stderr)) := by
  have hfree := Workspace.node?_configLocation_of_find? h hnone
  have hlocate := Workspace.locate_configFileName h
  refine ⟨w.initialized, _, start_init h hnone hinit, rfl, Workspace.agreeBut_initialized hfree,
    ⟨_, Workspace.readText_initialized h hfree hlocate, Config.parse?_render {}⟩,
    fun args source color => ⟨fun e he => ⟨start_of_error he, start_of_error he⟩,
      fun command o hargs ho => ?_⟩⟩
  obtain ⟨s, hs, hs', -⟩ := exists_settings_initialized h hnone o
  exact ⟨s, run w command color, run w.initialized command color, hs, hs', start_of_ok hargs,
    start_of_ok hargs, run_initialized h hnone ho hs⟩

/-- The small project has its locale files and its module apart from the configuration. -/
theorem configApart_smallProject :
    ConfigApart smallProject smallSettings (.generate {} false) ∧
      ConfigUnnamed smallProject smallSettings (.generate {} false) :=
  ⟨⟨by decide, fun _ => by decide⟩, ⟨by decide, nofun⟩⟩

/-- The small project is generated after initializing as it would have been before. -/
theorem start_after_init_smallProject :
    smallProject.WellFormed ∧ Config.find? smallProject smallProject.path = none ∧
      CommandLine.parse ["init"] none = .ok .init ∧
      ∃ w₀ t₀, start smallProject ["init"] none false = (w₀, .ok t₀) ∧ t₀.exit = 0 ∧
        ∃ r r', start smallProject ["generate"] none false = (r.1, .ok r.2) ∧
          start w₀ ["generate"] none false = (r'.1, .ok r'.2) ∧
          SameOutcome smallProject.configLocation r r' ∧ r.2.stderr = r'.2.stderr := by
  have hinit : CommandLine.parse ["init"] none = .ok .init := rfl
  have hargs : CommandLine.parse ["generate"] none = .ok (.generate {} false) := rfl
  obtain ⟨w₀, t₀, hstart, hexit, -, -, hruns⟩ := start_after_init false wellFormed_smallProject rfl hinit
  obtain ⟨s, r, r', hs, -, hr, hr', hsame⟩ := (hruns ["generate"] none false).2 _ {} hargs rfl
  rw [settings_smallProject] at hs
  obtain rfl := Except.ok.inj hs
  obtain ⟨houtcome, hstderr⟩ := hsame configApart_smallProject.1
  refine ⟨wellFormed_smallProject, rfl, hinit, w₀, t₀, hstart, hexit, r, r', hr, hr', houtcome, ?_⟩
  rw [hstderr configApart_smallProject.2]
  exact String.empty_append

/-! ## Where the file is in the way -/

/-- A root folder with nothing in it. -/
def bareProject : Workspace := ⟨{}, []⟩

/-- The settings of the bare project with the working folder for the folder of locale files, and the
name of the configuration file for a locale. -/
def bareSettings : Settings where
  messagesRoot := ⟨"."⟩
  sourceLocale := ".dictgenrc"
  output := ⟨"./locales.ts"⟩
  options := {}

/-- The standard error of a run, unless its arguments are refused. -/
def stderr? (w : Workspace) (args : List String) : Option String :=
  (start w args none false).2.toOption.map (·.stderr)

/-- The workspace after initializing. -/
def afterInit (w : Workspace) : Workspace := (start w ["init"] none false).1

theorem exit_init (h : w.WellFormed) (hnone : Config.find? w w.path = none) :
    exit? w ["init"] = some 0 := by
  rw [exit?, start_init h hnone rfl]
  rfl

theorem start_check_afterInit {args : List String} {r : Except Failure CommandResult}
    (h : w.WellFormed) (hnone : Config.find? w w.path = none) (hr : w.initialized.check s = r)
    (hargs : CommandLine.parse args none = .ok (.check o)) (hs : settings w o = .ok s) :
    start (afterInit w) args none false =
      (w.initialized, .ok (transcript o.verbose false "" r)) := by
  have hafter : afterInit w = w.initialized := congrArg Prod.fst (start_init h hnone rfl)
  obtain ⟨s', hs₁, hs', -, hnote⟩ := exists_settings_initialized h hnone o
  obtain rfl := Except.ok.inj (hs₁.symm.trans hs)
  rw [hafter, start_of_ok hargs, run_check, hnote, checked_of_settings hs', hr]

theorem wellFormed_bareProject : bareProject.WellFormed := by decide

/-- What is loaded from a text that is written as an object. -/
def loadedOf (file : Path) (locale text : String) (members : List (String × Json.Value String)) :
    Loaded :=
  let cs := text.toList
  LocaleFile.ofDocument file.text locale
    (fun key => { file := file.text, line := LocaleFile.keyLine (.ofText cs) cs key })
    (.object members)

theorem load_of_object {file : Path} {locale text : String}
    {members : List (String × Json.Value String)} (htext : w.readText file = .ok text)
    (hmembers : Json.parse? text = some (.object members)) :
    LocaleFile.load w file locale = .ok (loadedOf file locale text members) := by
  rw [LocaleFile.load, htext]
  dsimp only
  rw [LocaleFile.parse, hmembers]
  rfl

/-- A folder with one locale file. -/
theorem load_of_localePaths_singleton {folder file : Path} {source locale : String}
    {loaded : Loaded} (hfolder : w.isFolder folder = true)
    (hpaths : LocaleFolder.localePaths w folder source = [(locale, file)])
    (hfile : LocaleFile.load w file locale = .ok loaded) :
    LocaleFolder.load w folder source =
      .ok ⟨.ofList [loaded.dictionary], loaded.diagnostics⟩ := by
  have hexists : w.pathExists folder = true := by
    rw [Workspace.pathExists, of_decide_eq_true hfolder]
    rfl
  rw [LocaleFolder.load, hexists, hfolder, hpaths]
  simp [hfile, bind, Except.bind, pure, Except.pure]

/-- The defaults, loaded as the messages of a locale. -/
def loadedDefaults : Loaded :=
  loadedOf ⟨"./.dictgenrc.json"⟩ ".dictgenrc" (Config.render {})
    (Config.Field.all.map fun f => (f.key, .string (({} : Config).get f)))

theorem load_bareProject :
    LocaleFolder.load bareProject.initialized ⟨"."⟩ ".dictgenrc" =
      .ok ⟨.ofList [loadedDefaults.dictionary], loadedDefaults.diagnostics⟩ := by
  have hfile : LocaleFile.load bareProject.initialized ⟨"./.dictgenrc.json"⟩ ".dictgenrc" =
      .ok loadedDefaults :=
    load_of_object (Workspace.readText_initialized wellFormed_bareProject rfl rfl)
      Config.json_render_default
  exact load_of_localePaths_singleton rfl (by decide +kernel) hfile

/-- The configuration is a locale file of the working folder, and it can be compiled. -/
theorem exists_compileProject_bareProject :
    ∃ c, bareProject.initialized.compileProject bareSettings = .ok c := by
  have hcompile : ((LocaleSet.ofList [loadedDefaults.dictionary]).compile
      ".dictgenrc").toOption.isSome = true := rfl
  have hload : LocaleFolder.load bareProject.initialized bareSettings.messagesRoot
      bareSettings.sourceLocale = _ := load_bareProject
  rw [Workspace.compileProject, hload]
  dsimp only [bind, Except.bind]
  cases hc : (LocaleSet.ofList [loadedDefaults.dictionary]).compile ".dictgenrc" with
  | error e =>
    rw [hc] at hcompile
    cases hcompile
  | ok c => exact ⟨_, by rw [show bareSettings.sourceLocale = ".dictgenrc" from rfl, hc]; rfl⟩

/-- Initializing makes a locale folder of the working folder. -/
theorem exit_check_bareProject :
    exit? bareProject ["check", "--messages-root", ".", "--source-locale", ".dictgenrc"] = some 2 ∧
      exit? (afterInit bareProject)
        ["check", "--messages-root", ".", "--source-locale", ".dictgenrc"] = some 1 := by
  refine ⟨by decide +kernel, ?_⟩
  obtain ⟨c, hc⟩ := exists_compileProject_bareProject
  have hread : bareProject.initialized.readText bareSettings.output = .error .notFound := rfl
  have hcheck := check_eq hc
  rw [hread] at hcheck
  rw [exit?, start_check_afterInit wellFormed_bareProject rfl hcheck rfl rfl]
  rfl

/-- Where there was nothing on the way to the output, there is a file then. -/
theorem exit_check_behind_config :
    exit? smallProject ["check", "--output", ".dictgenrc.json/locales.ts"] = some 1 ∧
      exit? (afterInit smallProject) ["check", "--output", ".dictgenrc.json/locales.ts"] =
        some 2 := by
  refine ⟨by decide +kernel, ?_⟩
  have hcheck : smallProject.initialized.check
      { smallSettings with output := ⟨".dictgenrc.json/locales.ts"⟩ } =
        .error (.readOutput ⟨".dictgenrc.json/locales.ts"⟩ .notADirectory) := by
    decide +kernel
  rw [exit?, start_check_afterInit wellFormed_smallProject rfl hcheck rfl rfl]
  rfl

theorem stderr_check_config_root :
    stderr? smallProject ["check", "--messages-root", ".dictgenrc.json"] =
        some ("Error: Messages directory '.dictgenrc.json' does not exist.\n" ++
          "Hint: Check your .dictgenrc.json 'messagesRoot' setting.\n") ∧
      stderr? (afterInit smallProject) ["check", "--messages-root", ".dictgenrc.json"] =
        some "Error: '.dictgenrc.json' is not a directory.\n" := by
  refine ⟨rfl, ?_⟩
  have hcheck : smallProject.initialized.check
      { smallSettings with messagesRoot := ⟨".dictgenrc.json"⟩ } =
        .error (.messagesNotFolder ⟨".dictgenrc.json"⟩) := rfl
  rw [stderr?, start_check_afterInit wellFormed_smallProject rfl hcheck rfl rfl]
  rfl

theorem stderr_check_config_output :
    stderr? smallProject ["check", "--output", ".dictgenrc.json"] =
        some "✘ .dictgenrc.json does not exist (run dictgen generate)\n" ∧
      stderr? (afterInit smallProject) ["check", "--output", ".dictgenrc.json"] =
        some "✘ .dictgenrc.json is out of date (run dictgen generate)\n" := by
  refine ⟨by decide +kernel, ?_⟩
  have hcompiled : ((smallProject.initialized.compileProject
      { smallSettings with output := ⟨".dictgenrc.json"⟩ }).toOption.map fun c =>
        (c.stats, c.diagnostics)) = some (⟨⟨1, 0, 0⟩, 1, 0⟩, []) := by decide +kernel
  have hcheck : smallProject.initialized.check
      { smallSettings with output := ⟨".dictgenrc.json"⟩ } =
        .ok ⟨.checked ⟨".dictgenrc.json"⟩ .stale ⟨⟨1, 0, 0⟩, 1, 0⟩, []⟩ := by
    cases hc : smallProject.initialized.compileProject
        { smallSettings with output := ⟨".dictgenrc.json"⟩ } with
    | error f =>
      rw [hc] at hcompiled
      cases hcompiled
    | ok c =>
      rw [hc] at hcompiled
      obtain ⟨hstats, hdiagnostics⟩ := Prod.mk.inj (Option.some.inj hcompiled)
      rw [(check_of_locate_configLocation wellFormed_smallProject rfl rfl).2 hc, hstats,
        hdiagnostics, show Diagnostic.sort [] = [] from List.mergeSort_nil]
  rw [stderr?, start_check_afterInit wellFormed_smallProject rfl hcheck rfl rfl]
  rfl

/-- **A configuration file can be in the way.** No configuration is found in two projects, and
initializing succeeds; but then the folder of locale files has a locale more, there is a file on the
way to the output, and another report of what should stand where the file is. -/
theorem init_in_the_way :
    (bareProject.WellFormed ∧ Config.find? bareProject bareProject.path = none ∧
      exit? bareProject ["init"] = some 0 ∧
      exit? bareProject ["check", "--messages-root", ".", "--source-locale", ".dictgenrc"] =
        some 2 ∧
      exit? (afterInit bareProject)
        ["check", "--messages-root", ".", "--source-locale", ".dictgenrc"] = some 1) ∧
    smallProject.WellFormed ∧ Config.find? smallProject smallProject.path = none ∧
      exit? smallProject ["init"] = some 0 ∧
      exit? smallProject ["check", "--output", ".dictgenrc.json/locales.ts"] ≠
        exit? (afterInit smallProject) ["check", "--output", ".dictgenrc.json/locales.ts"] ∧
      stderr? smallProject ["check", "--messages-root", ".dictgenrc.json"] ≠
        stderr? (afterInit smallProject) ["check", "--messages-root", ".dictgenrc.json"] ∧
      stderr? smallProject ["check", "--output", ".dictgenrc.json"] ≠
        stderr? (afterInit smallProject) ["check", "--output", ".dictgenrc.json"] := by
  have hbehind := exit_check_behind_config
  have hroot := stderr_check_config_root
  have houtput := stderr_check_config_output
  refine ⟨⟨wellFormed_bareProject, rfl, exit_init wellFormed_bareProject rfl,
    exit_check_bareProject⟩, wellFormed_smallProject, rfl,
    exit_init wellFormed_smallProject rfl, ?_, ?_, ?_⟩
  · rw [hbehind.1, hbehind.2]
    decide
  · rw [hroot.1, hroot.2]
    decide
  · rw [houtput.1, houtput.2]
    decide

end Session

end Phrasebook
