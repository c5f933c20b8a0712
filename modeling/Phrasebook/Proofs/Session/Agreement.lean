import Phrasebook.Proofs.CommandLine
import Phrasebook.Proofs.Session.Basic
import Phrasebook.Proofs.Traversal

/-!
# Checking and generating with the same arguments

A check passes exactly if generating would leave the module as it is. Otherwise generating would
write the module where the check finds it out of date or missing, and fail where the check fails, as
long as the file that is there holds text and a file can be put where none is
(`check_predicts_generate`).
-/

namespace Phrasebook

open FileTree Move

namespace Workspace

variable {w : Workspace} {p : Path} {l : Location} {content : ByteArray} {text : String}
  {e : FileError}

theorem holdsText_iff : w.holdsText p text = true ↔ w.readText p = .ok text := by
  unfold holdsText
  cases w.readText p <;> simp

/-- Where there is a file, a file can be put. -/
theorem admits_of_read (hw : w.WellFormed) (h : w.read p = .ok content) : w.Admits p := by
  obtain ⟨l, hl, hn⟩ := read_eq_ok_iff.1 h
  have hfree : w.tree.node? l ≠ some .folder := by
    rw [hn]
    nofun
  obtain ⟨-, name, -, -, -, hlast⟩ := exists_concat_of_locate hw hl hfree
  have htarget : w.target p = l := (locate_eq_ok_iff.1 hl).2.2
  rw [locate_eq_follow_way hlast, follow_eq_ok_iff] at hl
  refine ⟨⟨name, hlast⟩, fun x hx c hc => ?_, fun hmem => hfree ?_, htarget ▸ hfree⟩
  · rw [hl.1 x hx] at hc
    cases hc
  · exact htarget ▸ hl.1 _ hmem

/-- Where a file can be put, nothing keeps one from being read but that it is missing. -/
theorem Admits.eq_of_read (h : w.Admits p) (he : w.read p = .error e) : e = .notFound := by
  obtain ⟨name, hlast⟩ := h.named
  cases hl : w.locate p with
  | error e' =>
    have hread : w.read p = .error e' := by rw [read, hl]; rfl
    rw [he] at hread
    obtain rfl := Except.error.inj hread
    rw [locate_eq_follow_way hlast] at hl
    rcases follow_eq_error hl with ⟨-, x, hx, c, hc⟩ | ⟨rfl, -⟩
    · exact absurd hc (h.clear x hx c)
    · rfl
  | ok l =>
    have htarget : w.target p = l := (locate_eq_ok_iff.1 hl).2.2
    subst htarget
    rcases hn : w.tree.node? (w.target p) with _ | _ | c
    · rw [read_eq_notFound_iff.2 (.inr ⟨_, hl, hn⟩)] at he
      exact (Except.error.inj he).symm
    · exact absurd hn h.free
    · rw [read_eq_ok_iff.2 ⟨_, hl, hn⟩] at he
      cases he

end Workspace

namespace Session

open CommandLine (Command CommonOptions)

variable {w : Workspace} {o : CommonOptions} {s : Settings} {c : CompiledProject} {f : Failure}
  {args : List String} {source : Option String} {color : Bool} {e : FileError} {text : String}

/-- The file at the output holds text, or it is missing and can be put there. -/
def Predictable (w : Workspace) (o : CommonOptions) : Prop :=
  ∀ s c, compiled w o = .ok (s, c) → w.readText s.output ≠ .error .invalidData ∧
    (w.read s.output = .error .notFound → w.Admits s.output)

/-! ## What a check finds -/

/-- The status of the output, or why there is none. -/
theorem checked_cases (h : compiled w o = .ok (s, c)) :
    (w.readText s.output = .ok c.text ∧
        checked w o = .ok ⟨.checked s.output .upToDate c.stats, Diagnostic.sort c.diagnostics⟩) ∨
      (∃ text, text ≠ c.text ∧ w.readText s.output = .ok text ∧
        checked w o = .ok ⟨.checked s.output .stale c.stats, Diagnostic.sort c.diagnostics⟩) ∨
      (w.readText s.output = .error .notFound ∧
        checked w o = .ok ⟨.checked s.output .missing c.stats, Diagnostic.sort c.diagnostics⟩) ∨
      ∃ e, e ≠ .notFound ∧ w.readText s.output = .error e ∧
        checked w o = .error (.readOutput s.output e) := by
  rw [checked_eq h]
  cases ht : w.readText s.output with
  | ok text =>
    by_cases he : text = c.text
    · subst he
      exact .inl ⟨rfl, by simp⟩
    · exact .inr (.inl ⟨text, he, rfl, by simp [he]⟩)
  | error e =>
    by_cases he : e = .notFound
    · rw [he]
      exact .inr (.inr (.inl ⟨rfl, rfl⟩))
    · refine .inr (.inr (.inr ⟨e, he, rfl, ?_⟩))
      cases e <;> first | rfl | exact absurd rfl he

variable {verbose : Bool} {before : String}

theorem exit_checked_eq_zero_iff (h : compiled w o = .ok (s, c)) :
    (transcript verbose color before (checked w o)).exit = 0 ↔
      w.readText s.output = .ok c.text := by
  rcases checked_cases h with ⟨ht, hc⟩ | ⟨text, hne, ht, hc⟩ | ⟨ht, hc⟩ | ⟨e, -, ht, hc⟩ <;>
    rw [hc, ht]
  · exact ⟨fun _ => rfl, fun _ => rfl⟩
  · exact ⟨nofun, fun he => absurd (Except.ok.inj he) hne⟩
  · exact ⟨nofun, nofun⟩
  · exact ⟨nofun, nofun⟩

theorem exit_checked_eq_one_iff (h : compiled w o = .ok (s, c)) :
    (transcript verbose color before (checked w o)).exit = 1 ↔
      (∃ text, text ≠ c.text ∧ w.readText s.output = .ok text) ∨
        w.readText s.output = .error .notFound := by
  rcases checked_cases h with ⟨ht, hc⟩ | ⟨text, hne, ht, hc⟩ | ⟨ht, hc⟩ | ⟨e, hne, ht, hc⟩ <;>
    rw [hc, ht]
  · refine ⟨nofun, ?_⟩
    rintro (⟨text, hne, he⟩ | he)
    · exact absurd (Except.ok.inj he).symm hne
    · cases he
  · exact ⟨fun _ => .inl ⟨text, hne, rfl⟩, fun _ => rfl⟩
  · exact ⟨fun _ => .inr rfl, fun _ => rfl⟩
  · refine ⟨nofun, ?_⟩
    rintro (⟨text, -, he⟩ | he)
    · cases he
    · exact absurd (Except.error.inj he) hne

theorem exit_checked_eq_two_iff (h : compiled w o = .ok (s, c)) :
    (transcript verbose color before (checked w o)).exit = 2 ↔
      ∃ e, e ≠ .notFound ∧ w.readText s.output = .error e := by
  rw [exit_transcript_eq_two_iff]
  rcases checked_cases h with ⟨ht, hc⟩ | ⟨text, -, ht, hc⟩ | ⟨ht, hc⟩ | ⟨e, hne, ht, hc⟩ <;>
    rw [hc, ht]
  · exact ⟨nofun, nofun⟩
  · exact ⟨nofun, nofun⟩
  · exact ⟨nofun, fun ⟨e, hne, he⟩ => absurd (Except.error.inj he).symm hne⟩
  · exact ⟨fun _ => ⟨e, hne, rfl⟩, fun _ => ⟨_, rfl⟩⟩

/-! ## What generating does then -/

theorem generates_unchanged_iff (h : compiled w o = .ok (s, c)) :
    Generates .unchanged (generated w o false).2 ↔ w.readText s.output = .ok c.text := by
  rw [← Workspace.holdsText_iff]
  rcases generated_cases h with ⟨ht, hg⟩ | ⟨ht, -, hg⟩ | ⟨ht, f, -, hg⟩ <;> rw [hg, ht]
  · exact ⟨fun _ => rfl, fun _ => generates_resultOf_iff.2 rfl⟩
  · exact ⟨fun hu => (nomatch generates_resultOf_iff.1 hu), nofun⟩
  · exact ⟨fun hu => absurd hu not_generates_error, nofun⟩

/-- The module is written exactly if there is something to write and it can be written. -/
theorem generates_written_iff (hw : w.WellFormed) (h : compiled w o = .ok (s, c)) :
    Generates .written (generated w o false).2 ↔
      w.readText s.output ≠ .ok c.text ∧ w.Admits s.output := by
  rw [← Workspace.writeOutput_eq_ok_iff c.text hw, ne_eq, ← Workspace.holdsText_iff]
  rcases generated_cases h with ⟨ht, hg⟩ | ⟨ht, hok, hg⟩ | ⟨ht, f, herror, hg⟩ <;> rw [hg, ht]
  · exact ⟨fun hu => (nomatch generates_resultOf_iff.1 hu), fun ⟨hn, _⟩ => absurd rfl hn⟩
  · exact ⟨fun _ => ⟨nofun, hok⟩, fun _ => generates_resultOf_iff.2 rfl⟩
  · rw [herror]
    exact ⟨fun hu => absurd hu not_generates_error, fun ⟨_, hok⟩ => nomatch hok⟩

theorem generated_error_iff (hw : w.WellFormed) (h : compiled w o = .ok (s, c)) :
    (∃ f, (generated w o false).2 = .error f) ↔ ¬ w.Admits s.output := by
  rw [← Workspace.writeOutput_eq_ok_iff c.text hw]
  rcases generated_cases h with ⟨ht, hg⟩ | ⟨-, hok, hg⟩ | ⟨-, f, herror, hg⟩ <;> rw [hg]
  · have hread := Workspace.readText_eq_ok_iff.1 (Workspace.holdsText_iff.1 ht)
    exact ⟨nofun, fun hn => absurd
      ((Workspace.writeOutput_eq_ok_iff c.text hw).2 (Workspace.admits_of_read hw hread)) hn⟩
  · exact ⟨nofun, fun hn => absurd hok hn⟩
  · rw [herror]
    exact ⟨fun _ => nofun, fun _ => ⟨f, rfl⟩⟩

theorem exit_eq_zero_of_generates {outcome : WriteOutcome} {r : Except Failure CommandResult}
    (h : Generates outcome r) : (transcript verbose color before r).exit = 0 := by
  obtain ⟨_, _, _, rfl⟩ := h
  rfl

/-! ## Agreement -/

theorem stale_or_missing_iff (hw : w.WellFormed) (htext : w.readText s.output ≠ .error .invalidData)
    (hmissing : w.read s.output = .error .notFound → w.Admits s.output) :
    ((∃ text, text ≠ c.text ∧ w.readText s.output = .ok text) ∨
        w.readText s.output = .error .notFound) ↔
      w.readText s.output ≠ .ok c.text ∧ w.Admits s.output := by
  constructor
  · rintro (⟨text, hne, ht⟩ | ht)
    · have hread := Workspace.readText_eq_ok_iff.1 ht
      refine ⟨fun he => hne ?_, Workspace.admits_of_read hw hread⟩
      exact Except.ok.inj (ht.symm.trans he)
    · refine ⟨fun he => (nomatch ht.symm.trans he), hmissing ?_⟩
      exact (Workspace.readText_eq_error_iff.1 ht).resolve_right fun h => nomatch h.1
  · rintro ⟨hne, hadmits⟩
    cases ht : w.readText s.output with
    | ok text => exact .inl ⟨text, fun he => hne (he ▸ ht), rfl⟩
    | error e =>
      rcases Workspace.readText_eq_error_iff.1 ht with hread | ⟨rfl, -⟩
      · rw [hadmits.eq_of_read hread]
        exact .inr rfl
      · exact absurd ht htext

theorem unreadable_iff (hw : w.WellFormed) (htext : w.readText s.output ≠ .error .invalidData)
    (hmissing : w.read s.output = .error .notFound → w.Admits s.output) :
    (∃ e, e ≠ .notFound ∧ w.readText s.output = .error e) ↔ ¬ w.Admits s.output := by
  constructor
  · rintro ⟨e, hne, ht⟩ hadmits
    rcases Workspace.readText_eq_error_iff.1 ht with hread | ⟨rfl, -⟩
    · exact hne (hadmits.eq_of_read hread)
    · exact htext ht
  · intro hadmits
    cases ht : w.readText s.output with
    | ok text =>
      have hread := Workspace.readText_eq_ok_iff.1 ht
      exact absurd (Workspace.admits_of_read hw hread) hadmits
    | error e =>
      refine ⟨e, ?_, rfl⟩
      rintro rfl
      have hread := (Workspace.readText_eq_error_iff.1 ht).resolve_right fun h => nomatch h.1
      exact hadmits (hmissing hread)

/-- **A check predicts what generating with the same arguments would do.** The module would stay
exactly if the check passes. If what is at the output is text, or missing where a file can be put,
the module would be written exactly if the check finds it stale or missing, and both fail together.
If it is missing where no file can be put, only generating fails. -/
theorem check_predicts_generate (hw : w.WellFormed) (color : Bool)
    (hargs : CommandLine.parse ("check" :: args) source = .ok (.check o)) :
    ∃ tc tg, start w ("check" :: args) source color = (w, .ok tc) ∧
      start w ("generate" :: args) source color = ((generated w o false).1, .ok tg) ∧
      tg = transcript o.verbose color (note w o) (generated w o false).2 ∧
      (tc.exit = 0 ↔ tg.exit = 0 ∧ Generates .unchanged (generated w o false).2) ∧
      (Predictable w o →
        (tc.exit = 1 ↔ tg.exit = 0 ∧ Generates .written (generated w o false).2) ∧
        (tc.exit = 2 ↔ tg.exit = 2)) ∧
      ∀ s c, compiled w o = .ok (s, c) →
        (∀ text, w.readText s.output = .ok text → text ≠ c.text → tc.exit = 1) ∧
        (w.read s.output = .error .notFound → ¬ w.Admits s.output →
          tc.exit = 1 ∧ tg.exit = 2) := by
  refine ⟨transcript o.verbose color (note w o) (checked w o), _, ?_, ?_, rfl, ?_, ?_, ?_⟩
  · rw [start_of_ok hargs, run_check]
  · rw [start_of_ok (CommandLine.parse_check_iff.1 hargs), run_generate]
  · rw [and_iff_right_of_imp exit_eq_zero_of_generates]
    cases hc : compiled w o with
    | error f =>
      rw [checked_of_error hc, generated_of_error hc]
      exact ⟨nofun, fun h => absurd h not_generates_error⟩
    | ok sc => rw [exit_checked_eq_zero_iff hc, generates_unchanged_iff hc]
  · intro hpredictable
    rw [and_iff_right_of_imp exit_eq_zero_of_generates,
      exit_transcript_eq_two_iff (r := (generated _ _ _).2)]
    cases hc : compiled w o with
    | error f =>
      rw [checked_of_error hc, generated_of_error hc]
      exact ⟨⟨nofun, fun h => absurd h not_generates_error⟩, fun _ => ⟨f, rfl⟩, fun _ => rfl⟩
    | ok sc =>
      obtain ⟨s, c⟩ := sc
      obtain ⟨htext, hmissing⟩ := hpredictable s c hc
      rw [exit_checked_eq_one_iff hc, exit_checked_eq_two_iff hc, generates_written_iff hw hc,
        generated_error_iff hw hc]
      exact ⟨stale_or_missing_iff hw htext hmissing, unreadable_iff hw htext hmissing⟩
  · intro s c hc
    refine ⟨fun text ht hne => (exit_checked_eq_one_iff hc).2 (.inl ⟨text, hne, ht⟩),
      fun hmissing hadmits => ⟨(exit_checked_eq_one_iff hc).2 (.inr ?_), ?_⟩⟩
    · exact Workspace.readText_eq_error_iff.2 (.inl hmissing)
    · exact exit_transcript_eq_two_iff.2 ((generated_error_iff hw hc).2 hadmits)

/-! ## A small project -/

/-- One locale with one message, a module that is out of date, and a file that is not text. -/
def smallProject : Workspace where
  here := []
  tree.nodes := .ofList [
    (["messages"], .folder),
    (["messages", "en.json"], .file "\x7b\"hello\": \"Hello\"\x7d".toUTF8),
    (["locales.ts"], .file "old".toUTF8),
    (["bytes"], .file ⟨#[0xff]⟩)]

theorem wellFormed_smallProject : smallProject.WellFormed := by decide

/-- The exit status of a run, unless its arguments are refused. -/
def exit? (w : Workspace) (args : List String) : Option Nat :=
  (start w args none false).2.toOption.map (·.exit)

/-- The settings of the small project. -/
def smallSettings : Settings where
  messagesRoot := ⟨"./messages"⟩
  sourceLocale := "en"
  output := ⟨"./locales.ts"⟩
  options := {}

theorem settings_smallProject : settings smallProject {} = .ok smallSettings :=
  Traversal.eq_ok_of_toOption (by decide)

theorem predictable_smallProject : Predictable smallProject {} := by
  intro s c hc
  have hs := (compiled_eq_ok_iff.1 hc).1
  rw [settings_smallProject] at hs
  obtain rfl := Except.ok.inj hs
  have hread : smallProject.read smallSettings.output = .ok "old".toUTF8 := rfl
  have htext : smallProject.readText smallSettings.output = .ok "old" := rfl
  rw [hread, htext]
  exact ⟨nofun, nofun⟩

/-- The module of the small project is stale, and generating would write it. -/
theorem check_predicts_writing :
    smallProject.WellFormed ∧ CommandLine.parse ["check"] none = .ok (.check {}) ∧
      ∃ tc tg, start smallProject ["check"] none false = (smallProject, .ok tc) ∧ tc.exit = 1 ∧
        start smallProject ["generate"] none false =
          ((generated smallProject {} false).1, .ok tg) ∧ tg.exit = 0 ∧
        Generates .written (generated smallProject {} false).2 := by
  have hargs : CommandLine.parse ["check"] none = .ok (.check {}) := rfl
  have hexit : exit? smallProject ["check"] = some 1 := by decide +kernel
  obtain ⟨tc, tg, hcheck, hgenerate, -, -, hagree, -⟩ :=
    check_predicts_generate wellFormed_smallProject false hargs
  rw [exit?, hcheck] at hexit
  obtain ⟨hexit', hwritten⟩ :=
    (hagree predictable_smallProject).1.1 (Option.some.inj hexit)
  exact ⟨wellFormed_smallProject, hargs, tc, tg, hcheck, Option.some.inj hexit, hgenerate, hexit',
    hwritten⟩

/-- A check cannot read a file that is not text, which generating would replace; and it finds a
module missing at the end of a path with a slash, where no module can be written. -/
theorem check_and_generate_disagree :
    smallProject.WellFormed ∧
      (exit? smallProject ["check", "--output", "bytes"] = some 2 ∧
        exit? smallProject ["generate", "--output", "bytes"] = some 0) ∧
      exit? smallProject ["check", "--output", "out/"] = some 1 ∧
        exit? smallProject ["generate", "--output", "out/"] = some 2 := by
  decide +kernel

end Session

end Phrasebook
