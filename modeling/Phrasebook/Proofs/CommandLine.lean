import Phrasebook.CommandLine.Parser

/-!
# Arguments of the compiling commands

The commands that compile take the same arguments, but for one flag that only one of them knows.
Arguments without that flag set the same options for both (`parse_check_iff`), and the flag in front
of them changes nothing else (`parse_stdout`).
-/

namespace Phrasebook.CommandLine

theorem bind_eq_ok_iff {α β : Type} {x : Except UsageError α} {f : α → Except UsageError β}
    {b : β} :
    x >>= f = .ok b ↔ ∃ a, x = .ok a ∧ f a = .ok b := by
  cases x <;> simp [bind, Except.bind]

namespace Progress

variable {p q : Progress} {s : Setting} {f : Flag} {arg value : String} {args : List String}
  {cs : List Char} {b known : Bool}

/-- Takes an argument that is not two hyphens alone. -/
def take (p : Progress) (hasStdout : Bool) (arg : String) : Except UsageError Progress :=
  match arg.toList with
  | '-' :: '-' :: cs => p.takeLong hasStdout cs
  | '-' :: c :: cs => p.takeShort (c :: cs)
  | _ => p.takeValue arg

theorem takeAll_cons : takeAll known p (arg :: args) =
    if arg = "--" then if args.isEmpty then p.settle else .error .unknownArgument
    else p.take known arg >>= fun p => takeAll known p args := by
  have hdashes : arg.toList = ['-', '-'] ↔ arg = "--" := by
    rw [← String.toList_inj]
    rfl
  rw [takeAll, take]
  by_cases h : arg = "--"
  · rw [hdashes.2 h, if_pos h]
    rfl
  · rw [if_neg h]
    rw [← hdashes] at h
    split
    · exact absurd ‹_› h
    all_goals split <;> grind

/-! ## The flag that one command knows -/

/-- The progress with or without the flag. -/
def withStdout (b : Bool) (p : Progress) : Progress := { p with stdout := b }

theorem assign_withStdout :
    (p.withStdout b).assign s value = (p.assign s value).map (withStdout b) := by
  unfold assign withStdout
  cases s <;> dsimp only <;> split <;> rfl

theorem settle_withStdout : (p.withStdout b).settle = p.settle.map (withStdout b) := by
  unfold settle withStdout
  dsimp only
  split
  · rfl
  · rfl
  · exact assign_withStdout (p := { p with pending := none })

theorem takeSetting_withStdout {v : Option String} :
    (p.withStdout b).takeSetting s v = (p.takeSetting s v).map (withStdout b) := by
  unfold takeSetting
  rw [settle_withStdout]
  cases p.settle with
  | error e => rfl
  | ok q =>
    cases v with
    | none => rfl
    | some v => exact assign_withStdout

theorem takeFlag_withStdout (hf : f ≠ .stdout) :
    (p.withStdout b).takeFlag f = (p.takeFlag f).map (withStdout b) := by
  unfold takeFlag
  rw [settle_withStdout]
  cases p.settle with
  | error e => rfl
  | ok q =>
    cases f with
    | help => rfl
    | verbose =>
      unfold withStdout
      dsimp only [bind, Except.bind, Except.map]
      split <;> rfl
    | stdout => exact absurd rfl hf

theorem takeShort_withStdout :
    (p.withStdout b).takeShort cs = (p.takeShort cs).map (withStdout b) := by
  induction cs generalizing p with
  | nil => rfl
  | cons c cs ih =>
    unfold takeShort
    rcases hc : shortName? c with _ | s | f
    · rfl
    · dsimp only
      split <;> exact takeSetting_withStdout
    · have hf : f ≠ .stdout := by
        rintro rfl
        unfold shortName? at hc
        split at hc <;> cases hc
      dsimp only
      rw [takeFlag_withStdout hf]
      cases p.takeFlag f with
      | error e => rfl
      | ok q => exact ih

theorem longName?_false {name : String} : longName? false name ≠ some (.flag .stdout) := by
  unfold longName?
  split <;> nofun

theorem takeLong_withStdout :
    (p.withStdout b).takeLong false cs = (p.takeLong false cs).map (withStdout b) := by
  unfold takeLong
  dsimp only
  rcases hn : longName? false (String.ofList (cs.takeWhile (· ≠ '='))) with _ | s | f
  · rfl
  · exact takeSetting_withStdout
  · have hf : f ≠ .stdout := fun he => longName?_false (he ▸ hn)
    dsimp only
    rw [takeFlag_withStdout hf]
    split <;> rfl

theorem take_withStdout :
    (p.withStdout b).take false arg = (p.take false arg).map (withStdout b) := by
  unfold take
  split
  · exact takeLong_withStdout
  · exact takeShort_withStdout
  · unfold takeValue withStdout
    dsimp only
    split <;> rfl

/-- Arguments without the flag leave it as it is and do not depend on it. -/
theorem takeAll_withStdout :
    takeAll false (p.withStdout b) args = (takeAll false p args).map (withStdout b) := by
  induction args generalizing p with
  | nil => exact settle_withStdout
  | cons arg args ih =>
    rw [takeAll_cons, takeAll_cons, settle_withStdout, take_withStdout]
    split
    · split <;> rfl
    · cases p.take false arg with
      | error e => rfl
      | ok q => exact ih

theorem stdout_of_takeAll (h : takeAll false p args = .ok q) : q.stdout = p.stdout := by
  have hsame : takeAll false p args = (takeAll false p args).map (withStdout p.stdout) :=
    takeAll_withStdout (p := p) (b := p.stdout)
  rw [h] at hsame
  have hq : q = q.withStdout p.stdout := Except.ok.inj hsame
  rw [hq]
  rfl

/-! ## Two commands with the same arguments -/

theorem longName?_cases (known : Bool) (name : String) :
    longName? known name = longName? false name ∨
      longName? known name = some (.flag .stdout) ∧ longName? false name = none := by
  cases known with
  | false => exact .inl rfl
  | true =>
    unfold longName?
    split <;> first | exact .inl rfl | exact .inr ⟨rfl, rfl⟩

theorem stdout_of_takeFlag (h : p.takeFlag .stdout = .ok q) : q.stdout = true := by
  obtain ⟨r, -, hr⟩ := bind_eq_ok_iff.1 h
  dsimp only at hr
  split at hr
  · cases hr
  · cases hr
    rfl

/-- The flag apart, what sets something for one command sets it for the other. -/
theorem take_cases (h : p.take known arg = .ok q) : p.take false arg = .ok q ∨ q.stdout = true := by
  unfold take at h ⊢
  split at h
  · rename_i cs _
    unfold takeLong at h ⊢
    dsimp only at h ⊢
    rcases longName?_cases known (String.ofList (cs.takeWhile (· ≠ '='))) with hsame | ⟨hflag, -⟩
    · rw [hsame] at h
      exact .inl h
    · rw [hflag] at h
      dsimp only at h
      split at h
      · exact .inr (stdout_of_takeFlag h)
      · cases h
  · exact .inl h
  · exact .inl h

theorem take_of_take_false (h : p.take false arg = .ok q) : p.take known arg = .ok q := by
  unfold take at h ⊢
  split at h
  · rename_i cs _
    unfold takeLong at h ⊢
    dsimp only at h ⊢
    rcases longName?_cases known (String.ofList (cs.takeWhile (· ≠ '='))) with hsame | ⟨-, hnone⟩
    · rw [hsame]
      exact h
    · rw [hnone] at h
      cases h
  · exact h
  · exact h

theorem takeAll_cases (h : takeAll known p args = .ok q) :
    takeAll false p args = .ok q ∨ q.stdout = true := by
  induction args generalizing p with
  | nil => exact .inl h
  | cons arg args ih =>
    rw [takeAll_cons] at h ⊢
    split at h
    · rw [if_pos ‹_›]
      exact .inl h
    · obtain ⟨r, hr, hq⟩ := bind_eq_ok_iff.1 h
      rw [if_neg ‹_›, bind_eq_ok_iff]
      rcases ih hq with hq | hq
      · refine (take_cases hr).imp (fun hr => ⟨r, hr, hq⟩) fun hr => ?_
        rw [stdout_of_takeAll hq, hr]
      · exact .inr hq

theorem takeAll_of_takeAll_false (h : takeAll false p args = .ok q) :
    takeAll known p args = .ok q := by
  induction args generalizing p with
  | nil => exact h
  | cons arg args ih =>
    rw [takeAll_cons] at h ⊢
    split at h
    · rw [if_pos ‹_›]
      exact h
    · obtain ⟨r, hr, hq⟩ := bind_eq_ok_iff.1 h
      rw [if_neg ‹_›, bind_eq_ok_iff]
      exact ⟨r, take_of_take_false hr, ih hq⟩

end Progress

variable {args : List String} {source : Option String} {o : CommonOptions}

/-- The source locale of the environment takes the place of one that is not given. -/
def CommonOptions.orSource (o : CommonOptions) (source : Option String) : CommonOptions :=
  { o with sourceLocale := o.sourceLocale.or source }

theorem parse_check : parse ("check" :: args) source =
    (Progress.takeAll false {} args).map fun p => .check (p.common.orSource source) := by
  show (Progress.takeAll false {} args >>= _) >>= _ = _
  cases Progress.takeAll false {} args <;> rfl

theorem parse_generate : parse ("generate" :: args) source =
    (Progress.takeAll true {} args).map fun p =>
      .generate (p.common.orSource source) p.stdout := by
  show (Progress.takeAll true {} args >>= _) >>= _ = _
  cases Progress.takeAll true {} args <;> rfl

/-- **Both commands set the same options**, where the flag that one of them knows is not used. -/
theorem parse_check_iff :
    parse ("check" :: args) source = .ok (.check o) ↔
      parse ("generate" :: args) source = .ok (.generate o false) := by
  rw [parse_check, parse_generate]
  constructor
  · intro h
    cases ht : Progress.takeAll false {} args with
    | error e => rw [ht] at h; cases h
    | ok p =>
      rw [ht] at h
      cases h
      rw [Progress.takeAll_of_takeAll_false ht]
      exact congrArg (fun b => Except.ok (Command.generate _ b)) (Progress.stdout_of_takeAll ht)
  · intro h
    cases ht : Progress.takeAll true {} args with
    | error e => rw [ht] at h; cases h
    | ok p =>
      rw [ht] at h
      obtain ⟨rfl, hp⟩ := Command.generate.inj (Except.ok.inj h)
      rcases Progress.takeAll_cases ht with hf | hf
      · rw [hf]
        rfl
      · rw [hf] at hp
        cases hp

/-- **The flag only changes what is done**, not how: all options stay. -/
theorem parse_stdout (h : parse ("generate" :: args) source = .ok (.generate o false)) :
    parse ("generate" :: "--stdout" :: args) source = .ok (.generate o true) := by
  rw [← parse_check_iff, parse_check] at h
  have hflag : Progress.takeAll true {} ("--stdout" :: args) =
      Progress.takeAll true (Progress.withStdout true {}) args := by
    rw [Progress.takeAll_cons]
    rfl
  cases ht : Progress.takeAll false {} args with
  | error e => rw [ht] at h; cases h
  | ok p =>
    rw [ht] at h
    cases h
    have hmarked : Progress.takeAll false (Progress.withStdout true {}) args =
        .ok (p.withStdout true) := by
      rw [Progress.takeAll_withStdout, ht]
      rfl
    rw [parse_generate, hflag, Progress.takeAll_of_takeAll_false hmarked]
    rfl

end Phrasebook.CommandLine
