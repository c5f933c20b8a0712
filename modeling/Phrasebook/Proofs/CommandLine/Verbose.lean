import Phrasebook.Proofs.CommandLine
import Phrasebook.Proofs.Traversal

/-!
# Asking for more to be told

A flag of the compiling commands asks for more to be told. In front of the other arguments it
changes nothing else: what they set they still set, and where they are refused they still are
(`parse_verbose`). From wherever in a command line it is taken away, the same is asked for but to be
told more (`parse_of_parse_verbose`).
-/

namespace Phrasebook.CommandLine

/-- The name of a command that compiles. -/
def IsCompiling (name : String) : Prop := name = "generate" ∨ name = "check"

/-- The flag that asks for more to be told, on its own. -/
def IsVerboseFlag (arg : String) : Prop := arg = "-v" ∨ arg = "--verbose"

namespace Progress

variable {p q : Progress} {s : Setting} {f : Flag} {arg value : String} {args : List String}
  {cs : List Char} {b known : Bool}

/-- The progress with or without more to be told. -/
def withVerbose (b : Bool) (p : Progress) : Progress :=
  { p with common := { p.common with verbose := b } }

/-! ## Arguments behind the flag -/

/-- What the same arguments come to without the flag and behind it. -/
inductive Behind : Except UsageError Progress → Except UsageError Progress → Prop
  | set {p : Progress} (hp : p.common.verbose = false) : Behind (.ok p) (.ok (p.withVerbose true))
  | refused (e : UsageError) : Behind (.error e) (.error e)
  /-- The flag is given twice. -/
  | twice {r : Except UsageError Progress} (hr : ∀ p, r = .ok p → p.common.verbose = true) :
    Behind r (.error .argumentConflict)

theorem Behind.bind {x y : Except UsageError Progress}
    {f : Progress → Except UsageError Progress} (h : Behind x y)
    (hf : ∀ p, p.common.verbose = false → Behind (f p) (f (p.withVerbose true)))
    (hkeeps : ∀ p q, p.common.verbose = true → f p = .ok q → q.common.verbose = true) :
    Behind (x >>= f) (y >>= f) := by
  cases h with
  | set hp => exact hf _ hp
  | refused e => exact .refused e
  | twice hr =>
    refine .twice fun q hq => ?_
    obtain ⟨p, hp, hq⟩ := bind_eq_ok_iff.1 hq
    exact hkeeps p q (hr p hp) hq

/-- A step that looks at anything but the flag, and carries it along. -/
def Carries (f : Progress → Except UsageError Progress) : Prop :=
  ∀ b p, f (withVerbose b p) = (f p).map (withVerbose b)

theorem Carries.behind {f : Progress → Except UsageError Progress} (hf : Carries f)
    (hp : p.common.verbose = false) : Behind (f p) (f (p.withVerbose true)) := by
  have hsame : f p = (f p).map (withVerbose false) := by
    rw [← hf, withVerbose, ← hp]
  rw [hf, hsame]
  cases f p with
  | error e => exact .refused e
  | ok q => exact .set rfl

theorem Carries.verbose_eq {f : Progress → Except UsageError Progress} (hf : Carries f)
    (h : f p = .ok q) : q.common.verbose = p.common.verbose := by
  have hsame : f p = (f p).map (withVerbose p.common.verbose) := by
    rw [← hf, withVerbose]
  rw [h] at hsame
  rw [Except.ok.inj hsame]
  rfl

theorem carries_assign (s : Setting) (value : String) : Carries (·.assign s value) := by
  intro b p
  unfold assign withVerbose
  cases s <;> dsimp only <;> split <;> rfl

theorem carries_settle : Carries settle := by
  intro b p
  unfold settle withVerbose
  dsimp only
  split
  · rfl
  · rfl
  · exact carries_assign _ _ b { p with pending := none }

theorem carries_takeSetting (s : Setting) (v : Option String) : Carries (·.takeSetting s v) := by
  intro b p
  dsimp only
  unfold takeSetting
  rw [carries_settle]
  cases p.settle with
  | error e => rfl
  | ok q =>
    cases v with
    | none => rfl
    | some v => exact carries_assign s v b q

theorem carries_takeFlag (hf : f ≠ .verbose) : Carries (·.takeFlag f) := by
  intro b p
  dsimp only
  unfold takeFlag
  rw [carries_settle]
  cases p.settle with
  | error e => rfl
  | ok q =>
    cases f with
    | help => rfl
    | stdout =>
      unfold withVerbose
      dsimp only [bind, Except.bind, Except.map]
      split <;> rfl
    | verbose => exact absurd rfl hf

theorem carries_takeValue (value : String) : Carries (·.takeValue value) := by
  intro b p
  unfold takeValue withVerbose
  dsimp only
  split <;> rfl

theorem verbose_of_takeFlag_verbose (h : p.takeFlag .verbose = .ok q) :
    q.common.verbose = true := by
  obtain ⟨r, -, hr⟩ := bind_eq_ok_iff.1 h
  dsimp only at hr
  split at hr
  · cases hr
  · cases hr
    rfl

theorem behind_takeFlag (hp : p.common.verbose = false) :
    Behind (p.takeFlag f) ((p.withVerbose true).takeFlag f) := by
  by_cases hf : f = .verbose
  · subst hf
    unfold takeFlag
    rw [carries_settle]
    cases p.settle with
    | error e => exact .refused e
    | ok q =>
      refine .twice fun r hr => ?_
      dsimp only [bind, Except.bind] at hr
      split at hr
      · cases hr
      · cases hr
        rfl
  · exact (carries_takeFlag hf).behind hp

theorem keeps_takeFlag (hp : p.common.verbose = true) (h : p.takeFlag f = .ok q) :
    q.common.verbose = true := by
  by_cases hf : f = .verbose
  · subst hf
    exact verbose_of_takeFlag_verbose h
  · rw [(carries_takeFlag hf).verbose_eq h, hp]

theorem keeps_takeShort (hp : p.common.verbose = true) (h : p.takeShort cs = .ok q) :
    q.common.verbose = true := by
  induction cs generalizing p with
  | nil =>
    cases h
    exact hp
  | cons c cs ih =>
    unfold takeShort at h
    rcases hc : shortName? c with _ | s | f <;> rw [hc] at h
    · cases h
    · dsimp only at h
      split at h <;> rw [(carries_takeSetting _ _).verbose_eq h, hp]
    · obtain ⟨r, hr, hq⟩ := bind_eq_ok_iff.1 h
      exact ih (keeps_takeFlag hp hr) hq

theorem behind_takeShort (hp : p.common.verbose = false) :
    Behind (p.takeShort cs) ((p.withVerbose true).takeShort cs) := by
  induction cs generalizing p with
  | nil => exact .set hp
  | cons c cs ih =>
    unfold takeShort
    rcases shortName? c with _ | s | f
    · exact .refused _
    · dsimp only
      split <;> exact (carries_takeSetting _ _).behind hp
    · exact (behind_takeFlag hp).bind (fun _ => ih) fun _ _ => keeps_takeShort

theorem keeps_take (hp : p.common.verbose = true) (h : p.take known arg = .ok q) :
    q.common.verbose = true := by
  unfold take at h
  split at h
  · unfold takeLong at h
    dsimp only at h
    split at h
    · cases h
    · rw [(carries_takeSetting _ _).verbose_eq h, hp]
    · split at h
      · exact keeps_takeFlag hp h
      · nomatch h
  · exact keeps_takeShort hp h
  · rw [(carries_takeValue _).verbose_eq h, hp]

theorem behind_take (hp : p.common.verbose = false) :
    Behind (p.take known arg) ((p.withVerbose true).take known arg) := by
  unfold take
  split
  · unfold takeLong
    dsimp only
    split
    · exact .refused _
    · exact (carries_takeSetting _ _).behind hp
    · split
      · exact behind_takeFlag hp
      · exact .refused _
  · exact behind_takeShort hp
  · exact (carries_takeValue _).behind hp

theorem keeps_takeAll (hp : p.common.verbose = true) (h : takeAll known p args = .ok q) :
    q.common.verbose = true := by
  induction args generalizing p with
  | nil => rw [carries_settle.verbose_eq h, hp]
  | cons arg args ih =>
    rw [takeAll_cons] at h
    split at h
    · split at h
      · rw [carries_settle.verbose_eq h, hp]
      · cases h
    · obtain ⟨r, hr, hq⟩ := bind_eq_ok_iff.1 h
      exact ih (keeps_take hp hr) hq

/-- **What the arguments come to behind the flag.** -/
theorem behind_takeAll (hp : p.common.verbose = false) :
    Behind (takeAll known p args) (takeAll known (p.withVerbose true) args) := by
  induction args generalizing p with
  | nil => exact carries_settle.behind hp
  | cons arg args ih =>
    rw [takeAll_cons, takeAll_cons]
    split
    · split
      · exact carries_settle.behind hp
      · exact .refused _
    · exact (behind_take hp).bind (fun _ => ih) fun _ _ => keeps_takeAll

/-! ## The flag between arguments -/

theorem take_flag {flag : String} (hflag : IsVerboseFlag flag) :
    p.take known flag = p.takeFlag .verbose := by
  rcases hflag with rfl | rfl
  · show (p.takeFlag .verbose >>= fun p => .ok p) = _
    cases p.takeFlag .verbose <;> rfl
  · rfl

theorem ne_dashes {flag : String} (hflag : IsVerboseFlag flag) : flag ≠ "--" := by
  rcases hflag with rfl | rfl <;> decide

theorem pending_of_assign (h : p.assign s value = .ok q) : q.pending = p.pending := by
  unfold assign at h
  cases s <;> dsimp only at h <;> split at h <;> cases h <;> rfl

theorem pending_of_settle (h : p.settle = .ok q) : q.pending = none := by
  unfold settle at h
  split at h
  · cases h
    assumption
  · cases h
  · exact pending_of_assign h

theorem settle_of_pending (h : q.pending = none) : q.settle = .ok q := by
  unfold settle
  rw [h]

theorem takeFlag_settle (h : p.settle = .ok q) : q.takeFlag f = p.takeFlag f := by
  unfold takeFlag
  rw [h, settle_of_pending (pending_of_settle h)]

theorem takeSetting_settle {v : Option String} (h : p.settle = .ok q) :
    q.takeSetting s v = p.takeSetting s v := by
  unfold takeSetting
  rw [h, settle_of_pending (pending_of_settle h)]

theorem takeShort_settle {c : Char} (h : p.settle = .ok q) :
    q.takeShort (c :: cs) = p.takeShort (c :: cs) := by
  unfold takeShort
  split
  · rfl
  · rw [takeFlag_settle h]
  · split <;> exact takeSetting_settle h

/-- An argument can be taken with the last option settled or not, once it can be settled. -/
theorem take_settle (h : p.settle = .ok q) : q.take known arg = p.take known arg := by
  unfold take
  split
  · unfold takeLong
    dsimp only
    split
    · rfl
    · exact takeSetting_settle h
    · rw [takeFlag_settle h]
  · exact takeShort_settle h
  · unfold takeValue
    rw [pending_of_settle h]
    unfold settle at h
    split at h
    · rename_i hnone
      rw [hnone]
    · cases h
    · rename_i hsome
      rw [hsome]

theorem takeAll_settle (h : p.settle = .ok q) : takeAll known q args = takeAll known p args := by
  cases args with
  | nil => exact (settle_of_pending (pending_of_settle h)).trans h.symm
  | cons arg args =>
    rw [takeAll_cons, takeAll_cons, take_settle h, h, settle_of_pending (pending_of_settle h)]

theorem takeAll_flag {flag : String} (hflag : IsVerboseFlag flag) :
    takeAll known p (flag :: args) = p.takeFlag .verbose >>= fun p => takeAll known p args := by
  rw [takeAll_cons, if_neg (ne_dashes hflag), take_flag hflag]

theorem takeFlag_verbose_eq_ok (h : p.takeFlag .verbose = .ok q) :
    ∃ r, p.settle = .ok r ∧ r.common.verbose = false ∧ q = r.withVerbose true := by
  obtain ⟨r, hr, hq⟩ := bind_eq_ok_iff.1 h
  dsimp only at hq
  split at hq
  · cases hq
  · rename_i hverbose
    cases hq
    exact ⟨r, hr, by simpa using hverbose, rfl⟩

/-- **Arguments without the flag** set the same as with it, but for what it asks for. -/
theorem takeAll_of_takeAll_flag {flag : String} (hflag : IsVerboseFlag flag) {before : List String}
    (h : takeAll known p (before ++ flag :: args) = .ok q) :
    ∃ r, takeAll known p (before ++ args) = .ok r ∧ r.common.verbose = false ∧
      q = r.withVerbose true := by
  induction before generalizing p with
  | nil =>
    rw [List.nil_append, takeAll_flag hflag] at h
    obtain ⟨t, ht, hq⟩ := bind_eq_ok_iff.1 h
    obtain ⟨r, hr, hverbose, rfl⟩ := takeFlag_verbose_eq_ok ht
    have hbehind : Behind (takeAll known r args) (takeAll known (r.withVerbose true) args) :=
      behind_takeAll hverbose
    rw [hq, takeAll_settle hr] at hbehind
    cases hb : takeAll known p args with
    | error e => rw [hb] at hbehind; nomatch hbehind
    | ok r' =>
      rw [hb] at hbehind
      cases hbehind with
      | set hp => exact ⟨r', hb, hp, rfl⟩
  | cons arg before ih =>
    rw [List.cons_append, takeAll_cons] at h ⊢
    by_cases hdashes : arg = "--"
    · rw [if_pos hdashes] at h
      simp at h
    · rw [if_neg hdashes] at h ⊢
      obtain ⟨t, ht, hq⟩ := bind_eq_ok_iff.1 h
      obtain ⟨r, hr, hverbose, rfl⟩ := ih hq
      exact ⟨r, bind_eq_ok_iff.2 ⟨t, ht, hr⟩, hverbose, rfl⟩

end Progress

/-! ## Commands -/

variable {name flag : String} {args before : List String} {source : Option String}

/-- A compiling command that does not ask for more to be told. -/
def Command.IsQuiet : Command → Prop
  | generate o _ => o.verbose = false
  | check o => o.verbose = false
  | _ => False

/-- The command with or without more to be told. -/
def Command.withVerbose (b : Bool) : Command → Command
  | generate o toStdout => .generate { o with verbose := b } toStdout
  | check o => .check { o with verbose := b }
  | c => c

/-- What a compiling command is made from what its arguments have set. -/
theorem exists_parse_eq (hname : IsCompiling name) (source : Option String) :
    ∃ known, ∃ make : Progress → Command,
      (∀ args, parse (name :: args) source = (Progress.takeAll known {} args).map make) ∧
      (∀ p, (make p).IsQuiet ↔ p.common.verbose = false) ∧
      ∀ b p, make (p.withVerbose b) = (make p).withVerbose b := by
  rcases hname with rfl | rfl
  · exact ⟨true, fun p => .generate (p.common.orSource source) p.stdout,
      fun _ => parse_generate, fun _ => Iff.rfl, fun _ _ => rfl⟩
  · exact ⟨false, fun p => .check (p.common.orSource source), fun _ => parse_check,
      fun _ => Iff.rfl, fun _ _ => rfl⟩

/-- **Without the flag the same is asked for**, but to be told more. -/
theorem parse_of_parse_verbose (hname : IsCompiling name) (hflag : IsVerboseFlag flag)
    {command : Command}
    (h : parse (name :: (before ++ flag :: args)) source = .ok command) :
    ∃ quiet, parse (name :: (before ++ args)) source = .ok quiet ∧ quiet.IsQuiet ∧
      command = quiet.withVerbose true := by
  obtain ⟨known, make, hparse, hiff, hmake⟩ := exists_parse_eq hname source
  rw [hparse] at h ⊢
  obtain ⟨q, hq, rfl⟩ := Traversal.exists_ok_of_map h
  obtain ⟨r, hr, hquiet, rfl⟩ := Progress.takeAll_of_takeAll_flag hflag hq
  rw [hr]
  exact ⟨make r, rfl, (hiff r).2 hquiet, hmake true r⟩

/-- **The flag in front of the other arguments**: it asks to be told more, if that is not asked for
already, and leaves refused arguments refused. -/
theorem parse_verbose (hname : IsCompiling name) (hflag : IsVerboseFlag flag) :
    (∃ quiet, parse (name :: args) source = .ok quiet ∧ quiet.IsQuiet ∧
      parse (name :: flag :: args) source = .ok (quiet.withVerbose true)) ∨
    (∃ e, parse (name :: args) source = .error e ∧
      parse (name :: flag :: args) source = .error e) ∨
    (∀ quiet, parse (name :: args) source = .ok quiet → ¬ quiet.IsQuiet) ∧
      parse (name :: flag :: args) source = .error .argumentConflict := by
  obtain ⟨known, make, hparse, hiff, hmake⟩ := exists_parse_eq hname source
  have hflags : Progress.takeAll known {} (flag :: args) =
      Progress.takeAll known (Progress.withVerbose true {}) args :=
    Progress.takeAll_flag hflag
  have hbehind : Progress.Behind (Progress.takeAll known {} args)
      (Progress.takeAll known {} (flag :: args)) := by
    rw [hflags]
    exact Progress.behind_takeAll rfl
  rw [hparse, hparse]
  generalize Progress.takeAll known {} args = x at hbehind
  generalize Progress.takeAll known {} (flag :: args) = y at hbehind
  cases hbehind with
  | set hp => exact .inl ⟨_, rfl, (hiff _).2 hp, congrArg Except.ok (hmake true _)⟩
  | refused e => exact .inr (.inl ⟨e, rfl, rfl⟩)
  | twice hr =>
    refine .inr (.inr ⟨fun quiet hquiet => ?_, rfl⟩)
    obtain ⟨p, hp, rfl⟩ := Traversal.exists_ok_of_map hquiet
    rw [hiff, hr p hp]
    nofun

end Phrasebook.CommandLine
