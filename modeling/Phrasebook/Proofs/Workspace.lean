import Phrasebook.Proofs.Path

/-!
# Making folders and writing files

Making folders adds folders where there was nothing and changes nothing else
(`addsFolders_makeFolders`). The folders that lead along a way can be made exactly if there is no
file on it (`makeFolders_of_leads`). A file is written exactly at the end of its path, where there
must not be a folder (`write_eq_ok_iff`).
-/

namespace Phrasebook.Workspace

open FileTree Move

/-- Where paths start: at the root or in the working folder. -/
def origin (w : Workspace) (absolute : Bool) : Location := if absolute then [] else w.here

/-- The location that a path names, whether it can be reached or not. -/
def target (w : Workspace) (p : Path) : Location := destination (w.origin p.isAbsolute) p.moves

variable {w w' w'' : Workspace} {p q : Path} {ps qs : List Path} {l : Location}
  {content : ByteArray} {absolute : Bool} {ms : List Move}

/-! ## Locating -/

theorem locate_eq (h : p.text ≠ "") :
    w.locate p = w.tree.follow (w.origin p.isAbsolute) p.moves := if_neg h

theorem text_ne_of_locate (h : w.locate p = .ok l) : p.text ≠ "" := by
  intro he
  rw [locate, if_pos he] at h
  cases h

theorem locate_eq_ok_iff :
    w.locate p = .ok l ↔
      p.text ≠ "" ∧ (∀ x ∈ passed (w.origin p.isAbsolute) p.moves, w.tree.node? x = some .folder) ∧
        w.target p = l := by
  by_cases h : p.text = ""
  · simp [locate, h]
  · rw [locate_eq h, follow_eq_ok_iff, and_iff_right h]
    rfl

theorem origin_of_here (h : w'.here = w.here) : w'.origin absolute = w.origin absolute := by
  rw [origin, origin, h]

theorem target_of_here (h : w'.here = w.here) : w'.target p = w.target p := by
  rw [target, target, origin_of_here h]

theorem locate_of_keepsFolders (hhere : w'.here = w.here) (h : KeepsFolders w.tree w'.tree)
    (hl : w.locate p = .ok l) : w'.locate p = .ok l := by
  have hne := text_ne_of_locate hl
  rw [locate_eq hne] at hl ⊢
  rw [origin_of_here hhere]
  exact follow_of_keepsFolders h hl

/-! ## Reading and writing -/

theorem read_eq_ok_iff :
    w.read p = .ok content ↔ ∃ l, w.locate p = .ok l ∧ w.tree.node? l = some (.file content) := by
  unfold read
  cases w.locate p with
  | error e => simp [bind, Except.bind]
  | ok l =>
    rcases hn : w.tree.node? l with _ | _ | c <;>
      simp [bind, Except.bind, pure, Except.pure, throw, throwThe, MonadExceptOf.throw, hn]

theorem read_eq_notFound_iff :
    w.read p = .error .notFound ↔
      w.locate p = .error .notFound ∨ ∃ l, w.locate p = .ok l ∧ w.tree.node? l = none := by
  unfold read
  cases w.locate p with
  | error e => simp [bind, Except.bind]
  | ok l =>
    rcases hn : w.tree.node? l with _ | _ | c <;>
      simp [bind, Except.bind, pure, Except.pure, throw, throwThe, MonadExceptOf.throw, hn]

theorem fromUTF8?_eq_some_iff {text : String} :
    String.fromUTF8? content = some text ↔ content = text.toUTF8 := by
  unfold String.fromUTF8?
  split
  · rename_i hvalid
    rw [Option.some.injEq, ← String.toByteArray_inj]
    rfl
  · rename_i hinvalid
    refine ⟨nofun, fun h => absurd ?_ hinvalid⟩
    rw [h]
    exact text.isValidUTF8

theorem readText_eq_ok_iff {text : String} :
    w.readText p = .ok text ↔ w.read p = .ok text.toUTF8 := by
  unfold readText
  cases w.read p with
  | error e => simp [bind, Except.bind]
  | ok content =>
    rw [Except.ok.injEq, ← fromUTF8?_eq_some_iff]
    cases ht : String.fromUTF8? content <;>
      simp [bind, Except.bind, pure, Except.pure, throw, throwThe, MonadExceptOf.throw, ht]

/-- A file cannot be read as text if it cannot be read, or if it is not text. -/
theorem readText_eq_error_iff {e : FileError} :
    w.readText p = .error e ↔ w.read p = .error e ∨
      e = .invalidData ∧ ∃ content, w.read p = .ok content ∧ String.fromUTF8? content = none := by
  unfold readText
  cases w.read p with
  | error e' => simp [bind, Except.bind]
  | ok content =>
    cases ht : String.fromUTF8? content <;>
      simp [bind, Except.bind, pure, Except.pure, throw, throwThe, MonadExceptOf.throw, ht, eq_comm]

theorem write_of_withoutSlashes_eq (h : p.withoutSlashes = p) :
    w.write p content = w.locate p >>= fun l =>
      if w.tree.node? l = some .folder then .error .isADirectory
      else .ok { w with tree := w.tree.put l (.file content) } := by
  refine (if_pos h).trans ?_
  cases w.locate p with
  | error e => rfl
  | ok l =>
    dsimp only [bind, Except.bind]
    split <;> rfl

/-- A path that ends with a slash is looked up without it and then refused. -/
theorem write_of_withoutSlashes_ne (h : p.withoutSlashes ≠ p) :
    w.write p content =
      if p.withoutSlashes.text = "" then .error .isADirectory
      else w.locate p.withoutSlashes >>= fun _ => .error .isADirectory := if_neg h

/-- A file is written at the end of its path, unless there is a folder or the path ends with a
slash. -/
theorem write_eq_ok_iff :
    w.write p content = .ok w' ↔ p.text.toList.getLast? ≠ some '/' ∧
      ∃ l, w.locate p = .ok l ∧ w.tree.node? l ≠ some .folder ∧
        w' = { w with tree := w.tree.put l (.file content) } := by
  rw [← Path.withoutSlashes_eq_iff]
  by_cases hfile : p.withoutSlashes = p
  · rw [write_of_withoutSlashes_eq hfile, and_iff_right hfile]
    cases w.locate p with
    | error e => simp [bind, Except.bind]
    | ok l =>
      by_cases hn : w.tree.node? l = some .folder
      · simp [bind, Except.bind, hn]
      · simp [bind, Except.bind, hn, @eq_comm _ w']
  · rw [write_of_withoutSlashes_ne hfile]
    refine ⟨fun h => ?_, fun h => absurd h.1 hfile⟩
    split at h
    · cases h
    · revert h
      cases w.locate p.withoutSlashes <;> exact nofun

/-! ## One folder -/

theorem makeFolder_of_error {e : FileError} (h : w.locate p = .error e) :
    w.makeFolder p = .error e := by
  unfold makeFolder
  rw [h]
  rfl

theorem makeFolder_of_some {n : Node} (h : w.locate p = .ok l) (hn : w.tree.node? l = some n) :
    w.makeFolder p = .error .alreadyExists := by
  unfold makeFolder
  rw [h]
  dsimp only [bind, Except.bind]
  rw [hn]
  rfl

theorem makeFolder_of_none (h : w.locate p = .ok l) (hn : w.tree.node? l = none) :
    w.makeFolder p = .ok { w with tree := w.tree.put l .folder } := by
  unfold makeFolder
  rw [h]
  dsimp only [bind, Except.bind]
  rw [hn]
  rfl

/-- What keeps a folder from being made now is not that something before it is missing. -/
theorem makeFolder_eq_notFound_iff :
    w.makeFolder p = .error .notFound ↔ w.locate p = .error .notFound := by
  cases hl : w.locate p with
  | error e => simp [makeFolder_of_error hl]
  | ok l =>
    cases hn : w.tree.node? l with
    | none => simp [makeFolder_of_none hl hn]
    | some n => simp [makeFolder_of_some hl hn]

theorem isFolder_iff :
    w.isFolder p = true ↔ ∃ l, w.locate p = .ok l ∧ w.tree.node? l = some .folder := by
  unfold isFolder node?
  rw [decide_eq_true_iff]
  cases w.locate p <;> simp

/-! ## Folders added -/

/-- The second workspace has what the first has, and folders more at the ends of some paths. -/
structure AddsFolders (ps : List Path) (w w' : Workspace) : Prop where
  here_eq : w'.here = w.here
  raw_eq : w'.tree.raw = w.tree.raw
  keys_prefix : w.tree.nodes.keys <+: w'.tree.nodes.keys
  node?_cases : ∀ l, w'.tree.node? l = w.tree.node? l ∨
    w.tree.node? l = none ∧ w'.tree.node? l = some .folder ∧ ∃ p ∈ ps, w'.locate p = .ok l

namespace AddsFolders

theorem refl (ps : List Path) (w : Workspace) : AddsFolders ps w w :=
  ⟨rfl, rfl, List.prefix_rfl, fun _ => .inl rfl⟩

theorem keepsFolders (h : AddsFolders ps w w') : KeepsFolders w.tree w'.tree := by
  intro l hl
  rcases h.node?_cases l with he | ⟨_, hf, _⟩
  · rw [he, hl]
  · exact hf

theorem node?_file_iff (h : AddsFolders ps w w') :
    w'.tree.node? l = some (.file content) ↔ w.tree.node? l = some (.file content) := by
  rcases h.node?_cases l with he | ⟨hn, hf, _⟩
  · rw [he]
  · rw [hn, hf]
    exact ⟨nofun, nofun⟩

theorem trans (h : AddsFolders ps w w') (h' : AddsFolders ps w' w'') : AddsFolders ps w w'' := by
  refine ⟨h'.here_eq.trans h.here_eq, h'.raw_eq.trans h.raw_eq,
    h.keys_prefix.trans h'.keys_prefix, fun l => ?_⟩
  rcases h'.node?_cases l with he | ⟨hn, hf, hp⟩
  · rcases h.node?_cases l with he' | ⟨hn', hf', p, hp, hl⟩
    · exact .inl (he.trans he')
    · exact .inr ⟨hn', he.trans hf', p, hp, locate_of_keepsFolders h'.here_eq h'.keepsFolders hl⟩
  · rcases h.node?_cases l with he' | ⟨_, hf', _⟩
    · exact .inr ⟨he'.symm.trans hn, hf, hp⟩
    · rw [hf'] at hn
      cases hn

end AddsFolders

theorem addsFolders_put (h : w.locate p = .ok l) (hn : w.tree.node? l = none) (hp : p ∈ ps) :
    AddsFolders ps w { w with tree := w.tree.put l .folder } := by
  have hfolder : w.tree.node? l ≠ some .folder := by
    rw [hn]
    nofun
  have hne : l ≠ [] := ne_nil_of_node?_ne hfolder
  have hkeep : KeepsFolders w.tree (w.tree.put l .folder) := keepsFolders_put hne hfolder
  refine ⟨rfl, raw_put _ _ _, keys_prefix_put _ _ _, fun x => ?_⟩
  show (w.tree.put l .folder).node? x = _ ∨ _
  by_cases hx : x = l
  · subst hx
    exact .inr ⟨hn, by simp [node?_put hne], p, hp, locate_of_keepsFolders (w := w) rfl hkeep h⟩
  · left
    rw [node?_put hne, if_neg hx]

/-- Makes a folder unless it is there. -/
def ensureFolder (w : Workspace) (p : Path) : Workspace × Except FileError Unit :=
  match w.makeFolder p with
  | .ok w => (w, .ok ())
  | .error e => (w, if w.isFolder p then .ok () else .error e)

theorem makeFolders_cons_of_notFound (h : w.makeFolder p = .error .notFound) :
    w.makeFolders (p :: ps) =
      match w.makeFolders ps with
      | (w, .error e) => (w, .error e)
      | (w, .ok ()) => w.ensureFolder p := by
  rw [makeFolders, h]
  rfl

theorem makeFolders_cons (h : w.makeFolder p ≠ .error .notFound) :
    w.makeFolders (p :: ps) = w.ensureFolder p := by
  rw [makeFolders, ensureFolder]
  cases hm : w.makeFolder p with
  | ok w' => rfl
  | error e => cases e <;> first | rfl | exact absurd hm h

theorem ensureFolder_of_error {e : FileError} (h : w.locate p = .error e) :
    w.ensureFolder p = (w, .error e) := by
  have hf : w.isFolder p = false := by
    rw [Bool.eq_false_iff, ne_eq, isFolder_iff, h]
    rintro ⟨l, hl, _⟩
    cases hl
  rw [ensureFolder, makeFolder_of_error h]
  dsimp only
  rw [hf]
  rfl

theorem ensureFolder_of_none (h : w.locate p = .ok l) (hn : w.tree.node? l = none) :
    w.ensureFolder p = ({ w with tree := w.tree.put l .folder }, .ok ()) := by
  rw [ensureFolder, makeFolder_of_none h hn]

theorem ensureFolder_of_folder (h : w.locate p = .ok l) (hn : w.tree.node? l = some .folder) :
    w.ensureFolder p = (w, .ok ()) := by
  rw [ensureFolder, makeFolder_of_some h hn]
  dsimp only
  rw [isFolder_iff.2 ⟨l, h, hn⟩]
  rfl

theorem ensureFolder_of_file (h : w.locate p = .ok l) (hn : w.tree.node? l = some (.file content)) :
    w.ensureFolder p = (w, .error .alreadyExists) := by
  have hf : w.isFolder p = false := by
    rw [Bool.eq_false_iff, ne_eq, isFolder_iff, h]
    rintro ⟨l', hl', hn'⟩
    cases hl'
    rw [hn] at hn'
    cases hn'
  rw [ensureFolder, makeFolder_of_some h hn]
  dsimp only
  rw [hf]
  rfl

theorem addsFolders_ensureFolder (hp : p ∈ ps) : AddsFolders ps w (w.ensureFolder p).1 := by
  cases h : w.locate p with
  | error e =>
    rw [ensureFolder_of_error h]
    exact .refl _ _
  | ok l =>
    rcases hn : w.tree.node? l with _ | _ | c
    · rw [ensureFolder_of_none h hn]
      exact addsFolders_put h hn hp
    · rw [ensureFolder_of_folder h hn]
      exact .refl _ _
    · rw [ensureFolder_of_file h hn]
      exact .refl _ _

/-- What making each folder preserves, making all of them preserves. -/
theorem makeFolders_induction {P : Workspace → Prop}
    (hstep : ∀ w p, p ∈ ps → P w → P (w.ensureFolder p).1) (h : P w) : P (w.makeFolders ps).1 := by
  induction ps generalizing w with
  | nil => exact h
  | cons p ps ih =>
    by_cases hm : w.makeFolder p = .error .notFound
    · rw [makeFolders_cons_of_notFound hm]
      have hps := ih (fun w q hq => hstep w q (List.mem_cons_of_mem p hq)) h
      rcases hr : w.makeFolders ps with ⟨w', _ | _⟩
      · rw [hr] at hps
        exact hps
      · rw [hr] at hps
        exact hstep w' p List.mem_cons_self hps
    · rw [makeFolders_cons hm]
      exact hstep w p List.mem_cons_self h

/-- **Making folders adds folders**, whether all of them can be made or not. -/
theorem addsFolders_makeFolders (w : Workspace) (ps : List Path) :
    AddsFolders ps w (w.makeFolders ps).1 :=
  makeFolders_induction (P := AddsFolders ps w)
    (fun _ _ hp h => h.trans (addsFolders_ensureFolder hp)) (.refl ps w)

/-! ## Folders along a way -/

/-- There is no file on the way of some steps, nor at its end. -/
def IsClear (t : FileTree) (l : Location) (ms : List Move) : Prop :=
  ∀ x ∈ passed l ms ++ [destination l ms], ∀ content, t.node? x ≠ some (.file content)

/-- There are folders on the way of some steps and at its end. -/
def IsMade (t : FileTree) (l : Location) (ms : List Move) : Prop :=
  ∀ x ∈ passed l ms ++ [destination l ms], t.node? x = some .folder

theorem isMade_concat {t : FileTree} {m : Move} :
    IsMade t l (ms ++ [m]) ↔
      IsMade t l ms ∧ t.node? (m.apply (destination l ms)) = some .folder := by
  simp only [IsMade, passed_concat, destination_concat, List.forall_mem_append,
    List.forall_mem_singleton]

theorem isClear_concat {t : FileTree} {m : Move} :
    IsClear t l (ms ++ [m]) ↔
      IsClear t l ms ∧ ∀ c, t.node? (m.apply (destination l ms)) ≠ some (.file c) := by
  simp only [IsClear, passed_concat, destination_concat, List.forall_mem_append,
    List.forall_mem_singleton]

/-- The last of the folders along a way can be made if the ones before it are there. -/
theorem ensureFolder_of_isMade {m : Move}
    (hq : w.locate q = w.tree.follow (w.origin absolute) (ms ++ [m]))
    (hmade : IsMade w.tree (w.origin absolute) ms) :
    (w.ensureFolder q).2 = .ok () ∧
        IsMade (w.ensureFolder q).1.tree (w.origin absolute) (ms ++ [m]) ∨
      (w.ensureFolder q).2 ≠ .ok () ∧ ¬ IsClear w.tree (w.origin absolute) (ms ++ [m]) := by
  have hl : w.locate q = .ok (m.apply (destination (w.origin absolute) ms)) := by
    rw [hq, follow_eq_ok_iff, passed_concat, destination_concat]
    exact ⟨hmade, rfl⟩
  rw [isMade_concat, isClear_concat]
  rcases hn : w.tree.node? (m.apply (destination (w.origin absolute) ms)) with _ | _ | c
  · have hadds := addsFolders_put hl hn (List.mem_singleton_self q)
    have hne : m.apply (destination (w.origin absolute) ms) ≠ [] :=
      ne_nil_of_node?_ne (by rw [hn]; nofun)
    rw [ensureFolder_of_none hl hn]
    exact .inl ⟨rfl, fun x hx => hadds.keepsFolders x (hmade x hx), by simp [node?_put hne]⟩
  · rw [ensureFolder_of_folder hl hn]
    exact .inl ⟨rfl, hmade, hn⟩
  · rw [ensureFolder_of_file hl hn]
    exact .inr ⟨nofun, fun h => h.2 c rfl⟩

/-- **Folders are made along a way exactly if it is clear.** -/
theorem makeFolders_of_leads (hleads : Path.Leads absolute qs ms)
    (hw : w.tree.node? (w.origin absolute) = some .folder) :
    (w.makeFolders qs).2 = .ok () ∧ IsMade (w.makeFolders qs).1.tree (w.origin absolute) ms ∨
      (w.makeFolders qs).2 ≠ .ok () ∧ ¬ IsClear w.tree (w.origin absolute) ms := by
  induction hleads with
  | nil => exact .inl ⟨rfl, by simpa [IsMade, passed, makeFolders] using hw⟩
  | @cons q qs m ms hleads habs hne hfollow ih =>
    have hq : ∀ w' : Workspace, w'.here = w.here →
        w'.locate q = w'.tree.follow (w'.origin absolute) (ms ++ [m]) := by
      intro w' hhere
      rw [locate_eq hne, habs, hfollow]
    cases hl : w.locate q with
    | ok l =>
      -- all that is passed is there already
      have hmade := (follow_eq_ok_iff.1 ((hq w rfl).symm.trans hl)).1
      rw [passed_concat] at hmade
      rw [makeFolders_cons (by simp [makeFolder_eq_notFound_iff, hl])]
      exact ensureFolder_of_isMade (hq w rfl) hmade
    | error e =>
      rcases follow_eq_error ((hq w rfl).symm.trans hl) with ⟨rfl, x, hx, c, hc⟩ | ⟨rfl, -⟩
      · rw [makeFolders_cons (by simp [makeFolder_eq_notFound_iff, hl]), ensureFolder_of_error hl]
        refine .inr ⟨by simp, fun hclear => ?_⟩
        exact hclear x (List.mem_append_left _ hx) c hc
      · -- the folders before it are made first
        rw [makeFolders_cons_of_notFound (makeFolder_of_error hl)]
        have hadds := addsFolders_makeFolders w qs
        rcases hm : w.makeFolders qs with ⟨w', e | _⟩
        · rw [hm] at ih
          rcases ih with ⟨hok, -⟩ | ⟨-, hfile⟩
          · cases hok
          · exact .inr ⟨by simp, fun hclear => hfile (isClear_concat.1 hclear).1⟩
        · rw [hm] at ih hadds
          rcases ih with ⟨-, hmade⟩ | ⟨hok, -⟩
          · rw [← origin_of_here hadds.here_eq] at hmade ⊢
            refine (ensureFolder_of_isMade (hq w' hadds.here_eq) hmade).imp_right
              (And.imp_right fun hfile hclear => hfile fun x hx c hc => ?_)
            exact hclear x hx c (hadds.node?_file_iff.1 hc)
          · exact absurd rfl hok

end Phrasebook.Workspace
