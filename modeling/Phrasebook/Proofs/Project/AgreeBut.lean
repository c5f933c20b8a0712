import Phrasebook.Proofs.Project.Output

/-!
# Workspaces that agree but for one location

Two workspaces agree but for a location if the only difference is what stands there, which is not a
folder in either (`AgreeBut`). A path that does not lead through the location then leads to the same
in both (`AgreeBut.locate_eq`), and writing the module at its end comes to the same and leaves
workspaces that agree again (`AgreeBut.writeOutput`).
-/

namespace Phrasebook

open FileTree Move

namespace Workspace

/-- A path leads through a location as through a folder. -/
def LeadsThrough (w : Workspace) (p : Path) (k : Location) : Prop :=
  k ∈ passed (w.origin p.isAbsolute) p.moves

instance (w : Workspace) (p : Path) (k : Location) : Decidable (w.LeadsThrough p k) :=
  inferInstanceAs (Decidable (_ ∈ _))

variable {w w' : Workspace} {k l : Location} {p q output : Path} {ms : List Move} {n : Node}
  {content : ByteArray} {text : String} {absolute : Bool} {qs : List Path}

theorem LeadsThrough.append_slash {rest : String} (hne : q.text ≠ "") (h : w.LeadsThrough q k) :
    w.LeadsThrough ⟨q.text ++ "/" ++ rest⟩ k := by
  have habs : (⟨q.text ++ "/" ++ rest⟩ : Path).isAbsolute = q.isAbsolute := by
    rw [String.append_assoc]
    exact Path.isAbsolute_append hne
  rw [LeadsThrough, habs, Path.moves_append_slash, passed_append]
  exact List.mem_append_left _ h

/-- Workspaces that differ at most in what stands at a location, where neither has a folder. -/
structure AgreeBut (k : Location) (w w' : Workspace) : Prop where
  here_eq : w'.here = w.here
  raw_eq : w'.tree.raw = w.tree.raw
  node?_eq : ∀ l ≠ k, w'.tree.node? l = w.tree.node? l
  free_left : w.tree.node? k ≠ some .folder
  free_right : w'.tree.node? k ≠ some .folder

/-- Workspaces that agree but for a location, with the same result. -/
structure SameResult {α : Type} (k : Location) (r r' : Workspace × α) : Prop where
  agree : AgreeBut k r.1 r'.1
  result_eq : r'.2 = r.2

theorem SameResult.map {α β : Type} {r r' : Workspace × α} (h : SameResult k r r') (f : α → β) :
    SameResult k (r.1, f r.2) (r'.1, f r'.2) := ⟨h.agree, congrArg f h.result_eq⟩

namespace AgreeBut

/-! ## Where paths lead -/

theorem node?_folder_iff (h : AgreeBut k w w') :
    w'.tree.node? l = some .folder ↔ w.tree.node? l = some .folder := by
  by_cases hl : l = k
  · rw [hl]
    exact iff_of_false h.free_right h.free_left
  · rw [h.node?_eq l hl]

theorem locate_eq_ok_iff (h : AgreeBut k w w') : w'.locate p = .ok l ↔ w.locate p = .ok l := by
  rw [Workspace.locate_eq_ok_iff, Workspace.locate_eq_ok_iff, origin_of_here h.here_eq,
    target_of_here h.here_eq]
  simp only [h.node?_folder_iff]

/-- Paths that do not lead to the location lead to the same things, if they lead to anything. -/
theorem node?_path_eq (h : AgreeBut k w w') (hk : w.locate p ≠ .ok k) :
    w'.node? p = w.node? p := by
  rw [node?, node?]
  cases hl : w.locate p with
  | ok l =>
    rw [h.locate_eq_ok_iff.2 hl]
    exact h.node?_eq l fun he => hk (he ▸ hl)
  | error e =>
    cases hl' : w'.locate p with
    | ok l =>
      rw [h.locate_eq_ok_iff.1 hl'] at hl
      cases hl
    | error e' => rfl

theorem follow_eq (h : AgreeBut k w w') (hk : k ∉ passed l ms) :
    w'.tree.follow l ms = w.tree.follow l ms := by
  induction ms generalizing l with
  | nil => rfl
  | cons m ms ih =>
    rw [passed, List.mem_cons, not_or] at hk
    rw [follow_cons, follow_cons, h.node?_eq l (Ne.symm hk.1), ih hk.2]

/-- **A path that does not lead through the location leads to the same.** -/
theorem locate_eq (h : AgreeBut k w w') (hp : ¬ w.LeadsThrough p k) :
    w'.locate p = w.locate p := by
  by_cases hne : p.text = ""
  · rw [locate, locate, if_pos hne, if_pos hne]
  · rw [Workspace.locate_eq hne, Workspace.locate_eq hne, origin_of_here h.here_eq,
      h.follow_eq hp]

theorem readText_eq (h : AgreeBut k w w') (hp : ¬ w.LeadsThrough p k) (hk : w.locate p ≠ .ok k) :
    w'.readText p = w.readText p := by
  have hread : w'.read p = w.read p := by
    rw [read, read, h.locate_eq hp]
    cases hl : w.locate p with
    | error e => rfl
    | ok l =>
      dsimp only [bind, Except.bind]
      rw [h.node?_eq l fun he => hk (he ▸ hl)]
  rw [readText, readText, hread]

/-! ## Writing -/

theorem put (h : AgreeBut k w w') (hl : l ≠ []) (hn : l = k → n ≠ .folder) :
    AgreeBut k { w with tree := w.tree.put l n } { w' with tree := w'.tree.put l n } := by
  have hfree : ∀ t : FileTree, t.node? k ≠ some .folder → (t.put l n).node? k ≠ some .folder := by
    intro t ht
    rw [node?_put hl]
    split
    · rename_i hk
      exact fun he => hn hk.symm (Option.some.inj he)
    · exact ht
  refine ⟨h.here_eq, h.raw_eq, fun x hx => ?_, hfree _ h.free_left, hfree _ h.free_right⟩
  rw [node?_put hl, node?_put hl, h.node?_eq x hx]

theorem ensureFolder (h : AgreeBut k w w') (hq : w'.locate q = w.locate q)
    (hk : w.locate q ≠ .ok k) : SameResult k (w.ensureFolder q) (w'.ensureFolder q) := by
  cases hl : w.locate q with
  | error e =>
    rw [ensureFolder_of_error hl, ensureFolder_of_error (hq.trans hl)]
    exact ⟨h, rfl⟩
  | ok l =>
    have hl' := hq.trans hl
    have hlk : l ≠ k := fun he => hk (he ▸ hl)
    have hsame := h.node?_eq l hlk
    rcases hn : w.tree.node? l with _ | _ | c
    · have hne : l ≠ [] := ne_nil_of_node?_ne (by rw [hn]; simp)
      rw [ensureFolder_of_none hl hn, ensureFolder_of_none hl' (hsame.trans hn)]
      exact ⟨h.put hne fun he => absurd he hlk, rfl⟩
    · rw [ensureFolder_of_folder hl hn, ensureFolder_of_folder hl' (hsame.trans hn)]
      exact ⟨h, rfl⟩
    · rw [ensureFolder_of_file hl hn, ensureFolder_of_file hl' (hsame.trans hn)]
      exact ⟨h, rfl⟩

/-- The folders along a way that does not lead to the location are made in both. -/
theorem makeFolders (h : AgreeBut k w w') (hleads : Path.Leads absolute qs ms)
    (hk : k ∉ passed (w.origin absolute) ms ++ [destination (w.origin absolute) ms]) :
    SameResult k (w.makeFolders qs) (w'.makeFolders qs) := by
  induction hleads with
  | nil => exact ⟨h, rfl⟩
  | @cons q qs m ms hleads habs hne hfollow ih =>
    rw [passed_concat, List.mem_append, not_or] at hk
    obtain ⟨hbefore, hlast⟩ := hk
    have hq : ∀ w₁ : Workspace, w₁.here = w.here →
        w₁.locate q = w₁.tree.follow (w.origin absolute) (ms ++ [m]) := by
      intro w₁ hhere
      rw [Workspace.locate_eq hne, habs, hfollow, origin_of_here hhere]
    -- what leads to the folder is the same in any two workspaces that agree
    have hstep : ∀ {w₁ w₂ : Workspace}, w₁.here = w.here → AgreeBut k w₁ w₂ →
        w₂.locate q = w₁.locate q ∧ w₁.locate q ≠ .ok k := by
      intro w₁ w₂ hhere h₁
      rw [hq w₁ hhere, hq w₂ (h₁.here_eq.trans hhere)]
      refine ⟨h₁.follow_eq (by rw [passed_concat]; exact hbefore), fun hl => hlast ?_⟩
      rw [← (follow_eq_ok_iff.1 hl).2]
      exact List.mem_singleton_self _
    obtain ⟨hlocate, hqk⟩ := hstep rfl h
    by_cases hm : w.locate q = .error .notFound
    · rw [makeFolders_cons_of_notFound (makeFolder_of_error hm),
        makeFolders_cons_of_notFound (makeFolder_of_error (hlocate.trans hm))]
      have hqs := ih hbefore
      have hhere := (addsFolders_makeFolders w qs).here_eq
      rcases hw : w.makeFolders qs with ⟨w₁, e | _⟩ <;>
        rcases hw' : w'.makeFolders qs with ⟨w₂, e' | _⟩ <;> rw [hw, hw'] at hqs <;>
        rw [hw] at hhere <;> obtain ⟨hagree, heq⟩ := hqs <;> cases heq
      · exact ⟨hagree, rfl⟩
      · obtain ⟨hlocate₁, hqk₁⟩ := hstep hhere hagree
        exact hagree.ensureFolder hlocate₁ hqk₁
    · rw [makeFolders_cons (mt makeFolder_eq_notFound_iff.1 hm),
        makeFolders_cons (mt makeFolder_eq_notFound_iff.1 (hlocate ▸ hm))]
      exact h.ensureFolder hlocate hqk

/-- Writing one file comes to the same, wherever it is but behind the location. -/
theorem write (h : AgreeBut k w w') (hp : ¬ w.LeadsThrough p k) (content : ByteArray) :
    (∃ e, w.write p content = .error e ∧ w'.write p content = .error e) ∨
      ∃ w₁ w₂, w.write p content = .ok w₁ ∧ w'.write p content = .ok w₂ ∧ AgreeBut k w₁ w₂ := by
  by_cases hs : p.withoutSlashes = p
  · rw [write_of_withoutSlashes_eq hs, write_of_withoutSlashes_eq hs, h.locate_eq hp]
    cases hl : w.locate p with
    | error e => exact .inl ⟨e, rfl, rfl⟩
    | ok l =>
      dsimp only [bind, Except.bind]
      by_cases hn : w.tree.node? l = some .folder
      · rw [if_pos hn, if_pos (h.node?_folder_iff.2 hn)]
        exact .inl ⟨_, rfl, rfl⟩
      · rw [if_neg hn, if_neg (mt h.node?_folder_iff.1 hn)]
        exact .inr ⟨_, _, rfl, rfl, h.put (ne_nil_of_node?_ne hn) fun _ => by simp⟩
  · rw [write_of_withoutSlashes_ne hs, write_of_withoutSlashes_ne hs]
    by_cases hne : p.withoutSlashes.text = ""
    · rw [if_pos hne, if_pos hne]
      exact .inl ⟨_, rfl, rfl⟩
    · obtain ⟨rest, hrest⟩ := Path.exists_eq_withoutSlashes_append hs
      have hfile : ¬ w.LeadsThrough p.withoutSlashes k := fun hthrough =>
        hp (Eq.subst (motive := (w.LeadsThrough · k)) hrest.symm (hthrough.append_slash hne))
      rw [if_neg hne, if_neg hne, h.locate_eq hfile]
      cases w.locate p.withoutSlashes with
      | error e => exact .inl ⟨e, rfl, rfl⟩
      | ok l => exact .inl ⟨.isADirectory, rfl, rfl⟩

theorem makeFolders_around (h : AgreeBut k w w') (hp : ¬ w.LeadsThrough output k) :
    SameResult k (w.makeFolders output.around) (w'.makeFolders output.around) := by
  by_cases hne : output.text = ""
  · obtain ⟨text⟩ := output
    subst hne
    exact ⟨h, rfl⟩
  · refine h.makeFolders output.way_around ?_
    rw [← Path.passed_way hne]
    exact fun hk => hp (Path.mem_passed_of_mem_way hne hk)

/-- **Writing the module comes to the same**, unless its path leads through the location. -/
theorem writeOutput (h : AgreeBut k w w') (hp : ¬ w.LeadsThrough output k) :
    SameResult k (w.writeOutput output text) (w'.writeOutput output text) := by
  have hfolders := h.makeFolders_around hp
  have hhere := (addsFolders_makeFolders w output.around).here_eq
  obtain ⟨folder, heq⟩ := exists_writeOutput_eq output text
  rw [heq, heq]
  rcases hw : w.makeFolders output.around with ⟨w₁, e | _⟩ <;>
    rcases hw' : w'.makeFolders output.around with ⟨w₂, e' | _⟩ <;> rw [hw, hw'] at hfolders <;>
    rw [hw] at hhere <;> obtain ⟨hagree, hresult⟩ := hfolders <;> cases hresult
  · exact ⟨hagree, rfl⟩
  · have hp₁ : ¬ w₁.LeadsThrough output k := by
      rw [LeadsThrough, origin_of_here hhere]
      exact hp
    dsimp only
    rcases hagree.write hp₁ text.toUTF8 with ⟨e, he, he'⟩ | ⟨w₃, w₄, hw₃, hw₄, hagree'⟩
    · rw [he, he']
      exact ⟨hagree, rfl⟩
    · rw [hw₃, hw₄]
      exact ⟨hagree', rfl⟩

end AgreeBut

end Workspace

end Phrasebook
