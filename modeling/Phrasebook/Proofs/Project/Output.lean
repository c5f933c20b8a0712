import Phrasebook.Project.Commands
import Phrasebook.Proofs.WellFormed

/-!
# Writing the module

The folders around the output are made, and then the module is written. `adds_of_writeOutput` says
all that this can change, and `writeOutput_eq_ok_iff` when it succeeds: the path of the output has
to end with a name, without a file on its way and without a folder at its end.
-/

namespace Phrasebook.Workspace

open FileTree Move

variable {w w' w₁ : Workspace} {output q : Path} {text : String} {l : Location} {qs : List Path}
  {ms : List Move} {absolute : Bool}

/-! ## What writing changes -/

/-- If the nearest folder around a path has no path of its own, neither have the others. -/
theorem around_of_tail_eq {p parent : Path} {farther : List Path}
    (h : p.ancestors.tail = parent :: farther) (hp : parent.text = "") : p.around = [] := by
  obtain ⟨empty, htail, -, hleads⟩ := p.exists_around
  cases hq : p.around with
  | nil => rfl
  | cons q qs =>
    rw [h, hq] at htail
    obtain ⟨rfl, -⟩ := List.cons.inj htail
    exact absurd hp (hleads.text_ne parent (hq ▸ List.mem_cons_self))

theorem exists_writeOutput_eq (output : Path) (text : String) :
    ∃ folder, ∀ w : Workspace, w.writeOutput output text =
      match w.makeFolders output.around with
      | (w, .error e) => (w, .error (.makeOutputFolder folder e))
      | (w, .ok ()) =>
        match w.write output text.toUTF8 with
        | .ok w => (w, .ok ())
        | .error e => (w, .error (.writeOutput output e)) := by
  unfold writeOutput
  cases ha : output.ancestors.tail with
  | nil =>
    have hnone : output.around = [] := by rw [Path.around, ha]; rfl
    rw [hnone]
    exact ⟨output, fun _ => rfl⟩
  | cons parent farther =>
    refine ⟨parent, fun w => ?_⟩
    dsimp only
    by_cases hp : parent.text = ""
    · rw [if_pos hp, around_of_tail_eq ha hp]
      rfl
    · have haround : (parent :: farther).filter (·.text ≠ "") = output.around := by
        rw [Path.around, ha]
      rw [if_neg hp, haround]
      rcases w.makeFolders output.around with ⟨w₁, _ | _⟩ <;> rfl

theorem writeOutput_cases (w : Workspace) (output : Path) (text : String) :
    (∃ w₁ l, w.makeFolders output.around = (w₁, .ok ()) ∧ w₁.locate output = .ok l ∧
        w₁.tree.node? l ≠ some .folder ∧
        w.writeOutput output text =
          ({ w₁ with tree := w₁.tree.put l (.file text.toUTF8) }, .ok ())) ∨
      ∃ w₁ f, AddsFolders output.around w w₁ ∧ w.writeOutput output text = (w₁, .error f) := by
  obtain ⟨folder, heq⟩ := exists_writeOutput_eq output text
  have hadds := addsFolders_makeFolders w output.around
  rw [heq]
  rcases hm : w.makeFolders output.around with ⟨w₁, e | _⟩ <;> rw [hm] at hadds
  · exact .inr ⟨w₁, _, hadds, rfl⟩
  · dsimp only
    cases hw : w₁.write output text.toUTF8 with
    | error e => exact .inr ⟨w₁, _, hadds, rfl⟩
    | ok w' =>
      obtain ⟨-, l, hl, hn, rfl⟩ := write_eq_ok_iff.1 hw
      exact .inl ⟨w₁, l, rfl, hl, hn, rfl⟩

/-- The second workspace has a file at the end of a path where no folder was, perhaps folders more
around it, and otherwise what the first has. -/
structure AddsFile (output : Path) (content : ByteArray) (w w' : Workspace) : Prop where
  here_eq : w'.here = w.here
  raw_eq : w'.tree.raw = w.tree.raw
  keys_prefix : w.tree.nodes.keys <+: w'.tree.nodes.keys
  free : w.tree.node? (w.target output) ≠ some .folder
  locate_eq : w'.locate output = .ok (w.target output)
  node?_target : w'.tree.node? (w.target output) = some (.file content)
  node?_cases : ∀ l ≠ w.target output, w'.tree.node? l = w.tree.node? l ∨
    w.tree.node? l = none ∧ w'.tree.node? l = some .folder ∧
      ∃ p ∈ output.around, w'.locate p = .ok l

theorem AddsFile.keepsFolders {content : ByteArray} (h : AddsFile output content w w') :
    KeepsFolders w.tree w'.tree := by
  intro l hl
  rcases h.node?_cases l fun he => h.free (he ▸ hl) with hsame | ⟨hnone, -, -⟩
  · rw [hsame, hl]
  · rw [hl] at hnone
    cases hnone

theorem addsFile_put {content : ByteArray} (hadds : AddsFolders output.around w w₁)
    (hl : w₁.locate output = .ok l) (hn : w₁.tree.node? l ≠ some .folder) :
    AddsFile output content w { w₁ with tree := w₁.tree.put l (.file content) } := by
  have hne : l ≠ [] := ne_nil_of_node?_ne hn
  have htarget : w.target output = l := by
    rw [← target_of_here hadds.here_eq]
    exact (locate_eq_ok_iff.1 hl).2.2
  have hkeep : KeepsFolders w₁.tree (w₁.tree.put l (.file content)) := keepsFolders_put hne hn
  subst htarget
  refine ⟨hadds.here_eq, hadds.raw_eq, ?_, fun hf => hn (hadds.keepsFolders _ hf),
    locate_of_keepsFolders (w := w₁) rfl hkeep hl, by simp [node?_put hne], fun x hx => ?_⟩
  · exact hadds.keys_prefix.trans (keys_prefix_put _ _ _)
  · show (w₁.tree.put _ _).node? x = _ ∨ _
    rw [node?_put hne, if_neg hx]
    exact (hadds.node?_cases x).imp_right fun ⟨hnone, hf, p, hp, hlp⟩ =>
      ⟨hnone, hf, p, hp, locate_of_keepsFolders (w := w₁) rfl hkeep hlp⟩

/-- **What writing the module changes.** If it succeeds, the module stands at the end of its path,
and at most folders around it have been added. If it fails, at most these have been added. -/
theorem adds_of_writeOutput (w : Workspace) (output : Path) (text : String) :
    (w.writeOutput output text).2 = .ok () ∧
        AddsFile output text.toUTF8 w (w.writeOutput output text).1 ∨
      ∃ f, (w.writeOutput output text).2 = .error f ∧
        AddsFolders output.around w (w.writeOutput output text).1 := by
  rcases writeOutput_cases w output text with ⟨w₁, l, hw₁, hl, hn, heq⟩ | ⟨w₁, f, hadds, heq⟩
  · have hadds := addsFolders_makeFolders w output.around
    rw [hw₁] at hadds
    rw [heq]
    exact .inl ⟨rfl, addsFile_put hadds hl hn⟩
  · rw [heq]
    exact .inr ⟨f, rfl, hadds⟩

theorem WellFormed.writeOutput (h : w.WellFormed) : (w.writeOutput output text).1.WellFormed := by
  obtain ⟨folder, heq⟩ := exists_writeOutput_eq output text
  have hmade := h.makeFolders output.around
  rw [heq]
  rcases hm : w.makeFolders output.around with ⟨w₁, e | _⟩ <;> rw [hm] at hmade
  · exact hmade
  · dsimp only
    cases hw : w₁.write output text.toUTF8 with
    | error e => exact hmade
    | ok w' => exact hmade.write hw

/-! ## When writing succeeds -/

/-- A file can be put at the end of a path once the folders around it have been made. -/
structure Admits (w : Workspace) (p : Path) : Prop where
  /-- The path ends with a name. -/
  named : ∃ name, p.moves.getLast? = some (.down name)
  /-- There is no file where there has to be a folder. -/
  clear : ∀ x ∈ passed (w.origin p.isAbsolute) p.way, ∀ content,
    w.tree.node? x ≠ some (.file content)
  /-- The end is not one of the folders on the way. -/
  apart : w.target p ∉ passed (w.origin p.isAbsolute) p.way
  free : w.tree.node? (w.target p) ≠ some .folder

/-- Paths that lead along a way end on it. -/
theorem mem_passed_of_leads (hleads : Path.Leads absolute qs ms) (hq : q ∈ qs)
    (hl : w.locate q = .ok l) :
    l ∈ passed (w.origin absolute) ms ++ [destination (w.origin absolute) ms] := by
  induction hleads with
  | nil => cases hq
  | @cons q' qs m ms hleads habs hne hfollow ih =>
    rw [passed_concat]
    rcases List.mem_cons.1 hq with rfl | hq
    · rw [locate_eq hne, habs, hfollow, follow_eq_ok_iff] at hl
      rw [← hl.2]
      exact List.mem_append_right _ (List.mem_singleton_self _)
    · exact List.mem_append_left _ (ih hq)

theorem locate_eq_follow_way {name : String} (h : output.moves.getLast? = some (.down name)) :
    w.locate output = w.tree.follow (w.origin output.isAbsolute) output.way := by
  have hne := Path.text_ne_of_getLast?_moves h
  rw [locate_eq hne, Path.follow_moves hne (by rw [h]; nofun)]

/-- **The module can be written exactly if its path admits a file.** -/
theorem writeOutput_eq_ok_iff (text : String) (h : w.WellFormed) :
    (w.writeOutput output text).2 = .ok () ↔ w.Admits output := by
  have hadds := addsFolders_makeFolders w output.around
  have hmake := makeFolders_of_leads (w := w) output.way_around (h.origin _)
  constructor
  · intro hok
    rcases writeOutput_cases w output text with ⟨w₁, l, hw₁, hl, hn, -⟩ | ⟨w₁, f, -, herror⟩
    · have hwf := h.makeFolders output.around
      rw [hw₁] at hadds hwf hmake
      obtain ⟨-, name, -, -, -, hlast⟩ := exists_concat_of_locate hwf hl hn
      have hne := Path.text_ne_of_getLast?_moves hlast
      have htarget : w.target output = l := by
        rw [← target_of_here hadds.here_eq]
        exact (locate_eq_ok_iff.1 hl).2.2
      rcases hmake with ⟨-, hmade⟩ | ⟨hnot, -⟩
      · rw [IsMade, ← Path.passed_way hne] at hmade
        refine ⟨⟨name, hlast⟩, fun x hx c hc => ?_, fun hmem => hn ?_, fun hf => hn ?_⟩
        · have hfolder := hmade x hx
          rw [hadds.node?_file_iff.2 hc] at hfolder
          cases hfolder
        · exact htarget ▸ hmade _ hmem
        · exact hadds.keepsFolders l (htarget ▸ hf)
      · exact absurd rfl hnot
    · rw [herror] at hok
      cases hok
  · rintro ⟨⟨name, hlast⟩, hclear, hapart, hfree⟩
    have hne := Path.text_ne_of_getLast?_moves hlast
    rw [IsMade, IsClear, ← Path.passed_way hne] at hmake
    rcases hmake with ⟨hok, hmade⟩ | ⟨-, hfile⟩
    · rcases hw₁ : w.makeFolders output.around with ⟨w₁, r⟩
      rw [hw₁] at hok hmade hadds
      cases hok
      have hl : w₁.locate output = .ok (w.target output) := by
        rw [locate_eq_follow_way hlast, follow_eq_ok_iff, origin_of_here hadds.here_eq]
        exact ⟨hmade, Path.destination_way hne _⟩
      have hn : w₁.tree.node? (w.target output) ≠ some .folder := by
        rcases hadds.node?_cases (w.target output) with hsame | ⟨-, -, q, hq, hlq⟩
        · rw [hsame]
          exact hfree
        · -- a folder that was made is on the way
          have hmem := mem_passed_of_leads output.way_around hq hlq
          rw [← Path.passed_way hne, origin_of_here hadds.here_eq] at hmem
          exact absurd hmem hapart
      have hslash : output.text.toList.getLast? ≠ some '/' := by
        intro hs
        rw [Path.getLast?_moves_of_slash hs] at hlast
        cases hlast
      have hwrite : w₁.write output text.toUTF8 = .ok
          { w₁ with tree := w₁.tree.put (w.target output) (.file text.toUTF8) } :=
        write_eq_ok_iff.2 ⟨hslash, _, hl, hn, rfl⟩
      obtain ⟨folder, heq⟩ := exists_writeOutput_eq output text
      rw [heq, hw₁]
      dsimp only
      rw [hwrite]
    · exact absurd hclear hfile

end Phrasebook.Workspace
