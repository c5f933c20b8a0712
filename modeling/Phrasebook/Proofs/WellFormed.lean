import Phrasebook.Proofs.Workspace

/-!
# Well-formed trees

Files and folders are in folders, under names that a step of a path can go by. What is missing or a
file then has nothing in it, and a path to it ends with its name (`exists_concat_of_locate`). Making
folders and writing files keep a tree well-formed.
-/

namespace Phrasebook

open FileTree Move

/-- A name that a step of a path can go by. -/
def IsName (name : String) : Prop := '/' ∉ name.toList ∧ ofSegment name = .down name

instance (name : String) : Decidable (IsName name) := inferInstanceAs (Decidable (_ ∧ _))

/-- Everything is in a folder and has a name. -/
structure FileTree.WellFormed (t : FileTree) : Prop where
  in_folder : ∀ l ∈ t.nodes.keys, t.node? l.dropLast = some .folder
  named : ∀ l ∈ t.nodes.keys, ∀ name ∈ l, IsName name

instance (t : FileTree) : Decidable t.WellFormed :=
  decidable_of_iff
    ((∀ l ∈ t.nodes.keys, t.node? l.dropLast = some .folder) ∧
      ∀ l ∈ t.nodes.keys, ∀ name ∈ l, IsName name)
    ⟨fun h => ⟨h.1, h.2⟩, fun h => ⟨h.in_folder, h.named⟩⟩

/-- The tree is well-formed, and the working folder is a folder of it. -/
structure Workspace.WellFormed (w : Workspace) : Prop where
  tree : w.tree.WellFormed
  here : w.tree.node? w.here = some .folder

instance (w : Workspace) : Decidable w.WellFormed :=
  decidable_of_iff (w.tree.WellFormed ∧ w.tree.node? w.here = some .folder)
    ⟨fun h => ⟨h.1, h.2⟩, fun h => ⟨h.tree, h.here⟩⟩

theorem Path.isName_of_mem_moves {p : Path} {name : String} (h : .down name ∈ p.moves) :
    IsName name := by
  rw [moves_eq] at h
  obtain ⟨s, hs, hm⟩ := List.mem_map.1 h
  have he : s = name := by
    unfold ofSegment at hm
    split at hm
    · cases hm
    · split at hm
      · cases hm
      · exact Move.down.inj hm
  subst he
  exact ⟨not_mem_of_mem_segments hs, hm⟩

namespace FileTree

variable {t : FileTree} {l : Location} {name : String} {n : Node}

theorem mem_keys_of_node? (h : t.node? l = some n) : l = [] ∨ l ∈ t.nodes.keys := by
  by_cases hl : l = []
  · exact .inl hl
  · rw [node?, if_neg hl] at h
    rw [OrderedMap.get?_eq_some_iff] at h
    exact .inr (List.mem_map_of_mem h)

namespace WellFormed

theorem folder_dropLast (h : t.WellFormed) (hl : t.node? l = some n) :
    t.node? l.dropLast = some .folder := by
  rcases mem_keys_of_node? hl with rfl | hk
  · exact node?_nil t
  · exact h.in_folder l hk

theorem isName (h : t.WellFormed) (hl : t.node? l = some n) : ∀ name ∈ l, IsName name := by
  rcases mem_keys_of_node? hl with rfl | hk
  · exact nofun
  · exact h.named l hk

/-- What leads to a folder are folders. -/
theorem folder_of_append {rest : Location} (h : t.WellFormed)
    (hl : t.node? (l ++ rest) = some .folder) : t.node? l = some .folder := by
  induction rest generalizing l with
  | nil =>
    rw [List.append_nil] at hl
    exact hl
  | cons name rest ih =>
    rw [List.append_cons] at hl
    have hstep := h.folder_dropLast (ih hl)
    rw [List.dropLast_concat] at hstep
    exact hstep

theorem follow_down {names : Location} (h : t.WellFormed)
    (hl : t.node? (l ++ names) = some .folder) :
    t.follow l (names.map .down) = .ok (l ++ names) := by
  induction names generalizing l with
  | nil => rw [List.append_nil]; rfl
  | cons name names ih =>
    rw [List.map_cons, follow_cons_folder (h.folder_of_append hl)]
    rw [List.append_cons] at hl ⊢
    exact ih hl

/-- Something can be put under a name into a folder where there is no folder yet. -/
theorem put (h : t.WellFormed) (hl : t.node? l = some .folder) (hname : IsName name)
    (hfree : t.node? (l ++ [name]) ≠ some .folder) : (t.put (l ++ [name]) n).WellFormed := by
  have hne : l ++ [name] ≠ [] := List.append_ne_nil_of_right_ne_nil l (List.cons_ne_nil _ _)
  have hkeys : ∀ k ∈ (t.put (l ++ [name]) n).nodes.keys, k ∈ t.nodes.keys ∨ k = l ++ [name] := by
    intro k hk
    rw [FileTree.put, OrderedMap.keys_insert] at hk
    split at hk
    · exact .inl hk
    · exact (List.mem_append.1 hk).imp_right List.mem_singleton.1
  constructor
  case in_folder =>
    intro k hk
    rcases hkeys k hk with hk | rfl
    · exact keepsFolders_put hne hfree _ (h.in_folder k hk)
    · rw [List.dropLast_concat]
      exact keepsFolders_put hne hfree _ hl
  case named =>
    intro k hk
    rcases hkeys k hk with hk | rfl
    · exact h.named k hk
    · rw [List.forall_mem_append, List.forall_mem_singleton]
      exact ⟨h.isName hl, hname⟩

end WellFormed

end FileTree

namespace Workspace

variable {w w' : Workspace} {p : Path} {ps : List Path} {l : Location} {n : Node}
  {content : ByteArray}

/-- A path to what is not a folder ends with a name, in a folder. -/
theorem exists_concat_of_locate (h : w.WellFormed) (hl : w.locate p = .ok l)
    (hn : w.tree.node? l ≠ some .folder) :
    ∃ folder name, l = folder ++ [name] ∧ w.tree.node? folder = some .folder ∧ IsName name ∧
      p.moves.getLast? = some (.down name) := by
  obtain ⟨-, hpassed, htarget⟩ := locate_eq_ok_iff.1 hl
  obtain ⟨ms, m, hms⟩ : ∃ ms m, p.moves = ms ++ [m] :=
    ⟨_, _, (List.dropLast_concat_getLast p.moves_ne_nil).symm⟩
  rw [hms, passed_concat, List.forall_mem_append, List.forall_mem_singleton] at hpassed
  rw [target, hms, destination_concat] at htarget
  rw [← htarget] at hn
  cases m with
  | stay => exact absurd hpassed.2 hn
  | up => exact absurd (h.tree.folder_dropLast hpassed.2) hn
  | down name =>
    refine ⟨_, name, htarget.symm, hpassed.2, ?_, by rw [hms, List.getLast?_concat]⟩
    exact Path.isName_of_mem_moves (hms ▸ List.mem_append_right ms (List.mem_singleton_self _))

namespace WellFormed

theorem put (h : w.WellFormed) (hl : w.locate p = .ok l) (hn : w.tree.node? l ≠ some .folder) :
    ({ w with tree := w.tree.put l n } : Workspace).WellFormed := by
  obtain ⟨folder, name, rfl, hfolder, hname, -⟩ := exists_concat_of_locate h hl hn
  refine ⟨h.tree.put hfolder hname hn, ?_⟩
  exact keepsFolders_put (List.append_ne_nil_of_right_ne_nil _ (List.cons_ne_nil _ _)) hn _ h.here

theorem ensureFolder (h : w.WellFormed) (p : Path) : (w.ensureFolder p).1.WellFormed := by
  cases hl : w.locate p with
  | error e =>
    rw [ensureFolder_of_error hl]
    exact h
  | ok l =>
    rcases hn : w.tree.node? l with _ | _ | c
    · rw [ensureFolder_of_none hl hn]
      exact h.put hl (by rw [hn]; nofun)
    · rw [ensureFolder_of_folder hl hn]
      exact h
    · rw [ensureFolder_of_file hl hn]
      exact h

theorem makeFolders (h : w.WellFormed) (ps : List Path) : (w.makeFolders ps).1.WellFormed :=
  makeFolders_induction (P := WellFormed) (fun _ p _ h => h.ensureFolder p) h

theorem write (h : w.WellFormed) (hw : w.write p content = .ok w') : w'.WellFormed := by
  obtain ⟨-, l, hl, hn, rfl⟩ := write_eq_ok_iff.1 hw
  exact h.put hl hn

theorem origin (h : w.WellFormed) (absolute : Bool) :
    w.tree.node? (w.origin absolute) = some .folder := by
  unfold Workspace.origin
  split
  · exact node?_nil _
  · exact h.here

end WellFormed

end Workspace

end Phrasebook
