import Phrasebook.FileTree
import Phrasebook.Proofs.OrderedMap

/-!
# Following steps

Steps lead to their destination, whatever the tree, and can be followed exactly if all that they
pass are folders (`follow_eq_ok_iff`). So what can be followed in a tree can be followed in every
tree that has its folders, and ends at the same location (`follow_of_keepsFolders`).
-/

namespace Phrasebook

namespace Move

/-- Where a step leads. -/
def apply : Move → Location → Location
  | stay, l => l
  | up, l => l.dropLast
  | down name, l => l ++ [name]

/-- The locations that steps pass before the last one. -/
def passed (l : Location) : List Move → List Location
  | [] => []
  | m :: ms => l :: passed (m.apply l) ms

/-- Where steps lead. -/
def destination (l : Location) (ms : List Move) : Location := ms.foldl (fun l m => m.apply l) l

variable {l : Location} {ms ms' : List Move} {m : Move}

@[simp] theorem destination_nil : destination l [] = l := rfl

@[simp] theorem destination_cons :
    destination l (m :: ms) = destination (m.apply l) ms := rfl

theorem destination_append :
    destination l (ms ++ ms') = destination (destination l ms) ms' := List.foldl_append

theorem passed_append :
    passed l (ms ++ ms') = passed l ms ++ passed (destination l ms) ms' := by
  induction ms generalizing l with
  | nil => rfl
  | cons m ms ih => rw [List.cons_append, passed, ih]; rfl

theorem passed_concat : passed l (ms ++ [m]) = passed l ms ++ [destination l ms] := passed_append

theorem destination_concat : destination l (ms ++ [m]) = m.apply (destination l ms) :=
  destination_append

/-- What is passed is where some of the steps lead. -/
theorem exists_prefix_of_mem_passed {x : Location} (h : x ∈ passed l ms) :
    ∃ first, first <+: ms ∧ destination l first = x := by
  induction ms generalizing l with
  | nil => cases h
  | cons m ms ih =>
    rcases List.mem_cons.1 h with rfl | h
    · exact ⟨[], List.nil_prefix, rfl⟩
    · obtain ⟨first, hfirst, hx⟩ := ih h
      exact ⟨m :: first, (List.cons_prefix_cons).2 ⟨rfl, hfirst⟩, hx⟩

/-- Steps go up some way from where they start and then down by names of their own. -/
theorem exists_destination_eq (l : Location) (ms : List Move) :
    ∃ start names, destination l ms = start ++ names ∧ start <+: l ∧
      ∀ name ∈ names, .down name ∈ ms := by
  induction ms generalizing l with
  | nil => exact ⟨l, [], (List.append_nil l).symm, List.prefix_rfl, nofun⟩
  | cons m ms ih =>
    obtain ⟨start, names, heq, hstart, hnames⟩ := ih (m.apply l)
    have hmem : ∀ name ∈ names, Move.down name ∈ m :: ms :=
      fun name hname => List.mem_cons_of_mem m (hnames name hname)
    cases m with
    | stay => exact ⟨start, names, heq, hstart, hmem⟩
    | up => exact ⟨start, names, heq, hstart.trans (List.dropLast_prefix l), hmem⟩
    | down name =>
      rcases List.prefix_concat_iff.1 hstart with rfl | hstart
      · refine ⟨l, name :: names, ?_, List.prefix_rfl, ?_⟩
        · rw [destination_cons, heq, ← List.append_cons]
        · exact List.forall_mem_cons.2 ⟨List.mem_cons_self, hmem⟩
      · exact ⟨start, names, heq, hstart, hmem⟩

end Move

open Move

namespace FileTree

variable {t t' : FileTree} {l l' : Location} {m : Move} {ms ms' : List Move} {n : Node}
  {e : FileError}

@[simp] theorem node?_nil (t : FileTree) : t.node? [] = some .folder := if_pos rfl

/-- Whatever is no folder is not the root. -/
theorem ne_nil_of_node?_ne (h : t.node? l ≠ some .folder) : l ≠ [] := by
  rintro rfl
  exact h (node?_nil t)

/-- What is put into a tree takes the place of what was there, or comes last. -/
theorem keys_prefix_put (t : FileTree) (l : Location) (n : Node) :
    t.nodes.keys <+: (t.put l n).nodes.keys := by
  rw [put, OrderedMap.keys_insert]
  split
  · exact List.prefix_rfl
  · exact List.prefix_append _ _

/-! ## Following -/

theorem follow_cons : t.follow l (m :: ms) =
    match t.node? l with
    | none => .error .notFound
    | some (.file _) => .error .notADirectory
    | some .folder => t.follow (m.apply l) ms := by
  cases m <;> rfl

theorem follow_cons_folder (h : t.node? l = some .folder) :
    t.follow l (m :: ms) = t.follow (m.apply l) ms := by
  rw [follow_cons, h]

theorem follow_eq_ok_iff :
    t.follow l ms = .ok l' ↔
      (∀ x ∈ passed l ms, t.node? x = some .folder) ∧ destination l ms = l' := by
  induction ms generalizing l with
  | nil => simp [follow, passed]
  | cons m ms ih =>
    rw [follow_cons, passed, List.forall_mem_cons, destination_cons]
    rcases hn : t.node? l with _ | _ | _
    · simp
    · simpa using ih
    · simp

/-- Steps that cannot be followed pass a file, or a location with nothing there. -/
theorem follow_eq_error (h : t.follow l ms = .error e) :
    e = .notADirectory ∧ (∃ x ∈ passed l ms, ∃ c, t.node? x = some (.file c)) ∨
      e = .notFound ∧ ∃ x ∈ passed l ms, t.node? x = none := by
  induction ms generalizing l with
  | nil => cases h
  | cons m ms ih =>
    rw [follow_cons] at h
    rcases hn : t.node? l with _ | _ | c
    · rw [hn] at h
      cases h
      exact .inr ⟨rfl, l, List.mem_cons_self, hn⟩
    · rw [hn] at h
      exact (ih h).imp (fun ⟨he, x, hx, hc⟩ => ⟨he, x, List.mem_cons_of_mem l hx, hc⟩)
        fun ⟨he, x, hx, hc⟩ => ⟨he, x, List.mem_cons_of_mem l hx, hc⟩
    · rw [hn] at h
      cases h
      exact .inl ⟨rfl, l, List.mem_cons_self, c, hn⟩

/-! ## Steps that may be left out -/

theorem follow_append (t : FileTree) (l : Location) (ms ms' : List Move) :
    t.follow l (ms ++ ms') = t.follow l ms >>= fun l' => t.follow l' ms' := by
  induction ms generalizing l with
  | nil => rfl
  | cons m ms ih =>
    rw [List.cons_append, follow_cons, follow_cons]
    rcases t.node? l with _ | _ | _
    · rfl
    · exact ih _
    · rfl

theorem follow_append_congr (h : ∀ l, t.follow l ms = t.follow l ms') (first : List Move) :
    t.follow l (first ++ ms) = t.follow l (first ++ ms') := by
  rw [follow_append, follow_append]
  cases t.follow l first with
  | error e => rfl
  | ok l' => exact h l'

/-- Staying is for folders, and so is any step after it. -/
theorem follow_stay_cons (h : ms ≠ []) : t.follow l (.stay :: ms) = t.follow l ms := by
  cases ms with
  | nil => exact absurd rfl h
  | cons m ms =>
    rcases hn : t.node? l with _ | _ | _ <;> simp only [follow_cons, apply, hn]

theorem destination_stay (hms : ∀ m ∈ ms, m = .stay) : destination l ms = l := by
  induction ms with
  | nil => rfl
  | cons m ms ih =>
    obtain ⟨rfl, hrest⟩ := List.forall_mem_cons.1 hms
    exact ih hrest

/-- One can stay in folders only. -/
theorem follow_stay_eq_ok_iff (hms : ∀ m ∈ ms, m = .stay) (hne : ms ≠ []) :
    t.follow l ms = .ok l ↔ t.node? l = some .folder := by
  obtain ⟨m, ms, rfl⟩ := List.exists_cons_of_ne_nil hne
  obtain ⟨rfl, hrest⟩ := List.forall_mem_cons.1 hms
  rw [follow_eq_ok_iff, passed, List.forall_mem_cons, destination_stay hms]
  constructor
  · exact fun h => h.1.1
  · intro h
    refine ⟨⟨h, fun x hx => ?_⟩, rfl⟩
    obtain ⟨first, hfirst, rfl⟩ := exists_prefix_of_mem_passed hx
    rwa [destination_stay fun m hm => hrest m (hfirst.subset hm)]

theorem follow_stay (hms : ∀ m ∈ ms, m = .stay) (hf : t.node? l = some .folder) :
    t.follow l ms = .ok l := by
  by_cases hne : ms = []
  · rw [hne]
    rfl
  · exact (follow_stay_eq_ok_iff hms hne).2 hf

/-- Staying before and behind some steps changes where they lead only if it is behind them and they
do not lead to a folder. -/
theorem follow_between_stay_iff {before after : List Move} (hbefore : ∀ m ∈ before, m = .stay)
    (hafter : ∀ m ∈ after, m = .stay) (hms : ms.getLast? ≠ some .stay)
    (hf : t.node? l = some .folder) :
    t.follow l ms = t.follow l (before ++ ms ++ after) ↔
      ¬ ((before ++ ms ++ after).getLast? = some .stay ∧
        ∃ l', t.follow l ms = .ok l' ∧ t.node? l' ≠ some .folder) := by
  have hfollow : t.follow l (before ++ ms ++ after) =
      t.follow l ms >>= fun l' => t.follow l' after := by
    rw [follow_append, follow_append, follow_stay hbefore hf]
    rfl
  rw [hfollow]
  cases hl : t.follow l ms with
  | error e => exact ⟨fun _ h => (nomatch h.2), fun _ => rfl⟩
  | ok l' =>
    by_cases hnil : after = []
    · subst hnil
      refine iff_of_true rfl ?_
      rintro ⟨hstay, l'', hl'', hn⟩
      obtain rfl := Except.ok.inj hl''
      by_cases hempty : ms = []
      · subst hempty
        obtain rfl := Except.ok.inj hl
        exact hn hf
      · rw [List.append_nil, List.getLast?_append_of_ne_nil _ hempty] at hstay
        exact hms hstay
    · have hlast : (before ++ ms ++ after).getLast? = some .stay := by
        rw [List.getLast?_append_of_ne_nil _ hnil, List.getLast?_eq_some_getLast hnil,
          hafter _ (List.getLast_mem hnil)]
      have hbind : (Except.ok l' >>= fun l' => t.follow l' after) = t.follow l' after := rfl
      rw [hlast, hbind, eq_comm, follow_stay_eq_ok_iff hafter hnil]
      simp

/-! ## Trees with the same folders -/

/-- The folders of a tree are folders of another. -/
def KeepsFolders (t t' : FileTree) : Prop :=
  ∀ l, t.node? l = some .folder → t'.node? l = some .folder

/-- Folders stay when something is put where there is no folder. -/
theorem keepsFolders_put (hne : l ≠ []) (hfree : t.node? l ≠ some .folder) :
    KeepsFolders t (t.put l n) := by
  intro k hk
  have hkl : k ≠ l := fun he => hfree (he ▸ hk)
  rw [node?_put hne, if_neg hkl]
  exact hk

theorem follow_of_keepsFolders (h : KeepsFolders t t') (hl : t.follow l ms = .ok l') :
    t'.follow l ms = .ok l' := by
  rw [follow_eq_ok_iff] at hl ⊢
  exact ⟨fun x hx => h x (hl.1 x hx), hl.2⟩

end FileTree

end Phrasebook
