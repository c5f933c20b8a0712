import Phrasebook.Proofs.Path.Parents

/-!
# Where joined paths lead

What a relative path names behind another one is named by its components, whether it can be reached
or not (`target_eq_of_parts`). When the dot at its start is left out, slashes and dots at its end
are too, which matters where they do not follow a folder (`follow_below_dot_iff`).
-/

namespace Phrasebook

open FileTree Move

namespace Path

variable {p q : Path} {ss : List String} {t : FileTree} {l : Location}

/-- Components name a location from where they start. -/
theorem destination_moves (hp : p.isAbsolute = false) (l : Location) :
    destination l p.moves = destination l (p.parts.map Component.move) := by
  rw [moves_eq, destination_map_ofSegment, parts_eq_of_relative hp]

/-! ## Without the dot at the start -/

theorem map_ofSegment_stay (h : ∀ s ∈ ss, componentOf? s = none) :
    ∀ m ∈ ss.map ofSegment, m = .stay := by
  intro m hm
  obtain ⟨s, hs, rfl⟩ := List.mem_map.1 hm
  exact ofSegment_of_not_component (h s hs)

theorem ofSegment_ne_stay {s : String} (h : (componentOf? s).isSome = true) :
    ofSegment s ≠ .stay := by
  obtain ⟨c, hc⟩ := Option.isSome_iff_exists.1 h
  obtain ⟨hcurrent, hroot⟩ := ne_of_componentOf? hc
  rw [ofSegment_of_componentOf? hc]
  cases c with
  | root => exact absurd rfl hroot
  | current => exact absurd rfl hcurrent
  | parent => exact nofun
  | name n => exact nofun

theorem moves_intercalate_trim (hf : t.node? l = some .folder)
    (hss : ∀ s ∈ ss, '/' ∉ s.toList) :
    t.follow l (⟨"/".intercalate (trim ss)⟩ : Path).moves =
      t.follow l ((trim ss).map ofSegment) := by
  by_cases htrim : trim ss = []
  · rw [htrim]
    show t.follow l [.stay] = .ok l
    exact follow_stay (List.forall_mem_singleton.2 rfl) hf
  · rw [moves_eq, segments_intercalate htrim fun s hs => hss s (trim_subset ss hs)]

/-- **Without the dot at its start** a path leads from a folder to where it leads with it, unless it
ends with a slash or a dot and leads to what is no folder. -/
theorem follow_below_dot_iff (hp : p.components.head? = some .current)
    (hq : p.below? ⟨"."⟩ = some q) (hf : t.node? l = some .folder) :
    t.follow l q.moves = t.follow l p.moves ↔
      ¬ (p.moves.getLast? = some .stay ∧
        ∃ l', t.follow l q.moves = .ok l' ∧ t.node? l' ≠ some .folder) := by
  obtain ⟨ss, hs, habs⟩ := exists_segments_of_dot hp
  rw [below?_dot hs habs] at hq
  obtain rfl := Option.some.inj hq
  rw [moves_intercalate_trim hf fun s hmem =>
    not_mem_of_mem_segments (hs ▸ List.mem_cons_of_mem _ hmem)]
  obtain ⟨before, after, hss, hbefore, hafter, -, hlast⟩ := exists_eq_trim ss
  generalize trim ss = kept at hss hlast ⊢
  subst hss
  -- the steps of the path: some that stay, those that are left, and again some that stay
  have hmoves : p.moves = (.stay :: before.map ofSegment) ++ kept.map ofSegment ++
      after.map ofSegment := by
    rw [moves_eq, hs, List.map_cons, List.map_append, List.map_append]
    rfl
  rw [hmoves]
  refine follow_between_stay_iff (List.forall_mem_cons.2 ⟨rfl, map_ofSegment_stay hbefore⟩)
    (map_ofSegment_stay hafter) ?_ hf
  rw [List.getLast?_map]
  intro hstay
  obtain ⟨s, hs, hmove⟩ := Option.map_eq_some_iff.1 hstay
  exact ofSegment_ne_stay (hlast s hs) hmove

end Path

namespace Workspace

variable {w : Workspace} {p q : Path}

/-- A relative path leads from the working folder. -/
theorem locate_path_join (h : w.WellFormed) (hp : p.isAbsolute = false) (hne : p.text ≠ "") :
    w.locate (w.path.join p) = w.locate p := by
  rw [locate_join_relative (locate_path h) hp, locate_eq hne, hp]
  rfl

theorem target_join (w : Workspace) (base : Path) (hp : p.isAbsolute = false) :
    w.target (base.join p) = destination (w.target base) p.moves := by
  by_cases hb : base.text = ""
  · obtain ⟨text⟩ := base
    obtain rfl : text = "" := hb
    rw [Path.join_empty rfl, target, hp]
    rfl
  · obtain ⟨-, habs, ms, hbase, hmoves⟩ := Path.moves_join hb hp
    rw [target, habs, hmoves, destination_append, target]
    rcases hbase with hbase | hbase
    · rw [hbase]
    · rw [hbase, destination_concat]
      rfl

/-- **What a path names** behind another one is named by its components but for a dot. -/
theorem target_eq_of_parts (w : Workspace) (base : Path) (hp : p.isAbsolute = false)
    (hq : q.isAbsolute = false) (h : q.parts = p.parts) :
    w.target (base.join q) = w.target (base.join p) := by
  rw [target_join w base hq, target_join w base hp, Path.destination_moves hq,
    Path.destination_moves hp, h]

theorem target_path_join (h : w.WellFormed) (hp : p.isAbsolute = false) :
    w.target (w.path.join p) = w.target p := by
  have htarget := (locate_eq_ok_iff.1 (locate_path h)).2.2
  rw [target_join w w.path hp, htarget, target, hp]
  rfl

end Workspace

end Phrasebook
