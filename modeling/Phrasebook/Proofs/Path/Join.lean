import Phrasebook.Proofs.WellFormed

/-!
# Paths in folders

What is put behind the path of a folder leads on from the folder (`locate_join_relative`), so a name
leads into it (`locate_join`). The path of the working folder leads to it, by way of the folders
around it (`locate_path`, `exists_locate_of_mem_ancestors`).
-/

namespace Phrasebook

open FileTree Move

namespace Path

variable {base p q : Path} {name : String}

theorem not_isAbsolute_of_isName (h : IsName name) : (⟨name⟩ : Path).isAbsolute = false := by
  unfold isAbsolute
  rw [decide_eq_false_iff_not]
  exact fun hh => h.1 (List.mem_of_mem_head? hh)

/-- A path is put behind a slash, be it the one that the base ends with. -/
theorem exists_join_eq (hb : base.text ≠ "") (hp : p.isAbsolute = false) :
    ∃ read, (base = ⟨read⟩ ∨ base = ⟨read ++ "/"⟩) ∧ base.join p = ⟨read ++ "/" ++ p.text⟩ := by
  unfold join
  rw [hp, if_neg Bool.false_ne_true]
  by_cases hs : base.text.toList.getLast? = some '/'
  · obtain ⟨cs, hcs⟩ := List.getLast?_eq_some_iff.1 hs
    have htext : base.text = String.ofList cs ++ "/" := by
      rw [← String.ofList_toList (s := base.text), hcs, String.ofList_append]
    refine ⟨String.ofList cs, .inr (by rw [← htext]), ?_⟩
    rw [if_pos (by simp [hs]), htext]
  · exact ⟨base.text, .inl rfl, by rw [if_neg (by simp [hb, hs])]⟩

theorem isAbsolute_join (hb : base.text ≠ "") (hp : p.isAbsolute = false) :
    (base.join p).isAbsolute = base.isAbsolute := by
  obtain ⟨read, hread, hjoin⟩ := exists_join_eq hb hp
  rw [hjoin]
  rcases hread with rfl | rfl
  · rw [String.append_assoc]
    exact isAbsolute_append hb
  · exact isAbsolute_append hb

/-- What is put behind a path goes on with steps of its own. -/
theorem moves_join (hb : base.text ≠ "") (hp : p.isAbsolute = false) :
    (base.join p).text ≠ "" ∧ (base.join p).isAbsolute = base.isAbsolute ∧
      ∃ ms, (base.moves = ms ∨ base.moves = ms ++ [.stay]) ∧
        (base.join p).moves = ms ++ p.moves := by
  have habs := isAbsolute_join hb hp
  obtain ⟨read, hread, hjoin⟩ := exists_join_eq hb hp
  refine ⟨?_, habs, (⟨read⟩ : Path).moves, ?_, ?_⟩
  · rw [hjoin]
    exact append_slash_ne_empty _ _
  · rcases hread with rfl | rfl
    · exact .inl rfl
    · right
      rw [← String.append_empty (s := read ++ "/"), moves_append_slash]
      rfl
  · rw [hjoin, moves_append_slash]

theorem segments_join (hb : base.text ≠ "") (hname : IsName name) :
    ∃ first rest, (base.join ⟨name⟩).segments = first :: (rest ++ [name]) := by
  obtain ⟨read, -, hjoin⟩ := exists_join_eq hb (not_isAbsolute_of_isName hname)
  obtain ⟨first, rest, hs⟩ := List.exists_cons_of_ne_nil (segments_ne_nil ⟨read⟩)
  refine ⟨first, rest, ?_⟩
  rw [hjoin, segments_append_slash, hs, segments_of_not_mem hname.1]
  rfl

theorem componentOf?_of_isName (h : IsName name) : componentOf? name = some (.name name) := by
  have hsegment := h.2
  unfold componentOf?
  unfold ofSegment at hsegment
  split at hsegment
  · cases hsegment
  · rename_i hstay
    rw [not_or] at hstay
    split at hsegment
    · cases hsegment
    · rename_i hup
      rw [if_neg hstay.1, if_neg hstay.2, if_neg hup]

/-- The last component of a name in a folder is the name. -/
theorem fileName?_join (hb : base.text ≠ "") (hname : IsName name) :
    (base.join ⟨name⟩).fileName? = some name := by
  obtain ⟨first, rest, hs⟩ := segments_join hb hname
  have hcomponents : ∃ cs, (base.join ⟨name⟩).components = cs ++ [.name name] := by
    unfold components steps
    rw [hs]
    dsimp only
    rw [List.map_append, ← List.cons_append, List.filterMap_append]
    exact ⟨_, congrArg _ (by simp [componentOf?_of_isName hname])⟩
  obtain ⟨cs, hcs⟩ := hcomponents
  rw [fileName?, hcs, List.getLast?_concat]

/-- A path with more segments. -/
def extend (read : String) (segments : List String) : String :=
  segments.foldl (fun read s => read ++ "/" ++ s) read

theorem extend_eq {ss : List String} (h : ss ≠ []) (read : String) :
    extend read ss = read ++ "/" ++ "/".intercalate ss := by
  obtain ⟨s, ss, rfl⟩ := List.exists_cons_of_ne_nil h
  induction ss generalizing read s with
  | nil => rw [String.intercalate_singleton]; rfl
  | cons t ss ih =>
    show extend (read ++ "/" ++ s) (t :: ss) = _
    rw [ih _ _ (List.cons_ne_nil _ _), String.intercalate_cons_cons]
    simp only [String.append_assoc]

theorem extend_concat (read : String) (ss : List String) (s : String) :
    extend read (ss ++ [s]) = extend read ss ++ "/" ++ s := List.foldl_append

theorem segments_extend {ss : List String} (h : ∀ s ∈ ss, '/' ∉ s.toList) (read : String) :
    (⟨extend read ss⟩ : Path).segments = (⟨read⟩ : Path).segments ++ ss := by
  induction ss generalizing read with
  | nil => exact (List.append_nil _).symm
  | cons s ss ih =>
    obtain ⟨hs, hss⟩ := List.forall_mem_cons.1 h
    show (⟨extend (read ++ "/" ++ s) ss⟩ : Path).segments = _
    rw [ih hss, segments_append_slash, segments_of_not_mem hs, List.append_assoc,
      List.singleton_append]

theorem stemsFrom_append (read : String) (ss ss' : List String) :
    stemsFrom read (ss ++ ss') = stemsFrom read ss ++ stemsFrom (extend read ss) ss' := by
  induction ss generalizing read with
  | nil => rfl
  | cons s ss ih =>
    rw [List.cons_append, stemsFrom, stemsFrom, ih]
    split <;> rfl

/-- A path that goes on with a name has one stem more. -/
theorem extension?_join (hb : base.text ≠ "") (hname : IsName name) :
    (base.join ⟨name⟩).extension? = (splitExtension name).2 := by
  rw [extension?, fileName?_join hb hname]
  rfl

end Path

namespace Workspace

variable {w : Workspace} {base p q : Path} {name : String} {l : Location} {qs : List Path}
  {ms : List Move} {absolute : Bool}

/-- A relative path leads from the folder that it is put behind. -/
theorem locate_join_relative (hl : w.locate base = .ok l) (hp : p.isAbsolute = false) :
    w.locate (base.join p) = w.tree.follow l p.moves := by
  have hb := text_ne_of_locate hl
  obtain ⟨hne, habs, ms, hbase, hmoves⟩ := Path.moves_join hb hp
  have hms : w.tree.follow (w.origin base.isAbsolute) ms = .ok l := by
    rw [locate_eq hb] at hl
    rcases hbase with hbase | hbase
    · rwa [hbase] at hl
    · rw [hbase, follow_eq_ok_iff, passed_concat, List.forall_mem_append, destination_concat] at hl
      exact follow_eq_ok_iff.2 ⟨hl.1.1, hl.2⟩
  rw [locate_eq hne, habs, hmoves, follow_append, hms]
  rfl

/-- A name in a folder leads into the folder. -/
theorem locate_join (hl : w.locate base = .ok l) (hf : w.tree.node? l = some .folder)
    (hname : IsName name) : w.locate (base.join ⟨name⟩) = .ok (l ++ [name]) := by
  rw [locate_join_relative hl (Path.not_isAbsolute_of_isName hname),
    Path.moves_of_not_mem hname.1, hname.2, follow_cons_folder hf]
  rfl

/-! ## The folders around a location -/

theorem locate_of_isMade (hleads : Path.Leads absolute qs ms) (hq : q ∈ qs)
    (hmade : IsMade w.tree (w.origin absolute) ms) :
    ∃ l, w.locate q = .ok l ∧ w.tree.node? l = some .folder := by
  induction hleads with
  | nil => cases hq
  | @cons q' qs m ms hleads habs hne hfollow ih =>
    obtain ⟨hmade, hlast⟩ := isMade_concat.1 hmade
    rcases List.mem_cons.1 hq with rfl | hq
    · refine ⟨_, ?_, hlast⟩
      rw [locate_eq hne, habs, hfollow, follow_eq_ok_iff, passed_concat, destination_concat]
      exact ⟨hmade, rfl⟩
    · exact ih hq hmade

theorem isMade_of_locate (hl : w.locate p = .ok l) :
    ∀ x ∈ passed (w.origin p.isAbsolute) p.way, w.tree.node? x = some .folder := by
  have hne := text_ne_of_locate hl
  rw [locate_eq hne] at hl
  exact (follow_eq_ok_iff.1 (Path.follow_way_of_moves hne hl)).1

/-- The folders around a path that leads somewhere are there. -/
theorem exists_locate_of_mem_around (hl : w.locate p = .ok l) (hq : q ∈ p.around) :
    ∃ x, w.locate q = .ok x ∧ w.tree.node? x = some .folder := by
  refine locate_of_isMade p.way_around hq ?_
  rw [IsMade, ← Path.passed_way (text_ne_of_locate hl)]
  exact isMade_of_locate hl

/-! ## The working folder -/

theorem segments_path (hnames : ∀ name ∈ w.here, IsName name) (hne : w.here ≠ []) :
    w.path.segments = "" :: w.here := by
  have hpath : w.path = ⟨"" ++ "/" ++ "/".intercalate w.here⟩ := rfl
  rw [hpath, Path.segments_append_slash,
    Path.segments_intercalate hne fun name hname => (hnames name hname).1]
  rfl

/-- The path of the working folder leads there. -/
theorem locate_path (h : w.WellFormed) : w.locate w.path = .ok w.here := by
  have hnames : ∀ name ∈ w.here, IsName name := h.tree.isName h.here
  have habs : w.path.isAbsolute = true := Path.isAbsolute_append (a := "/") (by decide)
  have hne : w.path.text ≠ "" := Path.append_slash_ne_empty "" _
  rw [locate_eq hne, origin, if_pos habs, Path.moves_eq]
  by_cases hhere : w.here = []
  · have hpath : w.path = ⟨"/"⟩ := by
      rw [path, hhere]
      rfl
    rw [hpath, hhere]
    have hroot : w.tree.follow [] [.stay] = .ok [] := follow_cons_folder (node?_nil _)
    exact (follow_stay_cons (List.cons_ne_nil _ _)).trans hroot
  · have hmoves : w.here.map ofSegment = w.here.map .down :=
      List.map_congr_left fun name hname => (hnames name hname).2
    rw [segments_path hnames hhere, List.map_cons, hmoves,
      follow_cons_folder (node?_nil _)]
    exact h.tree.follow_down h.here

/-- The working folder and the folders around it are there. -/
theorem exists_locate_of_mem_ancestors (h : w.WellFormed) (hq : q ∈ w.path.ancestors) :
    ∃ x, w.locate q = .ok x ∧ w.tree.node? x = some .folder := by
  have habs : w.path.isAbsolute = true := Path.isAbsolute_append (a := "/") (by decide)
  rcases List.mem_cons.1 hq with rfl | hq
  · exact ⟨w.here, locate_path h, h.here⟩
  · obtain ⟨empty, htail, hempty, -⟩ := w.path.exists_around
    rw [Path.ancestors, List.tail_cons] at htail
    rw [htail] at hq
    rcases List.mem_append.1 hq with hq | hq
    · exact exists_locate_of_mem_around (locate_path h) hq
    · rw [(hempty q hq).2] at habs
      cases habs

theorem path_eq_extend (hne : w.here ≠ []) : w.path = ⟨Path.extend "" w.here⟩ := by
  rw [Path.extend_eq hne]
  rfl

end Workspace

end Phrasebook
