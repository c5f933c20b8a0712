import Phrasebook.Proofs.Path.Components

/-!
# The folders above a path

Dropping the last component again and again ends at the root or at the empty path
(`above_eq_none`), and comes by the ancestors of the path one after another (`getElem?_ancestors`).
What is left each time has all components but the last (`components_of_parent?`) and stands as it is
above everything in it (`parent?_join`), as the path of the working folder does
(`parent?_join_path`).
-/

namespace Phrasebook.Path

variable {p q : Path} {ps qs : List Path} {name s : String} {ss : List String}

/-! ## Stems -/

theorem stemsFrom_concat_component (read : String) (ss : List String)
    (hs : (componentOf? s).isSome = true) :
    stemsFrom read (ss ++ [s]) = stemsFrom read ss ++ [extend read (ss ++ [s])] := by
  rw [stemsFrom_append, stemsFrom, if_pos hs, extend_concat]
  rfl

theorem length_stemsFrom (read : String) (ss : List String) :
    (stemsFrom read ss).length = (ss.filterMap componentOf?).length := by
  induction ss generalizing read with
  | nil => rfl
  | cons s ss ih =>
    rw [stemsFrom]
    cases hc : componentOf? s with
    | none =>
      rw [List.filterMap_cons_none hc, ← ih (read ++ "/" ++ s)]
      rfl
    | some c =>
      rw [List.filterMap_cons_some hc, List.length_cons, ← ih (read ++ "/" ++ s)]
      rfl

/-- A stem goes on to a segment that is a component. -/
theorem exists_of_stemsFrom_eq {read t : String} {ts more : List String}
    (h : stemsFrom read ss = ts ++ t :: more) :
    ∃ us s vs, ss = us ++ s :: vs ∧ (componentOf? s).isSome = true ∧ ts = stemsFrom read us ∧
      t = extend read (us ++ [s]) := by
  induction ss generalizing read ts with
  | nil => exact absurd h.symm (List.append_ne_nil_of_right_ne_nil ts (List.cons_ne_nil _ _))
  | cons s ss ih =>
    rw [stemsFrom] at h
    split at h
    · rename_i hs
      rcases List.cons_eq_append_iff.1 h with ⟨rfl, hcons⟩ | ⟨ts, rfl, hrest⟩
      · obtain ⟨rfl, -⟩ := List.cons.inj hcons
        exact ⟨[], s, ss, rfl, hs, rfl, rfl⟩
      · obtain ⟨us, u, vs, rfl, hu, rfl, rfl⟩ := ih hrest
        refine ⟨s :: us, u, vs, rfl, hu, ?_, rfl⟩
        rw [stemsFrom, if_pos hs]
    · rename_i hs
      obtain ⟨us, u, vs, rfl, hu, rfl, rfl⟩ := ih h
      refine ⟨s :: us, u, vs, rfl, hu, ?_, rfl⟩
      rw [stemsFrom, if_neg hs]

/-- The first stems of a path, before those that go on behind a slash. -/
def firstStems (p : Path) (first : String) : List Path :=
  if p.isAbsolute then [⟨"/"⟩]
  else ⟨""⟩ :: if (p.firstComponent? first).isSome then [⟨first⟩] else []

theorem stems_eq (hs : p.segments = s :: ss) :
    p.stems = p.firstStems s ++ (stemsFrom s ss).map Path.mk := by
  unfold stems firstStems
  rw [hs]
  dsimp only
  split
  · rfl
  · split <;> rfl

theorem length_firstStems {c : Component} (hc : p.firstComponent? s = some c) :
    (p.firstStems s).length + (if p.isAbsolute then 1 else 0) = 2 := by
  rw [firstStems, hc]
  split <;> rfl

/-- Of a path that goes on to a component the stems are its own up to there. -/
theorem stems_extend {us vs : List String} {u : String} (hp : p.text ≠ "")
    (hs : p.segments = s :: (us ++ u :: vs)) (hu : (componentOf? u).isSome = true) :
    (⟨extend s (us ++ [u])⟩ : Path).isAbsolute = p.isAbsolute ∧
      (⟨extend s (us ++ [u])⟩ : Path).components =
        (p.firstComponent? s).toList ++ (us ++ [u]).filterMap componentOf? ∧
      (⟨extend s (us ++ [u])⟩ : Path).stems =
        p.firstStems s ++ (stemsFrom s us).map Path.mk ++ [⟨extend s (us ++ [u])⟩] := by
  have hslash : ∀ t ∈ s :: (us ++ u :: vs), '/' ∉ t.toList :=
    fun t ht => not_mem_of_mem_segments (hs ▸ ht)
  have hsegments : (⟨extend s (us ++ [u])⟩ : Path).segments = s :: (us ++ [u]) := by
    rw [segments_extend fun t ht => hslash t ?_, segments_of_not_mem (hslash s List.mem_cons_self)]
    · rfl
    · refine List.mem_cons_of_mem s ?_
      rcases List.mem_append.1 ht with ht | ht
      · exact List.mem_append_left _ ht
      · exact List.mem_append_right _ (List.mem_singleton.1 ht ▸ List.mem_cons_self)
  have hne : (⟨extend s (us ++ [u])⟩ : Path).text ≠ "" := by
    dsimp only
    rw [extend_concat]
    exact append_slash_ne_empty _ _
  have habs : (⟨extend s (us ++ [u])⟩ : Path).isAbsolute = p.isAbsolute := by
    rw [Bool.eq_iff_iff, (segments_eq_cons hne hsegments).2, (segments_eq_cons hp hs).2]
  refine ⟨habs, ?_, ?_⟩
  · rw [components_eq hsegments, firstComponent?, firstComponent?, habs]
  · rw [stems_eq hsegments, stemsFrom_concat_component _ _ hu, List.map_append, List.append_assoc,
      firstStems, firstStems, firstComponent?, firstComponent?, habs]
    rfl

theorem stems_of_firstStems_eq (hp : p.text ≠ "") (hs : p.segments = s :: ss)
    (h : p.firstStems s = qs ++ q :: ps) :
    q.stems = qs ++ [q] ∧ q.isAbsolute = p.isAbsolute ∧
      q.components = p.components.take (qs.length + if p.isAbsolute then 1 else 0) := by
  obtain ⟨hrelative, -⟩ := segments_eq_cons hp hs
  obtain ⟨c, hc⟩ := Option.isSome_iff_exists.1 (way_eq_cons hp hs).1
  have hcomponents : p.components = c :: ss.filterMap componentOf? := by
    rw [components_eq hs, hc]
    rfl
  rw [hcomponents]
  unfold firstStems at h
  cases habs : p.isAbsolute with
  | true =>
    rw [habs, if_pos rfl] at h
    obtain ⟨rfl, hq⟩ := (List.append_eq_singleton_iff.1 h.symm).resolve_right
      fun hq => List.cons_ne_nil _ _ hq.2
    obtain ⟨rfl, -⟩ := List.cons.inj hq
    obtain rfl : Component.root = c := by
      rw [firstComponent?, habs] at hc
      exact Option.some.inj hc
    exact ⟨by decide +kernel, rfl, rfl⟩
  | false =>
    rw [habs, hc, if_neg Bool.false_ne_true, Option.isSome_some, if_pos rfl] at h
    rcases List.cons_eq_append_iff.1 h with ⟨rfl, hq⟩ | ⟨qs, rfl, hq⟩
    · obtain ⟨rfl, -⟩ := List.cons.inj hq
      exact ⟨rfl, rfl, rfl⟩
    · obtain ⟨rfl, hq⟩ := (List.append_eq_singleton_iff.1 hq.symm).resolve_right
        fun hq => List.cons_ne_nil _ _ hq.2
      obtain ⟨rfl, -⟩ := List.cons.inj hq
      have hsegments : (⟨s⟩ : Path).segments = [s] :=
        segments_of_not_mem (not_mem_of_mem_segments (hs ▸ List.mem_cons_self))
      have hfirst : (⟨s⟩ : Path).firstComponent? s = some c := by
        rw [← hc, firstComponent?, firstComponent?, hrelative, habs]
      refine ⟨?_, hrelative, ?_⟩
      · rw [stems_eq hsegments, firstStems, hrelative, hfirst]
        rfl
      · rw [components_eq hsegments, hfirst]
        rfl

/-- What a stem has above it are the stems before it, and so many components. -/
theorem stems_of_stems_eq (h : p.stems = qs ++ q :: ps) :
    q.stems = qs ++ [q] ∧ q.isAbsolute = p.isAbsolute ∧
      q.components = p.components.take (qs.length + if p.isAbsolute then 1 else 0) := by
  by_cases hp : p.text = ""
  · obtain ⟨text⟩ := p
    obtain rfl : text = "" := hp
    obtain ⟨rfl, hq⟩ := List.append_eq_singleton_iff.1 (show qs ++ q :: ps = [⟨""⟩] from h.symm)
      |>.resolve_right fun hq => List.cons_ne_nil _ _ hq.2
    obtain ⟨rfl, -⟩ := List.cons.inj hq
    exact ⟨rfl, rfl, rfl⟩
  obtain ⟨s, ss, hs⟩ := List.exists_cons_of_ne_nil p.segments_ne_nil
  rw [stems_eq hs] at h
  -- the stem is one of the first, or it goes on behind a slash
  have hcases : (∃ more, p.firstStems s = qs ++ q :: more) ∨
      ∃ rest, qs = p.firstStems s ++ rest ∧ (stemsFrom s ss).map Path.mk = rest ++ q :: ps := by
    rcases List.append_eq_append_iff.1 h with ⟨rest, hqs, hrest⟩ | ⟨first, hfirst, hrest⟩
    · exact .inr ⟨rest, hqs, hrest⟩
    · rcases List.cons_eq_append_iff.1 hrest with ⟨rfl, hrest⟩ | ⟨more, rfl, -⟩
      · exact .inr ⟨[], by rw [hfirst, List.append_nil, List.append_nil], hrest.symm⟩
      · exact .inl ⟨more, hfirst⟩
  rcases hcases with ⟨more, hfirst⟩ | ⟨rest, rfl, hrest⟩
  · exact stems_of_firstStems_eq hp hs hfirst
  · obtain ⟨ts, us, hts, rfl, hus⟩ := List.map_eq_append_iff.1 hrest
    obtain ⟨t, more, rfl, rfl, -⟩ := List.map_eq_cons_iff.1 hus
    obtain ⟨us, u, vs, rfl, hu, rfl, rfl⟩ := exists_of_stemsFrom_eq hts
    obtain ⟨habs, hcomponents, hstems⟩ := stems_extend hp hs hu
    refine ⟨hstems, habs, ?_⟩
    have hmore : us ++ u :: vs = (us ++ [u]) ++ vs := List.append_cons us u vs
    rw [hcomponents, components_eq hs, hmore, List.filterMap_append (l := us ++ [u]),
      ← List.append_assoc, List.take_left']
    obtain ⟨c, hc⟩ := Option.isSome_iff_exists.1 (way_eq_cons hp hs).1
    obtain ⟨d, hd⟩ := Option.isSome_iff_exists.1 hu
    have hfirst := length_firstStems hc
    rw [hc, List.filterMap_append, List.filterMap_cons_some hd, List.length_append,
      List.length_append, List.length_append, List.length_map, length_stemsFrom]
    simp only [Option.toList_some, List.length_cons, List.length_nil, List.filterMap_nil]
    omega

/-- A relative path has one stem more than it has components, the empty path. -/
theorem length_stems (p : Path) :
    p.stems.length + (if p.isAbsolute then 1 else 0) = p.components.length + 1 := by
  by_cases hp : p.text = ""
  · obtain ⟨text⟩ := p
    obtain rfl : text = "" := hp
    rfl
  · obtain ⟨s, ss, hs⟩ := List.exists_cons_of_ne_nil p.segments_ne_nil
    obtain ⟨c, hc⟩ := Option.isSome_iff_exists.1 (way_eq_cons hp hs).1
    have hfirst := length_firstStems hc
    rw [stems_eq hs, components_eq hs, hc, List.length_append, List.length_append, List.length_map,
      length_stemsFrom, Option.toList_some, List.length_singleton]
    omega

/-- The last of the stems is the path, but for slashes and dots at its end. -/
theorem exists_last_stem (p : Path) :
    ∃ q, p.stems.getLast? = some q ∧ q.components = p.components := by
  have hne : p.stems ≠ [] := by
    unfold stems
    split
    · rename_i hs
      exact absurd hs p.segments_ne_nil
    · split <;> exact List.cons_ne_nil _ _
  refine ⟨p.stems.getLast hne, List.getLast?_eq_some_getLast hne, ?_⟩
  have hlength := p.length_stems
  have hsplit := (List.dropLast_concat_getLast hne).symm
  rw [hsplit, List.length_append, List.length_singleton] at hlength
  rw [(stems_of_stems_eq hsplit).2.2]
  exact List.take_of_length_le (by omega)

/-! ## Parents -/

theorem parent?_eq_getLast? (p : Path) : p.parent? = p.stems.dropLast.getLast? := by
  rw [parent?, ancestors, List.tail_cons, List.head?_reverse]

theorem exists_stems_of_parent? (h : p.parent? = some q) :
    ∃ qs last, p.stems = qs ++ q :: [last] := by
  rw [parent?_eq_getLast?] at h
  obtain ⟨qs, hqs⟩ := List.getLast?_eq_some_iff.1 h
  have hne : p.stems ≠ [] := by
    intro he
    rw [he] at hqs
    exact List.append_ne_nil_of_right_ne_nil qs (List.cons_ne_nil _ _) hqs.symm
  refine ⟨qs, p.stems.getLast hne, ?_⟩
  rw [List.append_cons, ← hqs, List.dropLast_concat_getLast hne]

/-- **What is left without the last component.** -/
theorem components_of_parent? (h : p.parent? = some q) :
    q.components = p.components.dropLast ∧ q.isAbsolute = p.isAbsolute := by
  obtain ⟨qs, last, hstems⟩ := exists_stems_of_parent? h
  obtain ⟨-, habs, hcomponents⟩ := stems_of_stems_eq hstems
  have hlength := p.length_stems
  rw [hstems, List.length_append, List.length_cons, List.length_singleton] at hlength
  refine ⟨?_, habs⟩
  rw [hcomponents, List.dropLast_eq_take]
  congr 1
  omega

theorem parent?_eq_none_iff :
    p.parent? = none ↔ p.components = [] ∨ p.components = [.root] := by
  have hlength := p.length_stems
  rw [parent?_eq_getLast?, List.getLast?_eq_none_iff, ← List.length_eq_zero_iff,
    List.length_dropLast]
  cases habs : p.isAbsolute with
  | true =>
    obtain ⟨cs, hcs⟩ := exists_components_of_isAbsolute habs
    rw [habs, if_pos rfl, hcs, List.length_cons] at hlength
    rw [hcs, List.cons.injEq, and_iff_right rfl, or_iff_right (List.cons_ne_nil _ _),
      ← List.length_eq_zero_iff]
    omega
  | false =>
    have hroot : p.components ≠ [.root] := fun hc => by
      have hmem : Component.root ∈ p.parts := by
        rw [parts, hc]
        exact List.mem_singleton_self _
      rw [parts_eq_of_relative habs] at hmem
      obtain ⟨s, -, hs⟩ := List.mem_filterMap.1 hmem
      exact (ne_of_componentOf? hs).2 rfl
    rw [habs, if_neg Bool.false_ne_true] at hlength
    rw [or_iff_left hroot, ← List.length_eq_zero_iff]
    omega

/-- The ancestors of a path are the path and the ancestors of its parent. -/
theorem ancestors_of_parent? (h : p.parent? = some q) : p.ancestors = p :: q.ancestors := by
  obtain ⟨qs, last, hstems⟩ := exists_stems_of_parent? h
  have hp : p.stems.dropLast = qs ++ [q] := by
    rw [hstems, List.append_cons, List.dropLast_concat]
  have hq : q.stems.dropLast = qs := by
    rw [(stems_of_stems_eq hstems).1, List.dropLast_concat]
  rw [ancestors, ancestors, hp, hq, List.reverse_append]
  rfl

theorem ancestors_of_parent?_none (h : p.parent? = none) : p.ancestors = [p] := by
  rw [parent?_eq_getLast?, List.getLast?_eq_none_iff] at h
  rw [ancestors, h]
  rfl

/-! ## Dropping again and again -/

/-- What is left of a path when the last component has been dropped so many times. -/
def above (p : Path) : Nat → Option Path
  | 0 => some p
  | i + 1 => (p.above i).bind parent?

theorem above_succ (p : Path) (i : Nat) : p.above (i + 1) = p.parent?.bind fun q => q.above i := by
  induction i generalizing p with
  | zero => exact (Option.bind_fun_some p.parent?).symm
  | succ i ih =>
    rw [above, ih, Option.bind_assoc]
    rfl

theorem getElem?_ancestors (p : Path) (i : Nat) : p.ancestors[i]? = p.above i := by
  induction i generalizing p with
  | zero => rfl
  | succ i ih =>
    rw [above_succ]
    cases hq : p.parent? with
    | none =>
      rw [ancestors_of_parent?_none hq]
      rfl
    | some q =>
      rw [ancestors_of_parent? hq, List.getElem?_cons_succ, ih]
      rfl

/-- **Dropping comes to an end.** -/
theorem above_eq_none (p : Path) : p.above (p.components.length + 1) = none := by
  have hlength := p.length_stems
  rw [← getElem?_ancestors, List.getElem?_eq_none_iff, ancestors, List.length_cons,
    List.length_reverse, List.length_dropLast]
  omega

/-- So many components are dropped, and the path stays absolute. -/
theorem components_of_above {i : Nat} (h : p.above i = some q) :
    q.components.length + i = p.components.length ∧ q.isAbsolute = p.isAbsolute := by
  induction i generalizing q with
  | zero =>
    obtain rfl := Option.some.inj h
    exact ⟨rfl, rfl⟩
  | succ i ih =>
    obtain ⟨r, hr, hq⟩ := Option.bind_eq_some_iff.1 h
    obtain ⟨hlength, habs⟩ := ih hr
    obtain ⟨hcomponents, habsq⟩ := components_of_parent? hq
    have hne : r.components ≠ [] := fun hnil => by
      rw [parent?_eq_none_iff.2 (.inl hnil)] at hq
      cases hq
    have := List.length_pos_iff.2 hne
    refine ⟨?_, habsq.trans habs⟩
    rw [hcomponents, List.length_dropLast]
    omega

/-! ## Names in folders -/

/-- A name put behind a path is a stem more. -/
theorem stems_join (hname : IsName name) :
    ∃ last, (p.join ⟨name⟩).stems = p.stems ++ [last] := by
  have hrelative := not_isAbsolute_of_isName hname
  have hcomponent : (componentOf? name).isSome = true := by
    rw [componentOf?_of_isName hname]
    rfl
  by_cases hp : p.text = ""
  · obtain ⟨text⟩ := p
    obtain rfl : text = "" := hp
    have hne : (⟨name⟩ : Path).text ≠ "" := by
      rintro rfl
      cases hcomponent
    have hsegments := segments_of_not_mem hname.1
    refine ⟨⟨name⟩, ?_⟩
    rw [join_empty rfl, stems_eq hsegments, firstStems, hrelative, (way_eq_cons hne hsegments).1]
    rfl
  · have habs := isAbsolute_join hp hrelative
    obtain ⟨read, hread, hjoin⟩ := exists_join_eq hp hrelative
    obtain ⟨s, ss, hs⟩ := List.exists_cons_of_ne_nil (segments_ne_nil ⟨read⟩)
    have hsegments : (p.join ⟨name⟩).segments = s :: (ss ++ [name]) := by
      rw [hjoin, segments_append_slash, hs, segments_of_not_mem hname.1]
      rfl
    -- a slash at the end of the path adds a segment, and no stem
    have hstems : p.stems = p.firstStems s ++ (stemsFrom s ss).map Path.mk := by
      rcases hread with rfl | rfl
      · exact stems_eq hs
      · have hslash : (⟨read ++ "/"⟩ : Path).segments = s :: (ss ++ [""]) := by
          rw [← String.append_empty (s := read ++ "/"), segments_append_slash, hs]
          rfl
        have hempty : stemsFrom (extend s ss) [""] = [] := rfl
        rw [stems_eq hslash, stemsFrom_append, hempty, List.append_nil]
    refine ⟨⟨extend s (ss ++ [name])⟩, ?_⟩
    rw [stems_eq hsegments, hstems, stemsFrom_concat_component _ _ hcomponent, List.map_append,
      List.append_assoc, firstStems, firstStems, firstComponent?, firstComponent?, habs]
    rfl

/-- The parent of a name in a folder is the folder, but for slashes and dots at its end. -/
theorem parent?_join (p : Path) (hname : IsName name) :
    (p.join ⟨name⟩).parent? = p.stems.getLast? := by
  obtain ⟨last, hstems⟩ := stems_join (p := p) hname
  rw [parent?_eq_getLast?, hstems, List.dropLast_concat]

/-- What has been left after dropping has no slash or dot at its end. -/
theorem getLast?_stems_of_above {i : Nat} (h : p.above (i + 1) = some q) :
    q.stems.getLast? = some q := by
  obtain ⟨r, -, hr⟩ := Option.bind_eq_some_iff.1 h
  obtain ⟨qs, last, hstems⟩ := exists_stems_of_parent? hr
  rw [(stems_of_stems_eq hstems).1, List.getLast?_concat]

end Phrasebook.Path

namespace Phrasebook.Workspace

variable {w : Workspace} {name : String}

/-- The folder around a file in the working folder is the working folder. -/
theorem parent?_join_path (hnames : ∀ name ∈ w.here, IsName name) (hname : IsName name) :
    (w.path.join ⟨name⟩).parent? = some w.path := by
  rw [Path.parent?_join _ hname]
  rcases List.eq_nil_or_concat' w.here with hhere | ⟨init, last, hhere⟩
  · rw [path, hhere]
    decide +kernel
  · have hmem : last ∈ w.here := hhere ▸ List.mem_append_right _ (List.mem_singleton_self _)
    have hne := List.ne_nil_of_mem hmem
    have hlast := Path.componentOf?_of_isName (hnames last hmem)
    rw [Path.stems_eq (segments_path hnames hne), path_eq_extend hne, hhere,
      Path.stemsFrom_concat_component _ _ (by rw [hlast]; rfl), List.map_append,
      ← List.append_assoc]
    exact List.getLast?_concat

end Phrasebook.Workspace
