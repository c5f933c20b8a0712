import Phrasebook.Proofs.Path.Join

/-!
# Components of joined paths

A dot counts only at the start of a path, so the components of a path that is put behind another are
its own but for that dot (`components_join`). What is left of a path without the dot has the same
components otherwise (`exists_below_dot`).
-/

namespace Phrasebook.Path

open Move

variable {base p q : Path} {s : String} {ss : List String} {c : Component}

/-- The components but for a dot at the start. -/
def parts (p : Path) : List Component := p.components.filter (· ≠ .current)

/-! ## Components by segments -/

theorem components_eq (hs : p.segments = s :: ss) :
    p.components = (p.firstComponent? s).toList ++ ss.filterMap componentOf? := by
  unfold components steps
  rw [hs]
  cases hc : p.firstComponent? s <;> simp [hc, List.filterMap_map]

theorem exists_components_of_isAbsolute (h : p.isAbsolute = true) :
    ∃ cs, p.components = .root :: cs := by
  obtain ⟨s, ss, hs⟩ := List.exists_cons_of_ne_nil p.segments_ne_nil
  rw [components_eq hs, firstComponent?, if_pos h]
  exact ⟨_, rfl⟩

theorem ne_of_componentOf? (h : componentOf? s = some c) : c ≠ .current ∧ c ≠ .root := by
  unfold componentOf? at h
  split at h
  · cases h
  split at h
  · cases h
  split at h <;> cases h <;> exact ⟨nofun, nofun⟩

/-- The segments behind the first one have no dot among their components. -/
theorem filter_components (ss : List String) :
    (ss.filterMap componentOf?).filter (· ≠ .current) = ss.filterMap componentOf? := by
  refine List.filter_eq_self.2 fun c hc => decide_eq_true ?_
  obtain ⟨s, -, hs⟩ := List.mem_filterMap.1 hc
  exact (ne_of_componentOf? hs).1

/-- A relative path has its components but for the dot also behind another path. -/
theorem parts_eq_of_relative (hp : p.isAbsolute = false) :
    p.parts = p.segments.filterMap componentOf? := by
  obtain ⟨s, ss, hs⟩ := List.exists_cons_of_ne_nil p.segments_ne_nil
  rw [parts, components_eq hs, hs, List.filter_append, filter_components, firstComponent?, hp,
    if_neg Bool.false_ne_true, List.filterMap_cons]
  split
  · rename_i hdot
    rw [hdot]
    rfl
  · cases hc : componentOf? s with
    | none => rfl
    | some c =>
      have hkept : [c].filter (· ≠ .current) = [c] :=
        List.filter_cons_of_pos (decide_eq_true (ne_of_componentOf? hc).1)
      rw [Option.toList_some, hkept]
      rfl

/-- **The components of a joined path.** -/
theorem components_join (hb : base.text ≠ "") (hp : p.isAbsolute = false) :
    (base.join p).components = base.components ++ p.parts := by
  have habs := isAbsolute_join hb hp
  obtain ⟨read, hread, hjoin⟩ := exists_join_eq hb hp
  obtain ⟨s, ss, hs⟩ := List.exists_cons_of_ne_nil (segments_ne_nil ⟨read⟩)
  -- a slash at the end of the base adds a segment that is no component
  have hbase : base.components = (base.firstComponent? s).toList ++ ss.filterMap componentOf? := by
    rcases hread with rfl | rfl
    · exact components_eq hs
    · have hslash : (⟨read ++ "/"⟩ : Path).segments = s :: (ss ++ [""]) := by
        rw [← String.append_empty (s := read ++ "/"), segments_append_slash, hs]
        rfl
      have hempty : [""].filterMap componentOf? = [] := rfl
      rw [components_eq hslash, List.filterMap_append, hempty, List.append_nil]
  have hsegments : (base.join p).segments = s :: (ss ++ p.segments) := by
    rw [hjoin, segments_append_slash, hs]
    rfl
  rw [components_eq hsegments, hbase, parts_eq_of_relative hp, List.filterMap_append,
    List.append_assoc, firstComponent?, firstComponent?, habs]

theorem join_empty (h : base.text = "") (p : Path) : base.join p = p := by
  obtain ⟨text⟩ := base
  obtain rfl : text = "" := h
  unfold join
  split
  · rfl
  · exact congrArg Path.mk String.empty_append

theorem components_of_text_eq (h : p.text = "") : p.components = [] := by
  obtain ⟨text⟩ := p
  obtain rfl : text = "" := h
  rfl

theorem parts_join (base : Path) (hp : p.isAbsolute = false) :
    (base.join p).parts = base.parts ++ p.parts := by
  by_cases hb : base.text = ""
  · rw [join_empty hb, parts, parts, components_of_text_eq hb]
    rfl
  · rw [parts, components_join hb hp, List.filter_append]
    congr 1
    rw [parts, List.filter_filter]
    simp

/-! ## Without the dot -/

/-- The segments from the first to the last that is a component. -/
def trim (ss : List String) : List String :=
  ((ss.dropWhile fun s => (componentOf? s).isNone).reverse.dropWhile
    fun s => (componentOf? s).isNone).reverse

theorem map_fst_trimSteps (ss : List String) :
    (trimSteps (ss.map fun s => (s, componentOf? s))).map Prod.fst = trim ss := by
  have hfst : ∀ ss : List String, (ss.map fun s => (s, componentOf? s)).map Prod.fst = ss := by
    intro ss
    rw [List.map_map]
    exact List.map_id ss
  unfold trimSteps trim
  rw [List.dropWhile_map, ← List.map_reverse, List.dropWhile_map, ← List.map_reverse, hfst]
  rfl

/-- What is trimmed off are no components, and what is left ends with one if there is any. -/
theorem exists_eq_trim (ss : List String) :
    ∃ before after, ss = before ++ trim ss ++ after ∧
      (∀ s ∈ before, componentOf? s = none) ∧ (∀ s ∈ after, componentOf? s = none) ∧
      (∀ s ∈ (trim ss).head?, (componentOf? s).isSome = true) ∧
      ∀ s ∈ (trim ss).getLast?, (componentOf? s).isSome = true := by
  set blank : String → Bool := fun s => (componentOf? s).isNone with hblank
  have hnone : ∀ {s}, blank s = true → componentOf? s = none := Option.isNone_iff_eq_none.1
  have hsome : ∀ {s}, ¬ blank s = true → (componentOf? s).isSome = true := by
    intro s hs
    rwa [Bool.not_eq_true, hblank, Option.isNone_eq_false_iff] at hs
  set rest := ss.dropWhile blank with hrest
  have htrim : trim ss = (rest.reverse.dropWhile blank).reverse := rfl
  have hsplit : rest = trim ss ++ (rest.reverse.takeWhile blank).reverse := by
    rw [htrim, ← List.reverse_append, List.takeWhile_append_dropWhile, List.reverse_reverse]
  refine ⟨ss.takeWhile blank, (rest.reverse.takeWhile blank).reverse, ?_, ?_, ?_, ?_, ?_⟩
  · rw [List.append_assoc, ← hsplit, List.takeWhile_append_dropWhile]
  · exact fun s hs => hnone (List.mem_takeWhile_imp hs)
  · exact fun s hs => hnone (List.mem_takeWhile_imp (List.mem_reverse.1 hs))
  · intro s hs
    have hhead : rest.head? = some s := by
      rw [hsplit, List.head?_append, hs]
      rfl
    refine hsome fun hb => ?_
    have := List.head?_dropWhile_not blank ss
    rw [← hrest, hhead] at this
    simp [hb] at this
  · intro s hs
    rw [htrim, List.getLast?_reverse] at hs
    refine hsome fun hb => ?_
    have := List.head?_dropWhile_not blank rest.reverse
    rw [Option.mem_def.1 hs] at this
    simp [hb] at this

theorem trim_subset (ss : List String) : trim ss ⊆ ss := by
  obtain ⟨before, after, hss, -⟩ := exists_eq_trim ss
  intro s hs
  rw [hss]
  exact List.mem_append_left _ (List.mem_append_right _ hs)

theorem filterMap_trim (ss : List String) :
    (trim ss).filterMap componentOf? = ss.filterMap componentOf? := by
  obtain ⟨before, after, hss, hbefore, hafter, -⟩ := exists_eq_trim ss
  conv_rhs => rw [hss]
  rw [List.filterMap_append, List.filterMap_append, List.filterMap_eq_nil_iff.2 hbefore,
    List.filterMap_eq_nil_iff.2 hafter, List.nil_append, List.append_nil]

/-- A path that starts with a dot. -/
theorem exists_segments_of_dot (h : p.components.head? = some .current) :
    ∃ ss, p.segments = "." :: ss ∧ p.isAbsolute = false := by
  obtain ⟨s, ss, hs⟩ := List.exists_cons_of_ne_nil p.segments_ne_nil
  have hne : p.text ≠ "" := fun he => by
    rw [components_of_text_eq he] at h
    cases h
  obtain ⟨c, hc⟩ := Option.isSome_iff_exists.1 (way_eq_cons hne hs).1
  rw [components_eq hs, hc] at h
  obtain rfl : c = .current := Option.some.inj h
  unfold firstComponent? at hc
  split at hc
  · cases hc
  · rename_i habs
    split at hc
    · rename_i hdot
      exact ⟨ss, hdot ▸ hs, Bool.not_eq_true _ ▸ habs⟩
    · exact absurd rfl (ne_of_componentOf? hc).1

/-- What is left of a path without the dot at its start. -/
theorem below?_dot (hs : p.segments = "." :: ss) (habs : p.isAbsolute = false) :
    p.below? ⟨"."⟩ = some ⟨"/".intercalate (trim ss)⟩ := by
  have hdot : (⟨"."⟩ : Path).components = [.current] := by decide +kernel
  have hfirst : p.firstComponent? "." = some .current := by
    rw [firstComponent?, habs]
    rfl
  have hsteps : p.steps = (".", some .current) :: ss.map fun s => (s, componentOf? s) := by
    unfold steps
    rw [hs]
    dsimp only
    rw [hfirst]
  have hpre : ([.current] : List Component).isPrefixOf p.components = true := by
    rw [components_eq hs, hfirst]
    rfl
  have hdrop : ∀ steps, dropComponents 1 ((".", some .current) :: steps) = steps := by
    intro steps
    rw [dropComponents, dropComponents]
  unfold below?
  rw [hdot, if_pos hpre, hsteps, ← map_fst_trimSteps, List.length_singleton, hdrop]

theorem below?_dot_eq_none (h : p.components.head? ≠ some .current) : p.below? ⟨"."⟩ = none := by
  have hdot : (⟨"."⟩ : Path).components = [.current] := by decide +kernel
  unfold below?
  rw [hdot, if_neg]
  cases hc : p.components with
  | nil => exact Bool.false_ne_true
  | cons c cs =>
    rw [hc] at h
    have hne : Component.current ≠ c := fun he => h (he ▸ rfl)
    simp [hne]

/-- **A path without the dot at its start** has the components that it has behind another path. -/
theorem exists_below_dot (h : p.components.head? = some .current) :
    ∃ q, p.below? ⟨"."⟩ = some q ∧ q.isAbsolute = false ∧ q.parts = p.parts := by
  obtain ⟨ss, hs, habs⟩ := exists_segments_of_dot h
  refine ⟨_, below?_dot hs habs, ?_⟩
  have hparts : p.parts = ss.filterMap componentOf? := by
    rw [parts_eq_of_relative habs, hs]
    rfl
  rw [hparts, ← filterMap_trim ss]
  by_cases htrim : trim ss = []
  · rw [htrim]
    exact ⟨rfl, rfl⟩
  · have hsegments := segments_intercalate htrim fun s hs' =>
      not_mem_of_mem_segments (hs ▸ List.mem_cons_of_mem _ (trim_subset ss hs'))
    obtain ⟨-, -, -, -, -, hhead, -⟩ := exists_eq_trim ss
    obtain ⟨s, rest, hrest⟩ := List.exists_cons_of_ne_nil htrim
    have hne : s ≠ "" := by
      rintro rfl
      have := hhead "" (by rw [hrest]; rfl)
      cases this
    have htext : (⟨"/".intercalate (trim ss)⟩ : Path).text ≠ "" := by
      intro he
      have hseg : (⟨"/".intercalate (trim ss)⟩ : Path).segments = [""] := by
        unfold segments
        rw [he]
        rfl
      rw [hsegments, hrest] at hseg
      exact hne (List.cons.inj hseg).1
    have hrelative : (⟨"/".intercalate (trim ss)⟩ : Path).isAbsolute = false := by
      rw [Bool.eq_false_iff, ne_eq, (segments_eq_cons htext (hsegments.trans hrest)).2]
      exact hne
    exact ⟨hrelative, by rw [parts_eq_of_relative hrelative, hsegments]⟩

/-- A path without its dot at the start, if it has one. -/
theorem parts_getD_below_dot (hp : p.isAbsolute = false) :
    ((p.below? ⟨"."⟩).getD p).isAbsolute = false ∧ ((p.below? ⟨"."⟩).getD p).parts = p.parts := by
  by_cases hdot : p.components.head? = some .current
  · obtain ⟨q, hq, habs, hparts⟩ := exists_below_dot hdot
    rw [hq]
    exact ⟨habs, hparts⟩
  · rw [below?_dot_eq_none hdot]
    exact ⟨hp, rfl⟩

/-! ## Below a path -/

/-- Dropping all components leaves what is none. -/
theorem isNone_of_mem_dropComponents {steps : List (String × Option Component)}
    {x : String × Option Component}
    (h : x ∈ dropComponents (steps.filterMap Prod.snd).length steps) : x.2.isNone = true := by
  induction steps with
  | nil => cases h
  | cons step steps ih =>
    obtain ⟨s, _ | c⟩ := step
    · have hs : ((s, none) : String × Option Component).2 = none := rfl
      rw [List.filterMap_cons_none hs] at h
      cases hn : (steps.filterMap Prod.snd).length with
      | zero =>
        rw [hn, dropComponents] at h ih
        rcases List.mem_cons.1 h with rfl | h
        · rfl
        · exact ih h
      | succ n =>
        rw [hn, dropComponents] at h
        rw [hn] at ih
        exact ih h
    · have hs : ((s, some c) : String × Option Component).2 = some c := rfl
      rw [List.filterMap_cons_some hs, List.length_cons, dropComponents] at h
      exact ih h

/-- Nothing is left of a path below itself. -/
theorem below?_self (p : Path) : p.below? p = some ⟨""⟩ := by
  have hpre : p.components.isPrefixOf p.components = true :=
    List.isPrefixOf_iff_prefix.2 List.prefix_rfl
  have hdrop : (dropComponents p.components.length p.steps).dropWhile (·.2.isNone) = [] :=
    List.dropWhile_eq_nil_iff.2 fun x hx => isNone_of_mem_dropComponents hx
  unfold below?
  rw [if_pos hpre, trimSteps, hdrop]
  rfl

theorem below?_eq_none (h : p.components.length < q.components.length) : p.below? q = none := by
  unfold below?
  rw [if_neg]
  intro hpre
  exact absurd (List.isPrefixOf_iff_prefix.1 hpre).length_le (Nat.not_le.2 h)

end Phrasebook.Path
