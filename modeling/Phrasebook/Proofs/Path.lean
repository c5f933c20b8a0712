import Mathlib.Data.List.TakeWhile
import Phrasebook.Proofs.FileTree

/-!
# The ways that paths describe

A path is read from its start, the root or the working folder, one component after another. The
folders around a path lead along its components but the last (`way_around`), and a path that ends in
a name leads along all of them (`follow_moves`).
-/

namespace Phrasebook

namespace Move

/-- The step of a segment. -/
def ofSegment (s : String) : Move :=
  if s = "" ∨ s = "." then .stay else if s = ".." then .up else .down s

end Move

namespace Path

open FileTree Move

/-- The step of a component. -/
def Component.move : Component → Move
  | root => .stay
  | current => .stay
  | parent => .up
  | name n => .down n

/-- The steps of the components. -/
def way (p : Path) : List Move := p.components.map Component.move

/-- The folders around a path that have a path of their own, the nearest first. -/
def around (p : Path) : List Path := p.ancestors.tail.filter (·.text ≠ "")

variable {p : Path} {s : String} {ss : List String}

/-! ## Segments -/

theorem not_mem_of_mem_splitOn {a : Char} {cs part : List Char} (h : part ∈ cs.splitOn a) :
    a ∉ part := by
  induction cs generalizing part with
  | nil =>
    rw [List.splitOn_nil, List.mem_singleton] at h
    rw [h]
    exact List.not_mem_nil
  | cons c cs ih =>
    rw [List.splitOn_cons_eq_if_modifyHead] at h
    cases hc : c == a with
    | true =>
      rw [hc, if_pos rfl] at h
      rcases List.mem_cons.1 h with rfl | h
      · exact List.not_mem_nil
      · exact ih h
    | false =>
      rw [hc, if_neg Bool.false_ne_true] at h
      obtain ⟨first, rest, hs⟩ := List.exists_cons_of_ne_nil (List.splitOn_ne_nil a cs)
      rw [hs] at h ih
      rcases List.mem_cons.1 h with rfl | h
      · rw [List.mem_cons, not_or]
        exact ⟨fun he => by simp [he] at hc, ih List.mem_cons_self⟩
      · exact ih (List.mem_cons_of_mem first h)

theorem not_mem_of_mem_segments (h : s ∈ p.segments) : '/' ∉ s.toList := by
  obtain ⟨part, hpart, rfl⟩ := List.mem_map.1 h
  rw [String.toList_ofList]
  exact not_mem_of_mem_splitOn hpart

theorem segments_ne_nil (p : Path) : p.segments ≠ [] := by
  unfold segments
  rw [ne_eq, List.map_eq_nil_iff]
  exact List.splitOn_ne_nil _ _

/-- A path that goes on behind a slash. -/
theorem segments_append_slash (read rest : String) :
    (⟨read ++ "/" ++ rest⟩ : Path).segments =
      (⟨read⟩ : Path).segments ++ (⟨rest⟩ : Path).segments := by
  unfold segments
  rw [← List.map_append]
  dsimp only
  rw [String.toList_append, String.toList_append, List.append_assoc]
  exact congrArg _ (List.splitOn_append_cons_self _ _)

theorem segments_of_not_mem (h : '/' ∉ s.toList) : (⟨s⟩ : Path).segments = [s] := by
  unfold segments
  dsimp only
  rw [List.splitOn_eq_singleton h, List.map_singleton, String.ofList_toList]

/-- Segments put together again. -/
theorem segments_intercalate (hne : ss ≠ []) (hss : ∀ s ∈ ss, '/' ∉ s.toList) :
    (⟨"/".intercalate ss⟩ : Path).segments = ss := by
  have hslash : ∀ cs ∈ ss.map String.toList, '/' ∉ cs := by
    intro cs hcs
    obtain ⟨s, hs, rfl⟩ := List.mem_map.1 hcs
    exact hss s hs
  unfold segments
  dsimp only
  rw [String.toList_intercalate]
  show (List.splitOn '/' (['/'].intercalate _)).map _ = _
  rw [List.splitOn_intercalate '/' hslash (by simpa using hne), List.map_map]
  simp

theorem moves_eq (p : Path) : p.moves = p.segments.map ofSegment := rfl

theorem moves_ne_nil (p : Path) : p.moves ≠ [] := by
  rw [moves_eq, ne_eq, List.map_eq_nil_iff]
  exact p.segments_ne_nil

theorem moves_append_slash (read rest : String) :
    (⟨read ++ "/" ++ rest⟩ : Path).moves = (⟨read⟩ : Path).moves ++ (⟨rest⟩ : Path).moves := by
  rw [moves_eq, segments_append_slash, List.map_append]
  rfl

theorem moves_of_not_mem (h : '/' ∉ s.toList) : (⟨s⟩ : Path).moves = [ofSegment s] := by
  rw [moves_eq, segments_of_not_mem h, List.map_singleton]

/-! ## The ends of paths -/

/-- What a path is without the slashes at its end. -/
def withoutSlashes (p : Path) : Path :=
  ⟨String.ofList (p.text.toList.reverse.dropWhile (· = '/')).reverse⟩

/-- Leaving out the slashes at the end changes the paths that end with one. -/
theorem withoutSlashes_eq_iff : p.withoutSlashes = p ↔ p.text.toList.getLast? ≠ some '/' := by
  obtain ⟨text⟩ := p
  rw [withoutSlashes, Path.mk.injEq, ← String.toList_inj, String.toList_ofList, List.reverse_eq_iff,
    List.getLast?_eq_head?_reverse]
  dsimp only
  cases hl : text.toList.reverse with
  | nil => simp
  | cons c cs =>
    by_cases hc : c = '/'
    · subst hc
      have hlt : (List.dropWhile (· = '/') ('/' :: cs)).length < ('/' :: cs).length := by
        rw [List.dropWhile_cons_of_pos (by decide)]
        exact Nat.lt_succ_of_le (List.dropWhile_suffix _).length_le
      refine ⟨fun he => ?_, fun hne => absurd rfl hne⟩
      rw [he] at hlt
      exact absurd hlt (Nat.lt_irrefl _)
    · simp [hc]

/-- What has been left out starts with a slash. -/
theorem exists_eq_withoutSlashes_append (h : p.withoutSlashes ≠ p) :
    ∃ rest, p = ⟨p.withoutSlashes.text ++ "/" ++ rest⟩ := by
  have hsplit : p.text.toList = (p.text.toList.reverse.dropWhile (· = '/')).reverse ++
      (p.text.toList.reverse.takeWhile (· = '/')).reverse := by
    rw [← List.reverse_append, List.takeWhile_append_dropWhile, List.reverse_reverse]
  have htext := congrArg String.ofList hsplit
  rw [String.ofList_toList, String.ofList_append] at htext
  cases hslashes : (p.text.toList.reverse.takeWhile (· = '/')).reverse with
  | nil =>
    rw [hslashes, String.ofList_nil, String.append_empty] at htext
    exact absurd (congrArg Path.mk htext.symm) h
  | cons c rest =>
    have hc : c = '/' := by
      have hmem : c ∈ p.text.toList.reverse.takeWhile (· = '/') :=
        List.mem_reverse.1 (hslashes ▸ List.mem_cons_self)
      exact of_decide_eq_true (List.mem_takeWhile_imp (p := (· = '/')) hmem)
    refine ⟨String.ofList rest, congrArg Path.mk ?_⟩
    rw [hslashes, hc, ← List.singleton_append, String.ofList_append, ← String.append_assoc] at htext
    exact htext

/-- A path that ends with a slash ends with staying. -/
theorem getLast?_moves_of_slash (h : p.text.toList.getLast? = some '/') :
    p.moves.getLast? = some .stay := by
  obtain ⟨cs, hcs⟩ := List.getLast?_eq_some_iff.1 h
  have hp : p = ⟨String.ofList cs ++ "/" ++ ""⟩ := by
    obtain ⟨text⟩ := p
    rw [← String.ofList_toList (s := text), hcs, String.append_empty, String.ofList_append]
  rw [hp, moves_append_slash]
  exact List.getLast?_concat

theorem text_ne_of_getLast?_moves {name : String} (h : p.moves.getLast? = some (.down name)) :
    p.text ≠ "" := by
  obtain ⟨text⟩ := p
  rintro rfl
  cases h

/-! ## Components -/

theorem ofSegment_eq (s : String) :
    ofSegment s = ((componentOf? s).map Component.move).getD .stay := by
  by_cases hempty : s = ""
  · rw [hempty]; rfl
  by_cases hdot : s = "."
  · rw [hdot]; rfl
  by_cases hdots : s = ".."
  · rw [hdots]; rfl
  · simp [ofSegment, componentOf?, hempty, hdot, hdots, Component.move]

theorem ofSegment_of_componentOf? {c : Component} (h : componentOf? s = some c) :
    ofSegment s = c.move := by
  rw [ofSegment_eq, h]
  rfl

theorem ofSegment_of_not_component (h : componentOf? s = none) : ofSegment s = .stay := by
  rw [ofSegment_eq, h]
  rfl

theorem isAbsolute_append {a b : String} (h : a ≠ "") :
    (⟨a ++ b⟩ : Path).isAbsolute = (⟨a⟩ : Path).isAbsolute := by
  unfold isAbsolute
  dsimp only
  rw [String.toList_append]
  cases hl : a.toList with
  | nil => exact absurd (String.toList_eq_nil_iff.1 hl) h
  | cons c cs => rfl

/-- A path starts at the root exactly if its first segment is empty. -/
theorem segments_eq_cons (h : p.text ≠ "") (hs : p.segments = s :: ss) :
    (⟨s⟩ : Path).isAbsolute = false ∧ (p.isAbsolute = true ↔ s = "") := by
  have hmem : s ∈ p.segments := hs ▸ List.mem_cons_self
  refine ⟨?_, ?_⟩
  · unfold isAbsolute
    dsimp only
    rw [decide_eq_false_iff_not]
    exact fun hh => not_mem_of_mem_segments hmem (List.mem_of_mem_head? hh)
  · unfold segments at hs
    unfold isAbsolute
    cases hl : p.text.toList with
    | nil => exact absurd (String.toList_eq_nil_iff.1 hl) h
    | cons c cs =>
      rw [hl, List.splitOn_cons_eq_if_modifyHead] at hs
      obtain ⟨part, parts, hp⟩ := List.exists_cons_of_ne_nil (List.splitOn_ne_nil '/' cs)
      by_cases hc : c = '/'
      · subst hc
        simp only [beq_self_eq_true, if_true, List.map_cons, List.cons.injEq] at hs
        simp [← hs.1]
      · have hb : (c == '/') = false := by simpa using hc
        rw [hb, hp, if_neg Bool.false_ne_true] at hs
        obtain ⟨rfl, -⟩ := List.cons.inj hs
        simp [hc]

/-- The way of a path goes by its first segment and then by the components of the others. -/
theorem way_eq_cons (h : p.text ≠ "") (hs : p.segments = s :: ss) :
    (p.firstComponent? s).isSome = true ∧
      p.way = ofSegment s :: (ss.filterMap componentOf?).map Component.move := by
  have hway : p.way = ((p.firstComponent? s).toList ++ ss.filterMap componentOf?).map
      Component.move := by
    unfold way components steps
    rw [hs]
    cases hc : p.firstComponent? s <;> simp [hc, List.filterMap_map]
  obtain ⟨-, habs⟩ := segments_eq_cons h hs
  rw [hway]
  unfold firstComponent?
  cases ha : p.isAbsolute with
  | true =>
    rw [habs.1 ha]
    exact ⟨rfl, rfl⟩
  | false =>
    have hne : s ≠ "" := fun he => by rw [habs.2 he] at ha; cases ha
    by_cases hdot : s = "."
    · rw [hdot]
      exact ⟨rfl, rfl⟩
    · cases hc : componentOf? s with
      | none => simp [componentOf?, hne, hdot] at hc; split at hc <;> cases hc
      | some c =>
        rw [ofSegment_of_componentOf? hc]
        simp [hdot]

/-! ## The folders around a path -/

/-- Paths, the longest first, each of which leads one step farther than the one after it. -/
inductive Leads (absolute : Bool) : List Path → List Move → Prop
  | nil : Leads absolute [] []
  | cons {q : Path} {qs : List Path} {m : Move} {ms : List Move} : Leads absolute qs ms →
      q.isAbsolute = absolute → q.text ≠ "" →
      (∀ (t : FileTree) (l : Location), t.follow l q.moves = t.follow l (ms ++ [m])) →
      Leads absolute (q :: qs) (ms ++ [m])

theorem Leads.text_ne {absolute : Bool} {qs : List Path} {ms : List Move}
    (h : Leads absolute qs ms) : ∀ q ∈ qs, q.text ≠ "" := by
  induction h with
  | nil => exact nofun
  | cons _ _ hne _ ih => exact List.forall_mem_cons.2 ⟨hne, ih⟩

theorem Leads.tail {absolute : Bool} {qs : List Path} {ms : List Move}
    (h : Leads absolute qs ms) : Leads absolute qs.tail ms.dropLast := by
  cases h with
  | nil => exact .nil
  | cons h _ _ _ =>
    rw [List.dropLast_concat]
    exact h

theorem append_slash_ne_empty (read rest : String) : read ++ "/" ++ rest ≠ "" := by
  intro h
  have hlist := congrArg String.toList h
  simp at hlist

/-- The folders on the way go on in those that are read next. -/
theorem leads_stemsFrom {absolute : Bool} (read : String) (ss : List String)
    (hss : ∀ s ∈ ss, '/' ∉ s.toList)
    (habs : ∀ rest, (⟨read ++ "/" ++ rest⟩ : Path).isAbsolute = absolute)
    {qs : List Path} {ms : List Move} (h : Leads absolute qs ms)
    (hread : ∀ (t : FileTree) (l : Location) (xs : List Move), xs ≠ [] →
      t.follow l ((⟨read⟩ : Path).moves ++ xs) = t.follow l (ms ++ xs)) :
    Leads absolute (((stemsFrom read ss).map Path.mk).reverse ++ qs)
      (ms ++ (ss.filterMap componentOf?).map Component.move) := by
  induction ss generalizing read qs ms with
  | nil => simpa [stemsFrom] using h
  | cons s ss ih =>
    obtain ⟨hs, hss⟩ := List.forall_mem_cons.1 hss
    have hmoves : (⟨read ++ "/" ++ s⟩ : Path).moves = (⟨read⟩ : Path).moves ++ [ofSegment s] := by
      rw [moves_append_slash, moves_of_not_mem hs]
    have habs' : ∀ rest, (⟨read ++ "/" ++ s ++ "/" ++ rest⟩ : Path).isAbsolute = absolute := by
      intro rest
      rw [← habs (s ++ "/" ++ rest)]
      simp only [String.append_assoc]
    unfold stemsFrom
    cases hc : componentOf? s with
    | some c =>
      rw [ofSegment_of_componentOf? hc] at hmoves
      have hq : Leads absolute (⟨read ++ "/" ++ s⟩ :: qs) (ms ++ [c.move]) := by
        refine .cons h (habs s) (append_slash_ne_empty _ _) fun t l => ?_
        rw [hmoves]
        exact hread t l _ (List.cons_ne_nil _ _)
      have hstep := ih (read ++ "/" ++ s) hss habs' hq fun t l xs _ => by
        rw [hmoves, List.append_assoc, List.append_assoc]
        exact hread t l _ (List.cons_ne_nil _ _)
      simpa [hc] using hstep
    | none =>
      rw [ofSegment_of_not_component hc] at hmoves
      have hstep := ih (read ++ "/" ++ s) hss habs' h fun t l xs hxs => by
        rw [hmoves, List.append_assoc, List.singleton_append, hread t l _ (List.cons_ne_nil _ _)]
        exact follow_append_congr (fun l => follow_stay_cons hxs) ms
      simpa [hc] using hstep

theorem exists_stems (h : p.text ≠ "") :
    ∃ empty qs, p.stems = empty ++ qs ∧ (∀ q ∈ empty, q.text = "" ∧ p.isAbsolute = false) ∧
      qs ≠ [] ∧ Leads p.isAbsolute qs.reverse p.way := by
  obtain ⟨first, rest, hs⟩ := List.exists_cons_of_ne_nil p.segments_ne_nil
  have hmem : ∀ s ∈ first :: rest, '/' ∉ s.toList := fun s hm => not_mem_of_mem_segments (hs ▸ hm)
  obtain ⟨hfirst, hrest⟩ := List.forall_mem_cons.1 hmem
  obtain ⟨hrelative, habs⟩ := segments_eq_cons h hs
  obtain ⟨hcomponent, hway⟩ := way_eq_cons h hs
  unfold stems
  rw [hs, hway]
  dsimp only
  cases ha : p.isAbsolute with
  | true =>
    rw [habs.1 ha, if_pos rfl]
    refine ⟨[], _, rfl, nofun, List.cons_ne_nil _ _, ?_⟩
    have hroot : Leads true [⟨"/"⟩] [.stay] :=
      .cons .nil rfl (by decide) fun t l => follow_stay_cons (List.cons_ne_nil _ _)
    rw [List.reverse_cons]
    refine leads_stemsFrom "" rest hrest (fun r => ?_) hroot fun _ _ _ _ => rfl
    rw [isAbsolute_append (by decide)]
    rfl
  | false =>
    have hne : first ≠ "" := fun he => by rw [habs.2 he] at ha; cases ha
    rw [if_neg Bool.false_ne_true, hcomponent, if_pos rfl]
    refine ⟨[⟨""⟩], _, rfl, by simp, List.cons_ne_nil _ _, ?_⟩
    have hmoves := moves_of_not_mem hfirst
    have hstart : Leads false [⟨first⟩] [ofSegment first] :=
      .cons .nil hrelative hne fun t l => by rw [hmoves]; rfl
    show Leads false (⟨first⟩ :: (stemsFrom first rest).map Path.mk).reverse _
    rw [List.reverse_cons]
    refine leads_stemsFrom first rest hrest (fun r => ?_) hstart fun t l xs _ => by rw [hmoves]
    rw [String.append_assoc, isAbsolute_append hne]
    exact hrelative

/-- The folders around a path come before what else is around it, and lead along its way. -/
theorem exists_around (p : Path) :
    ∃ empty, p.ancestors.tail = p.around ++ empty ∧
      (∀ q ∈ empty, q.text = "" ∧ p.isAbsolute = false) ∧
      Leads p.isAbsolute p.around p.way.dropLast := by
  by_cases h : p.text = ""
  · obtain ⟨text⟩ := p
    subst h
    exact ⟨[], rfl, nofun, .nil⟩
  · obtain ⟨empty, qs, hstems, hempty, hne, hleads⟩ := exists_stems h
    have hnone : empty.reverse.filter (·.text ≠ "") = [] :=
      List.filter_eq_nil_iff.2 fun q hq => by simp [(hempty q (List.mem_reverse.1 hq)).1]
    have hall : qs.reverse.tail.filter (·.text ≠ "") = qs.reverse.tail :=
      List.filter_eq_self.2 fun q hq => decide_eq_true (hleads.tail.text_ne q hq)
    have htail : p.ancestors.tail = qs.reverse.tail ++ empty.reverse := by
      rw [ancestors, List.tail_cons, hstems, List.dropLast_append_of_ne_nil hne,
        List.reverse_append, List.tail_reverse]
    have haround : p.around = qs.reverse.tail := by
      rw [around, htail, List.filter_append, hnone, hall, List.append_nil]
    rw [haround]
    exact ⟨empty.reverse, htail, fun q hq => hempty q (List.mem_reverse.1 hq), hleads.tail⟩

/-- The folders around a path lead along its components but the last. -/
theorem way_around (p : Path) : Leads p.isAbsolute p.around p.way.dropLast := by
  obtain ⟨_, -, -, hleads⟩ := p.exists_around
  exact hleads

theorem passed_way (h : p.text ≠ "") (l : Location) :
    passed l p.way = passed l p.way.dropLast ++ [destination l p.way.dropLast] := by
  have hne : p.way ≠ [] := by
    obtain ⟨first, rest, hs⟩ := List.exists_cons_of_ne_nil p.segments_ne_nil
    rw [(way_eq_cons h hs).2]
    exact List.cons_ne_nil _ _
  rw [← passed_concat, List.dropLast_concat_getLast hne]

theorem follow_map_ofSegment (t : FileTree) (l : Location)
    (h : (ss.map ofSegment).getLast? ≠ some .stay) :
    t.follow l (ss.map ofSegment) =
      t.follow l ((ss.filterMap componentOf?).map Component.move) := by
  induction ss generalizing l with
  | nil => rfl
  | cons s ss ih =>
    rw [List.map_cons] at h ⊢
    cases hc : componentOf? s with
    | none =>
      rw [ofSegment_of_not_component hc] at h ⊢
      have hne : ss.map ofSegment ≠ [] := fun he => h (by rw [he]; rfl)
      rw [List.getLast?_cons_of_ne_nil hne] at h
      rw [List.filterMap_cons_none hc, follow_stay_cons hne]
      exact ih l h
    | some c =>
      rw [List.filterMap_cons_some hc, List.map_cons, ofSegment_of_componentOf? hc, follow_cons,
        follow_cons]
      by_cases he : ss = []
      · rw [he]; rfl
      · have hne : ss.map ofSegment ≠ [] := fun hm => he (List.map_eq_nil_iff.1 hm)
        rw [List.getLast?_cons_of_ne_nil hne] at h
        rw [ih _ h]

/-- A path that does not end with staying leads along its components. -/
theorem follow_moves (h : p.text ≠ "") (hlast : p.moves.getLast? ≠ some .stay) (t : FileTree)
    (l : Location) : t.follow l p.moves = t.follow l p.way := by
  obtain ⟨first, rest, hs⟩ := List.exists_cons_of_ne_nil p.segments_ne_nil
  obtain ⟨-, hway⟩ := way_eq_cons h hs
  rw [moves_eq, hs, List.map_cons] at hlast ⊢
  rw [hway, follow_cons, follow_cons]
  by_cases he : rest = []
  · rw [he]; rfl
  · have hne : rest.map ofSegment ≠ [] := fun hm => he (List.map_eq_nil_iff.1 hm)
    rw [List.getLast?_cons_of_ne_nil hne] at hlast
    rw [follow_map_ofSegment _ _ hlast]

theorem follow_components_of_segments {t : FileTree} {l l' : Location}
    (h : t.follow l (ss.map ofSegment) = .ok l') :
    t.follow l ((ss.filterMap componentOf?).map Component.move) = .ok l' := by
  induction ss generalizing l with
  | nil => exact h
  | cons s ss ih =>
    rw [List.map_cons, follow_cons] at h
    split at h
    · cases h
    · cases h
    · rename_i hf
      cases hc : componentOf? s with
      | none =>
        rw [ofSegment_of_not_component hc] at h
        rw [List.filterMap_cons_none hc]
        exact ih h
      | some c =>
        rw [ofSegment_of_componentOf? hc] at h
        rw [List.filterMap_cons_some hc, List.map_cons, follow_cons_folder hf]
        exact ih h

/-- Where a path leads, its components lead. -/
theorem follow_way_of_moves {t : FileTree} {l l' : Location} (hp : p.text ≠ "")
    (h : t.follow l p.moves = .ok l') : t.follow l p.way = .ok l' := by
  obtain ⟨first, rest, hs⟩ := List.exists_cons_of_ne_nil p.segments_ne_nil
  obtain ⟨-, hway⟩ := way_eq_cons hp hs
  rw [moves_eq, hs, List.map_cons, follow_cons] at h
  rw [hway, follow_cons]
  split at h
  · cases h
  · cases h
  · exact follow_components_of_segments h

theorem mem_passed_map_ofSegment
    (h : x ∈ passed l ((ss.filterMap componentOf?).map Component.move)) :
    x ∈ passed l (ss.map ofSegment) := by
  induction ss generalizing l with
  | nil => exact h
  | cons s ss ih =>
    rw [List.map_cons]
    cases hc : componentOf? s with
    | none =>
      rw [List.filterMap_cons_none hc] at h
      rw [ofSegment_of_not_component hc]
      exact List.mem_cons_of_mem l (ih h)
    | some c =>
      rw [List.filterMap_cons_some hc, List.map_cons] at h
      rw [ofSegment_of_componentOf? hc]
      exact (List.mem_cons.1 h).elim (fun he => he ▸ List.mem_cons_self)
        fun h => List.mem_cons_of_mem l (ih h)

/-- The components of a path lead through nothing that the path does not lead through. -/
theorem mem_passed_of_mem_way (hne : p.text ≠ "") (h : x ∈ passed l p.way) :
    x ∈ passed l p.moves := by
  obtain ⟨first, rest, hs⟩ := List.exists_cons_of_ne_nil p.segments_ne_nil
  rw [(way_eq_cons hne hs).2] at h
  rw [moves_eq, hs, List.map_cons]
  exact (List.mem_cons.1 h).elim (fun he => he ▸ List.mem_cons_self)
    fun h => List.mem_cons_of_mem l (mem_passed_map_ofSegment h)

theorem destination_map_ofSegment (ss : List String) (l : Location) :
    destination l (ss.map ofSegment) =
      destination l ((ss.filterMap componentOf?).map Component.move) := by
  induction ss generalizing l with
  | nil => rfl
  | cons s ss ih =>
    cases hc : componentOf? s with
    | none =>
      rw [List.map_cons, ofSegment_of_not_component hc, List.filterMap_cons_none hc]
      exact ih l
    | some c =>
      rw [List.map_cons, ofSegment_of_componentOf? hc, List.filterMap_cons_some hc]
      exact ih _

/-- The components of a path lead where the path leads. -/
theorem destination_way (h : p.text ≠ "") (l : Location) :
    destination l p.way = destination l p.moves := by
  obtain ⟨first, rest, hs⟩ := List.exists_cons_of_ne_nil p.segments_ne_nil
  obtain ⟨-, hway⟩ := way_eq_cons h hs
  rw [moves_eq, hs, hway]
  exact (destination_map_ofSegment rest _).symm

end Path

end Phrasebook
