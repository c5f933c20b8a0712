import Mathlib.Data.List.ReduceOption
import Phrasebook.Proofs.Compilation.Basic

/-!
# Why a compilation fails

A compilation fails if there are no locales, if the source locale is missing, or if a source message
begins like a plural block and cannot be read as one; and of several such messages the first one in
the order of the source is blamed, with its own reason and position (`verdict_compile`). The entries
of the source can be worked on in any order: each result goes to the place of its entry, so the
order leaves no trace in what is collected (`runTasks_eq`, `compileInOrder_eq`).
-/

namespace Phrasebook

/-- The text begins like a plural message, and this is why it cannot be read as one. -/
def Plural.Rejects (text : String) (reason : Plural.Error) : Prop :=
  marker.toList <+: text.toList ∧ parse text = .error reason

/-- A source message cannot be read exactly if it is rejected as a plural message. -/
theorem Message.ofText_eq_error_iff {text : String} {reason : Plural.Error} :
    ofText text = .error reason ↔ Plural.Rejects text reason := by
  rw [Plural.Rejects, ← Plural.isPlural_iff]
  cases hp : Plural.isPlural text with
  | false =>
    rw [ofText_simple hp]
    exact ⟨nofun, fun h => nomatch h.1⟩
  | true =>
    rw [ofText_plural hp, and_iff_right rfl]
    cases Plural.parse text <;> simp [Except.map]

theorem Message.exists_ofText_iff {text : String} :
    (∃ m, ofText text = .ok m) ↔ ∀ reason, ¬ Plural.Rejects text reason := by
  simp only [← ofText_eq_error_iff]
  cases ofText text <;> simp

/-- The entry is the first of the dictionary whose message is rejected. -/
def Dictionary.FirstRejected (d : Dictionary) (token : String) (entry : Entry)
    (reason : Plural.Error) : Prop :=
  ∃ before after, d.entries.entries = before ++ (token, entry) :: after ∧
    (∀ e ∈ before, ∀ r, ¬ Plural.Rejects e.2.value r) ∧ Plural.Rejects entry.value reason

namespace Compilation

variable {locales : LocaleSet} {source : String} {es : List (String × Entry)} {i j : Nat}
  {order : List Nat}

theorem compileToken_eq_error_iff {e : String × Entry} {error : CompileError} :
    compileToken locales source e.1 e.2 = .error error ↔
      ∃ reason, Plural.Rejects e.2.value reason ∧
        error = .malformedSource e.1 reason e.2.position := by
  simp only [← Message.ofText_eq_error_iff]
  rw [compileToken_eq, Token.ofEntry_eq]
  cases Message.ofText e.2.value <;> simp [Except.map, eq_comm]

theorem exists_compileToken_iff {e : String × Entry} :
    (∃ r, compileToken locales source e.1 e.2 = .ok r) ↔
      ∀ reason, ¬ Plural.Rejects e.2.value reason := by
  rw [← Message.exists_ofText_iff, compileToken_eq, Token.ofEntry_eq]
  cases Message.ofText e.2.value <;> simp [Except.map]

/-! ## Working on the entries in any order -/

/-- What the work on a source entry comes to. -/
abbrev TaskResult := Except CompileError (CompiledToken × List Diagnostic)

/-- Works on the entry at a place. The result goes to the same place among the results. -/
def runTask (locales : LocaleSet) (source : String) (es : List (String × Entry))
    (results : List (Option TaskResult)) (i : Nat) : List (Option TaskResult) :=
  match es[i]? with
  | none => results
  | some e => results.set i (some (compileToken locales source e.1 e.2))

/-- Works on the entries at the given places, one after another. -/
def runTasks (locales : LocaleSet) (source : String) (es : List (String × Entry))
    (order : List Nat) : List (Option TaskResult) :=
  order.foldl (runTask locales source es) (es.map fun _ => none)

/-- A task fills its own place and no other. -/
theorem getElem?_runTask {results : List (Option TaskResult)} (h : results.length = es.length) :
    (runTask locales source es results i)[j]? =
      if i = j then es[j]?.map fun e => some (compileToken locales source e.1 e.2)
      else results[j]? := by
  unfold runTask
  by_cases hij : i = j
  · subst hij
    cases he : es[i]? with
    | none =>
      rw [List.getElem?_eq_none_iff, ← h] at he
      simp [he]
    | some e =>
      have hi := (List.getElem?_eq_some_iff.1 he).1
      simp [List.getElem?_set_self (h ▸ hi)]
  · cases es[i]? <;> simp [hij]

theorem length_runTask (results : List (Option TaskResult)) :
    (runTask locales source es results i).length = results.length := by
  unfold runTask
  cases es[i]? <;> simp

/-- After some tasks the places of their entries are filled, each with the result of its entry. -/
theorem getElem?_foldl_runTask {results : List (Option TaskResult)}
    (h : results.length = es.length) :
    (order.foldl (runTask locales source es) results)[j]? =
      if j ∈ order then es[j]?.map fun e => some (compileToken locales source e.1 e.2)
      else results[j]? := by
  induction order generalizing results with
  | nil => rfl
  | cons i order ih =>
    rw [List.foldl_cons, ih ((length_runTask results).trans h), getElem?_runTask h]
    by_cases hj : j ∈ order
    · simp [hj]
    · by_cases hij : i = j
      · simp [hij]
      · simp [hj, hij, Ne.symm hij]

/-- **The order of the tasks leaves no trace** once all of them have been run. -/
theorem runTasks_eq (h : ∀ i < es.length, i ∈ order) :
    runTasks locales source es order =
      es.map fun e => some (compileToken locales source e.1 e.2) := by
  refine List.ext_getElem? fun j => ?_
  rw [runTasks, getElem?_foldl_runTask (by simp), List.getElem?_map, List.getElem?_map]
  by_cases hj : j < es.length
  · rw [if_pos (h j hj)]
  · simp [List.getElem?_eq_none (Nat.le_of_not_lt hj)]

end Compilation

namespace LocaleSet

open Compilation

variable {locales : LocaleSet} {source : String} {d : Dictionary}

/-- Compiles the locales with the work on the source entries done in the given order. -/
def compileInOrder (locales : LocaleSet) (source : String) (order : List Nat) :
    Except CompileError Compilation :=
  if locales.isEmpty then .error .noLocales
  else
    match locales.get? source with
    | none => .error (.missingSource source locales.locales)
    | some d => do
      let compiled ← (runTasks locales source d.entries.entries order).reduceOption.mapM id
      return {
        source
        locales := locales.locales
        tokens := compiled.map Prod.fst
        diagnostics := compiled.flatMap Prod.snd ++ unknownFindings locales d }

theorem compileInOrder_eq {order : List Nat} (hd : locales.get? source = some d)
    (h : ∀ i < d.entries.entries.length, i ∈ order) :
    locales.compileInOrder source order = locales.compile source := by
  have hresults : (runTasks locales source d.entries.entries order).reduceOption =
      d.entries.entries.map fun e => compileToken locales source e.1 e.2 := by
    rw [runTasks_eq h, List.reduceOption, List.filterMap_map]
    exact congrFun List.filterMap_eq_map _
  unfold compileInOrder
  rw [compile_of_get? hd, isEmpty_of_get? hd, hd]
  dsimp only
  rw [hresults, Traversal.mapM_map]
  rfl

/-! ## The verdict -/

theorem isEmpty_iff : locales.isEmpty = true ↔ locales.locales = [] := by
  rw [isEmpty, OrderedMap.isEmpty, List.isEmpty_iff, LocaleSet.locales, OrderedMap.keys,
    List.map_eq_nil_iff]

theorem get?_eq_none_iff : locales.get? source = none ↔ source ∉ locales.locales :=
  OrderedMap.get?_eq_none_iff

/-- What a compilation may come to, told by the locales that there are and by the source messages
that are rejected. -/
structure Verdict (locales : LocaleSet) (source : String)
    (result : Except CompileError Compilation) : Prop where
  noLocales : result = .error .noLocales ↔ locales.locales = []
  missingSource : ∀ locale available, result = .error (.missingSource locale available) ↔
    locales.locales ≠ [] ∧ source ∉ locales.locales ∧
      locale = source ∧ available = locales.locales
  malformed : (∃ token reason position, result = .error (.malformedSource token reason position)) ↔
    ∃ d, locales.get? source = some d ∧
      ∃ e ∈ d.entries.entries, ∃ reason, Plural.Rejects e.2.value reason
  blamed : ∀ token reason position, result = .error (.malformedSource token reason position) ↔
    ∃ d entry, locales.get? source = some d ∧ d.FirstRejected token entry reason ∧
      position = entry.position
  compiled : (∃ c, result = .ok c) ↔
    ∃ d, locales.get? source = some d ∧
      ∀ e ∈ d.entries.entries, ∀ reason, ¬ Plural.Rejects e.2.value reason

theorem compile_of_get?_eq_none (h : locales.get? source = none) :
    locales.compile source =
      .error (if locales.locales = [] then .noLocales
        else .missingSource source locales.locales) := by
  unfold compile
  rw [h]
  by_cases hne : locales.locales = []
  · rw [if_pos hne, if_pos (isEmpty_iff.2 hne)]
  · rw [if_neg hne, if_neg fun he => hne (isEmpty_iff.1 he)]

theorem verdict_of_get?_eq_none (h : locales.get? source = none) :
    Verdict locales source (locales.compile source) := by
  have hmem := get?_eq_none_iff.1 h
  rw [compile_of_get?_eq_none h]
  by_cases hne : locales.locales = []
  · rw [if_pos hne]
    constructor <;> simp [h, hne]
  · rw [if_neg hne]
    constructor <;> simp [h, hne, hmem, eq_comm]

/-- A compilation whose source dictionary is known fails over the first message that is rejected. -/
theorem compile_eq_error_iff_of_get? (hd : locales.get? source = some d) {error : CompileError} :
    locales.compile source = .error error ↔
      ∃ token entry reason, d.FirstRejected token entry reason ∧
        error = .malformedSource token reason entry.position := by
  have hmap : locales.compile source = .error error ↔
      (d.entries.entries.mapM fun e => compileToken locales source e.1 e.2) = .error error := by
    rw [compile_of_get? hd]
    exact ⟨Traversal.eq_error_of_map, fun h => by rw [h]; rfl⟩
  rw [hmap, Traversal.mapM_eq_error_iff]
  simp only [compileToken_eq_error_iff, exists_compileToken_iff]
  constructor
  · rintro ⟨before, ⟨token, entry⟩, after, hsplit, hbefore, reason, hrejects, rfl⟩
    exact ⟨token, entry, reason, ⟨before, after, hsplit, hbefore, hrejects⟩, rfl⟩
  · rintro ⟨token, entry, reason, ⟨before, after, hsplit, hbefore, hrejects⟩, rfl⟩
    exact ⟨before, (token, entry), after, hsplit, hbefore, reason, hrejects, rfl⟩

theorem verdict_of_get? (hd : locales.get? source = some d) :
    Verdict locales source (locales.compile source) := by
  have hmem : source ∈ locales.locales := by
    by_contra h
    rw [get?_eq_none_iff.2 h] at hd
    cases hd
  have herror (error : CompileError) : locales.compile source = .error error ↔
      ∃ token entry reason, d.FirstRejected token entry reason ∧
        error = .malformedSource token reason entry.position := compile_eq_error_iff_of_get? hd
  constructor
  case noLocales =>
    refine ⟨fun h => ?_, fun h => absurd hmem (by simp [h])⟩
    obtain ⟨_, _, _, _, h⟩ := (herror _).1 h
    cases h
  case missingSource =>
    refine fun locale available => ⟨fun h => ?_, fun h => absurd hmem h.2.1⟩
    obtain ⟨_, _, _, _, h⟩ := (herror _).1 h
    cases h
  case malformed =>
    have hnot : (∃ token reason position,
        locales.compile source = .error (.malformedSource token reason position)) ↔
          ¬ ∃ c, locales.compile source = .ok c := by
      cases hc : locales.compile source with
      | ok c => simp
      | error error =>
        obtain ⟨token, entry, reason, -, rfl⟩ := (herror _).1 hc
        simp
    rw [hnot, exists_compile_iff]
    simp only [Message.exists_ofText_iff, hd, Option.some.injEq, exists_eq_left', not_forall,
      not_not, exists_prop]
  case blamed =>
    intro token reason position
    rw [herror]
    constructor
    · rintro ⟨_, entry, _, hfirst, h⟩
      cases h
      exact ⟨d, entry, hd, hfirst, rfl⟩
    · rintro ⟨d', entry, hd', hfirst, rfl⟩
      cases hd.symm.trans hd'
      exact ⟨token, entry, reason, hfirst, rfl⟩
  case compiled =>
    rw [exists_compile_iff]
    simp only [Message.exists_ofText_iff]

/-- **Why a compilation fails.** Without locales, or without the source locale, it fails over just
that. Otherwise it fails exactly if a source message is rejected as a plural message, over the first
one in the order of the source, whatever the order in which the entries are worked on. -/
theorem verdict_compile (locales : LocaleSet) (source : String) :
    Verdict locales source (locales.compile source) ∧
      ∀ d order, locales.get? source = some d →
        order.Perm (List.range d.entries.entries.length) →
        locales.compileInOrder source order = locales.compile source := by
  refine ⟨?_, fun d order hd hperm => compileInOrder_eq hd fun i hi => ?_⟩
  · cases hd : locales.get? source with
    | none => exact verdict_of_get?_eq_none hd
    | some d => exact verdict_of_get? hd
  · exact hperm.mem_iff.2 (List.mem_range.2 hi)

/-- Two messages are rejected, and the entries are worked on from the last to the first. -/
theorem exists_verdict_compile :
    ∃ locales : LocaleSet, ∃ d, locales.get? "en" = some d ∧
      [2, 1, 0].Perm (List.range d.entries.entries.length) ∧
      locales.compileInOrder "en" [2, 1, 0] =
        .error (.malformedSource "one" (.missingOpenBracket .one) none) := by
  let d := Dictionary.ofPairs "en"
    [("hi", "Hello"), ("one", "\x7bcount, plural, one\x7d"), ("none", "\x7bcount, plural, \x7d")]
  have hd : (ofList [.sample, d]).get? "en" = some d := rfl
  have hperm : [2, 1, 0].Perm (List.range d.entries.entries.length) := by decide +kernel
  obtain ⟨hverdict, horder⟩ := verdict_compile (ofList [.sample, d]) "en"
  refine ⟨_, d, hd, hperm, (horder d [2, 1, 0] hd hperm).trans ?_⟩
  refine (hverdict.blamed _ _ _).2 ⟨d, ⟨"\x7bcount, plural, one\x7d", none⟩, hd, ?_, rfl⟩
  refine ⟨[("hi", ⟨"Hello", none⟩)], [("none", ⟨"\x7bcount, plural, \x7d", none⟩)], rfl, ?_, ?_⟩
  · rintro e he r ⟨hmarker, -⟩
    rw [List.mem_singleton.1 he] at hmarker
    exact absurd hmarker (by decide)
  · exact ⟨by decide, by decide +kernel⟩

end LocaleSet

end Phrasebook
