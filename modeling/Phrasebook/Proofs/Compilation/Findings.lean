import Phrasebook.Proofs.Compilation.Basic

/-!
# The findings about a token in a locale

Every finding of a compilation is about one token in one locale. The findings about a token of the
source in some locale are those of the choice of its value there (`findingsOn_of_mem`); the findings
about any other token of a locale are that the token is unknown (`findingsOn_of_unknown`).
-/

namespace Phrasebook

/-- The token and the locale that a finding is about. -/
def Diagnostic.subject : Diagnostic → String × String
  | fallback token locale _ _ _ => (token, locale)
  | malformedPlural token locale _ _ _ => (token, locale)
  | unknownToken token locale _ _ => (token, locale)
  | nonStringValue key locale _ _ => (key, locale)

namespace Diagnostic

variable {fs : List Diagnostic} {s : String × String}

theorem filter_subject_eq_nil (h : ∀ f ∈ fs, f.subject ≠ s) : fs.filter (·.subject = s) = [] := by
  rw [List.filter_eq_nil_iff]
  intro f hf hs
  exact h f hf (of_decide_eq_true hs)

theorem filter_subject_eq_self (h : ∀ f ∈ fs, f.subject = s) : fs.filter (·.subject = s) = fs := by
  rw [List.filter_eq_self]
  intro f hf
  exact decide_eq_true (h f hf)

end Diagnostic

open Diagnostic (filter_subject_eq_nil filter_subject_eq_self)

/-- Where only the member with a certain key gives anything, it alone gives everything. -/
theorem flatMap_eq_of_key {κ α β : Type} {key : α → κ} {f : α → List β} {xs : List α} {x : α}
    (hn : (xs.map key).Nodup) (hx : x ∈ xs) (h : ∀ y ∈ xs, key y ≠ key x → f y = []) :
    xs.flatMap f = f x := by
  induction xs with
  | nil => cases hx
  | cons y ys ih =>
    rw [List.map_cons, List.nodup_cons] at hn
    rw [List.flatMap_cons]
    rcases List.mem_cons.1 hx with rfl | hx
    · have hys : ys.flatMap f = [] := by
        apply List.flatMap_eq_nil_iff.2
        intro y hy
        refine h y (List.mem_cons_of_mem _ hy) fun hk => hn.1 ?_
        rw [← hk]
        exact List.mem_map_of_mem hy
      rw [hys, List.append_nil]
    · have hy : f y = [] := by
        refine h y List.mem_cons_self fun hk => hn.1 ?_
        rw [hk]
        exact List.mem_map_of_mem hx
      rw [hy, List.nil_append]
      exact ih hn.2 hx fun z hz => h z (List.mem_cons_of_mem _ hz)

/-- A choice makes a finding only about its token in the locale of its dictionary. -/
theorem Message.subject_of_inLocale {m : Message} {token source : String} {d : Dictionary}
    {f : Diagnostic} (h : (m.inLocale token source d).2 = some f) :
    f.subject = (token, d.locale) ∧ d.locale ≠ source := by
  unfold inLocale at h
  by_cases hl : d.locale = source
  · rw [Resolution.choose_source hl] at h
    cases h
  refine ⟨?_, hl⟩
  cases hd : d.entry? token with
  | none =>
    rw [Resolution.choose_missing hl hd] at h
    cases h
    rfl
  | some entry =>
    by_cases he : entry.value = ""
    · rw [Resolution.choose_empty hl hd he] at h
      cases h
      rfl
    cases hr : m.read entry.value with
    | error e =>
      rw [Resolution.choose_malformed hl hd he hr] at h
      cases h
      rfl
    | ok own =>
      rw [Resolution.choose_own hl hd he hr] at h
      cases h

namespace Compilation

/-- The findings about a token in a locale. -/
def findingsOn (c : Compilation) (token locale : String) : List Diagnostic :=
  c.diagnostics.filter (·.subject = (token, locale))

theorem mem_unknownTokens_iff {source d : Dictionary} {f : Diagnostic} :
    f ∈ unknownTokens source d ↔ d.locale ≠ source.locale ∧ ∃ token entry,
      (token, entry) ∈ d.entries.entries ∧ source.contains token = false ∧
        f = .unknownToken token d.locale source.locale entry.position := by
  unfold unknownTokens
  by_cases hl : d.locale = source.locale
  · rw [if_pos hl]
    exact ⟨fun h => absurd h List.not_mem_nil, fun h => absurd hl h.1⟩
  · rw [if_neg hl, List.mem_filterMap]
    constructor
    · rintro ⟨⟨token, entry⟩, he, hf⟩
      dsimp only at hf
      cases hc : source.contains token with
      | true => rw [hc] at hf; cases hf
      | false =>
        rw [hc] at hf
        cases hf
        exact ⟨hl, token, entry, he, hc, rfl⟩
    · rintro ⟨_, token, entry, he, hc, rfl⟩
      refine ⟨(token, entry), he, ?_⟩
      dsimp only
      rw [hc]
      rfl

variable {locales : LocaleSet} {source : String}

theorem mem_valueFindings_iff {e : String × Entry} {f : Diagnostic} :
    f ∈ valueFindings locales source e ↔ ∃ m, Message.ofText e.2.value = .ok m ∧
      ∃ d ∈ locales.dictionaries, (m.inLocale e.1 source d).2 = some f := by
  unfold valueFindings
  cases Message.ofText e.2.value with
  | error reason =>
    constructor
    · intro h; cases h
    · rintro ⟨m, h, _⟩; cases h
  | ok m =>
    dsimp only
    rw [Message.findings_resolve, List.mem_filterMap]
    constructor
    · intro h; exact ⟨m, rfl, h⟩
    · rintro ⟨_, h, hf⟩; cases h; exact hf

/-- The findings about a value in the locale of a dictionary. -/
theorem filter_valueFindings {e : String × Entry} {m : Message} {o : Dictionary}
    (hm : Message.ofText e.2.value = .ok m) (ho : o ∈ locales.dictionaries) :
    (valueFindings locales source e).filter (·.subject = (e.1, o.locale)) =
      (m.inLocale e.1 source o).2.toList := by
  unfold valueFindings
  rw [hm]
  dsimp only
  rw [Message.findings_resolve, List.filterMap_eq_flatMap_toList, List.filter_flatMap,
    flatMap_eq_of_key locales.nodup_map_locale ho]
  · apply filter_subject_eq_self
    intro f hf
    exact (Message.subject_of_inLocale (Option.mem_toList.1 hf)).1
  · intro o' _ hl
    apply filter_subject_eq_nil
    intro f hf hs
    rw [(Message.subject_of_inLocale (Option.mem_toList.1 hf)).1] at hs
    exact hl (congrArg Prod.snd hs)

/-- The findings about an unknown token of a dictionary. -/
theorem filter_unknownTokens {d o : Dictionary} {token : String} {entry : Entry}
    (hl : o.locale ≠ d.locale) (he : (token, entry) ∈ o.entries.entries)
    (hc : d.contains token = false) :
    (unknownTokens d o).filter (·.subject = (token, o.locale)) =
      [.unknownToken token o.locale d.locale entry.position] := by
  have hnodup : (o.entries.entries.map Prod.fst).Nodup := o.tokens_nodup
  unfold unknownTokens
  rw [if_neg hl, List.filterMap_eq_flatMap_toList, List.filter_flatMap, flatMap_eq_of_key hnodup he]
  · dsimp only
    rw [hc, if_neg Bool.false_ne_true]
    apply filter_subject_eq_self
    intro f hf
    cases Option.mem_toList.1 hf
    rfl
  · intro e' _ hne
    apply filter_subject_eq_nil
    intro f hf hs
    have hf := Option.mem_toList.1 hf
    dsimp only at hf
    split at hf
    · cases hf
    · cases hf
      exact hne (Prod.mk.inj hs).1

end Compilation

open Compilation

variable {locales : LocaleSet} {source : String} {c : Compilation} {d : Dictionary}

/-- **The findings about a token of the source**: that of the choice of its value. -/
theorem LocaleSet.findingsOn_of_mem (h : locales.compile source = .ok c)
    (hd : locales.get? source = some d) {e : String × Entry} (he : e ∈ d.entries.entries)
    {m : Message} (hm : Message.ofText e.2.value = .ok m) {o : Dictionary}
    (ho : o ∈ locales.dictionaries) :
    c.findingsOn e.1 o.locale = (m.inLocale e.1 source o).2.toList := by
  obtain ⟨_, _, _, hdiagnostics⟩ := (compile_eq_ok_iff_of_get? hd).1 h
  have hnodup : (d.entries.entries.map Prod.fst).Nodup := d.tokens_nodup
  have hunknown : (unknownFindings locales d).filter (·.subject = (e.1, o.locale)) = [] := by
    apply filter_subject_eq_nil
    intro f hf hs
    obtain ⟨o', _, hf⟩ := List.mem_flatMap.1 hf
    obtain ⟨_, token, entry, _, hc, rfl⟩ := mem_unknownTokens_iff.1 hf
    have ht : token = e.1 := congrArg Prod.fst hs
    rw [ht, Dictionary.contains_of_entry? (Dictionary.entry?_eq_some_iff.2 he)] at hc
    cases hc
  rw [findingsOn, hdiagnostics, List.filter_append, hunknown, List.append_nil, List.filter_flatMap,
    flatMap_eq_of_key hnodup he, filter_valueFindings hm ho]
  intro e' he' hne
  apply filter_subject_eq_nil
  intro f hf hs
  obtain ⟨m', _, o', _, hf⟩ := mem_valueFindings_iff.1 hf
  rw [(Message.subject_of_inLocale hf).1] at hs
  exact hne (Prod.mk.inj hs).1

/-- **The findings about a token that the source does not have.** -/
theorem LocaleSet.findingsOn_of_unknown (h : locales.compile source = .ok c)
    (hd : locales.get? source = some d) {o : Dictionary} (ho : o ∈ locales.dictionaries)
    (hl : o.locale ≠ d.locale) {token : String} {entry : Entry}
    (he : o.entry? token = some entry) (hc : d.contains token = false) :
    c.findingsOn token o.locale =
      [.unknownToken token o.locale d.locale entry.position] := by
  obtain ⟨_, _, _, hdiagnostics⟩ := (compile_eq_ok_iff_of_get? hd).1 h
  have hvalues : (d.entries.entries.flatMap (valueFindings locales source)).filter
      (·.subject = (token, o.locale)) = [] := by
    apply filter_subject_eq_nil
    intro f hf hs
    obtain ⟨e, hmem, hf⟩ := List.mem_flatMap.1 hf
    obtain ⟨m, _, o', _, hf⟩ := mem_valueFindings_iff.1 hf
    rw [(Message.subject_of_inLocale hf).1] at hs
    have ht : e.1 = token := congrArg Prod.fst hs
    rw [← ht, Dictionary.contains_of_entry? (Dictionary.entry?_eq_some_iff.2 hmem)] at hc
    cases hc
  rw [findingsOn, hdiagnostics, List.filter_append, hvalues, List.nil_append, unknownFindings,
    List.filter_flatMap, flatMap_eq_of_key locales.nodup_map_locale ho]
  · exact filter_unknownTokens hl (Dictionary.entry?_eq_some_iff.1 he) hc
  · intro o' _ hne
    apply filter_subject_eq_nil
    intro f hf hs
    obtain ⟨_, _, _, _, _, rfl⟩ := mem_unknownTokens_iff.1 hf
    exact hne (congrArg Prod.snd hs)

end Phrasebook
