import Phrasebook.Proofs.Compilation.Contract
import Phrasebook.Proofs.Compilation.Findings

/-!
# Locales are apart

The value of a token in a locale and the findings about the locale come from the source dictionary
and from the locale's own. The findings of a compilation are made dictionary by dictionary, so
keeping those about some of the locales is compiling the dictionaries of these locales alone
(`filter_findingsIn`); from this follows what two compilations have in common that share a locale,
and what one locale more adds to a compilation.
-/

namespace Phrasebook

/-- Where everything that comes from a member agrees with it in a test, the test can be made on the
members. -/
theorem filter_flatMap_of_key {α β : Type} {f : α → List β} {p : α → Bool} {q : β → Bool}
    {xs : List α} (h : ∀ x ∈ xs, ∀ y ∈ f x, q y = p x) :
    (xs.flatMap f).filter q = (xs.filter p).flatMap f := by
  induction xs with
  | nil => rfl
  | cons x xs ih =>
    obtain ⟨hx, hxs⟩ := List.forall_mem_cons.1 h
    rw [List.flatMap_cons, List.filter_append, ih hxs]
    cases hp : p x with
    | true =>
      have hself : (f x).filter q = f x := List.filter_eq_self.2 fun y hy => (hx y hy).trans hp
      rw [hself, List.filter_cons_of_pos hp, List.flatMap_cons]
    | false =>
      have hnil : (f x).filter q = [] := by
        rw [List.filter_eq_nil_iff]
        intro y hy
        rw [hx y hy, hp]
        exact Bool.false_ne_true
      rw [hnil, List.filter_cons_of_neg (by rw [hp]; exact Bool.false_ne_true), List.nil_append]

theorem filter_eq_singleton_of_key {κ α : Type} [DecidableEq κ] {key : α → κ} {xs : List α} {x : α}
    (hn : (xs.map key).Nodup) (hx : x ∈ xs) : xs.filter (key · = key x) = [x] := by
  induction xs with
  | nil => cases hx
  | cons y ys ih =>
    rw [List.map_cons, List.nodup_cons] at hn
    rcases List.mem_cons.1 hx with rfl | hx
    · have hys : ys.filter (key · = key x) = [] := by
        rw [List.filter_eq_nil_iff]
        intro y hy hk
        exact hn.1 (of_decide_eq_true hk ▸ List.mem_map_of_mem hy)
      rw [List.filter_cons, if_pos (decide_eq_true rfl), hys]
    · have hy : ¬ decide (key y = key x) = true := by
        intro hk
        exact hn.1 (of_decide_eq_true hk ▸ List.mem_map_of_mem hx)
      rw [List.filter_cons, if_neg hy, ih hn.2 hx]

namespace LocaleSet

theorem entries_insert_of_not_contains {s : LocaleSet} {n : Dictionary}
    (hn : s.contains n.locale = false) :
    (s.insert n).byLocale.entries = s.byLocale.entries ++ [(n.locale, n)] := by
  apply OrderedMap.put_of_not_mem
  intro hmem
  rw [contains, OrderedMap.contains_iff.2 hmem] at hn
  cases hn

/-- A dictionary for a new locale comes last. -/
theorem dictionaries_insert {s : LocaleSet} {n : Dictionary} (hn : s.contains n.locale = false) :
    (s.insert n).dictionaries = s.dictionaries ++ [n] := by
  show (s.insert n).byLocale.entries.map Prod.snd = _
  rw [entries_insert_of_not_contains hn, List.map_append]
  rfl

theorem get?_insert_of_get? {s : LocaleSet} {n d : Dictionary} {locale : String}
    (hn : s.contains n.locale = false) (hd : s.get? locale = some d) :
    (s.insert n).get? locale = some d := by
  obtain ⟨hmem, hlocale⟩ := get?_eq_some_iff.1 hd
  refine get?_eq_some_iff.2 ⟨?_, hlocale⟩
  rw [dictionaries_insert hn]
  exact List.mem_append_left _ hmem

end LocaleSet

namespace Compilation

/-! ## Findings by their locales -/

/-- The findings about the value of a source entry that are made in some of the dictionaries. -/
def entryFindings (source : String) (os : List Dictionary) (e : String × Entry) :
    List Diagnostic :=
  match Message.ofText e.2.value with
  | .error _ => []
  | .ok m => os.flatMap fun o => (m.inLocale e.1 source o).2.toList

/-- The findings that are made in some of the dictionaries: those about the values of the source
entries, and then those about unknown tokens. -/
def findingsIn (source : String) (d : Dictionary) (os : List Dictionary) : List Diagnostic :=
  d.entries.entries.flatMap (entryFindings source os) ++ os.flatMap (unknownTokens d)

theorem valueFindings_eq (locales : LocaleSet) (source : String) :
    valueFindings locales source = entryFindings source locales.dictionaries := by
  funext e
  unfold valueFindings entryFindings
  cases Message.ofText e.2.value with
  | error _ => rfl
  | ok m =>
    show (m.resolve e.1 source locales).2 = _
    rw [Message.findings_resolve, List.filterMap_eq_flatMap_toList]

/-- A finding about a value is about the locale of the dictionary that it is made in. -/
theorem filter_entryFindings (keep : String → Bool) (source : String) (os : List Dictionary)
    (e : String × Entry) :
    (entryFindings source os e).filter (keep ·.subject.2) =
      entryFindings source (os.filter (keep ·.locale)) e := by
  unfold entryFindings
  cases Message.ofText e.2.value with
  | error _ => rfl
  | ok m =>
    apply filter_flatMap_of_key
    intro o _ f hf
    rw [(Message.subject_of_inLocale (Option.mem_toList.1 hf)).1]

/-- **The findings about some of the locales are those made in their dictionaries.** -/
theorem filter_findingsIn (keep : String → Bool) (source : String) (d : Dictionary)
    (os : List Dictionary) :
    (findingsIn source d os).filter (keep ·.subject.2) =
      findingsIn source d (os.filter (keep ·.locale)) := by
  have hunknown : (os.flatMap (unknownTokens d)).filter (keep ·.subject.2) =
      (os.filter (keep ·.locale)).flatMap (unknownTokens d) := by
    apply filter_flatMap_of_key
    intro o _ f hf
    obtain ⟨_, token, entry, _, _, rfl⟩ := mem_unknownTokens_iff.1 hf
    rfl
  have hvalues : (d.entries.entries.flatMap (entryFindings source os)).filter (keep ·.subject.2) =
      d.entries.entries.flatMap (entryFindings source (os.filter (keep ·.locale))) := by
    rw [List.filter_flatMap]
    exact congrArg (d.entries.entries.flatMap ·)
      (funext fun e => filter_entryFindings keep source os e)
  unfold findingsIn
  rw [List.filter_append, hvalues, hunknown]

/-- The findings about a locale. -/
def findingsAbout (c : Compilation) (locale : String) : List Diagnostic :=
  c.diagnostics.filter (·.subject.2 = locale)

end Compilation

open Compilation

variable {s s' : LocaleSet} {source locale : String} {c c' : Compilation} {d n o : Dictionary}

theorem LocaleSet.diagnostics_eq_findingsIn (hd : s.get? source = some d)
    (h : s.compile source = .ok c) : c.diagnostics = findingsIn source d s.dictionaries := by
  obtain ⟨_, _, _, hdiagnostics⟩ := (compile_eq_ok_iff_of_get? hd).1 h
  rw [hdiagnostics, valueFindings_eq]
  rfl

/-- There is one dictionary for a locale. -/
theorem LocaleSet.filter_dictionaries (ho : s.get? locale = some o) :
    s.dictionaries.filter (·.locale = locale) = [o] := by
  obtain ⟨hmem, rfl⟩ := get?_eq_some_iff.1 ho
  exact filter_eq_singleton_of_key s.nodup_map_locale hmem

theorem LocaleSet.findingsAbout_eq (hd : s.get? source = some d) (ho : s.get? locale = some o)
    (h : s.compile source = .ok c) : c.findingsAbout locale = findingsIn source d [o] := by
  rw [findingsAbout, diagnostics_eq_findingsIn hd h, filter_findingsIn (decide <| · = locale),
    filter_dictionaries ho]

/-- The tokens of two compilations with the same source dictionary come from the same entries. -/
theorem LocaleSet.forall₂_tokens (hd : s.get? source = some d) (hd' : s'.get? source = some d)
    (h : s.compile source = .ok c) (h' : s'.compile source = .ok c') :
    List.Forall₂ (fun t t' => ∃ e, IsTokenOf s source e t ∧ IsTokenOf s' source e t')
      c.tokens c'.tokens := by
  obtain ⟨_, _, htokens, _⟩ := (compile_eq_ok_iff_of_get? hd).1 h
  obtain ⟨_, _, htokens', _⟩ := (compile_eq_ok_iff_of_get? hd').1 h'
  exact Traversal.forall₂_of_common htokens htokens'

/-- With the same source dictionary both compilations succeed or none does. -/
theorem LocaleSet.exists_compile_of_get? (hd : s.get? source = some d)
    (hd' : s'.get? source = some d) (h : s.compile source = .ok c) :
    ∃ c', s'.compile source = .ok c' := by
  obtain ⟨d', hget, hread⟩ := exists_compile_iff.1 ⟨c, h⟩
  cases hd.symm.trans hget
  exact exists_compile_iff.2 ⟨d, hd', hread⟩

namespace Compilation

/-- Two compilations say the same about a locale. -/
structure AgreeOn (c c' : Compilation) (locale : String) : Prop where
  values : List.Forall₂ (fun t t' => t'.name = t.name ∧ ∃ value,
    t.resolved.message? locale = some value ∧ t'.resolved.message? locale = some value)
    c.tokens c'.tokens
  findings : c'.findingsAbout locale = c.findingsAbout locale

/-- A compilation says of all locales what another one says, and has one locale more. -/
structure Extends (c' c : Compilation) (locale : String) : Prop where
  locales : c'.locales = c.locales ++ [locale]
  tokens : List.Forall₂ (fun t t' => t'.contract = t.contract ∧ ∃ value,
    t'.resolved.messages = t.resolved.messages ++ [(locale, value)]) c.tokens c'.tokens
  /-- The findings that are not about the new locale are those there were. -/
  findings : c'.diagnostics.filter (·.subject.2 ≠ locale) = c.diagnostics

end Compilation

theorem LocaleSet.agreeOn_of_compile (hd : s.get? source = some d) (hd' : s'.get? source = some d)
    (ho : s.get? locale = some o) (ho' : s'.get? locale = some o)
    (h : s.compile source = .ok c) (h' : s'.compile source = .ok c') : c.AgreeOn c' locale := by
  obtain ⟨hmem, hlocale⟩ := get?_eq_some_iff.1 ho
  obtain ⟨hmem', _⟩ := get?_eq_some_iff.1 ho'
  constructor
  case values =>
    apply (forall₂_tokens hd hd' h h').imp
    rintro t t' ⟨e, ⟨m, hm, rfl⟩, ⟨m', hm', rfl⟩⟩
    cases hm.symm.trans hm'
    rw [← hlocale]
    exact ⟨rfl, _, Message.message?_resolve hmem, Message.message?_resolve hmem'⟩
  case findings => rw [findingsAbout_eq hd ho h, findingsAbout_eq hd' ho' h']

theorem LocaleSet.extends_of_compile (hd : s.get? source = some d)
    (hn : s.contains n.locale = false) (h : s.compile source = .ok c)
    (h' : (s.insert n).compile source = .ok c') : c'.Extends c n.locale := by
  have hd' := get?_insert_of_get? hn hd
  have hdictionaries := dictionaries_insert hn
  constructor
  case locales =>
    rw [locales_of_compile h, locales_of_compile h', ← map_locale_dictionaries,
      ← map_locale_dictionaries, hdictionaries, List.map_append]
    rfl
  case tokens =>
    apply (forall₂_tokens hd hd' h h').imp
    rintro t t' ⟨e, ⟨m, hm, rfl⟩, ⟨m', hm', rfl⟩⟩
    cases hm.symm.trans hm'
    refine ⟨rfl, (m.inLocale e.1 source n).1, ?_⟩
    rw [Message.messages_resolve, Message.messages_resolve, hdictionaries, List.map_append]
    rfl
  case findings =>
    have hold : s.dictionaries.filter (·.locale ≠ n.locale) = s.dictionaries := by
      rw [List.filter_eq_self]
      intro o ho
      refine decide_eq_true fun hl => ?_
      have hmem : o.locale ∈ s.byLocale.keys := by
        show o.locale ∈ s.locales
        rw [← map_locale_dictionaries]
        exact List.mem_map_of_mem ho
      rw [contains, OrderedMap.contains_iff.2 (hl ▸ hmem)] at hn
      cases hn
    have hnew : [n].filter (·.locale ≠ n.locale) = [] := by simp
    rw [diagnostics_eq_findingsIn hd h, diagnostics_eq_findingsIn hd' h', hdictionaries,
      filter_findingsIn (decide <| · ≠ n.locale), List.filter_append, hold, hnew, List.append_nil]

/-- **Locales are apart.** Two locale sets that share the source dictionary and the dictionary of a
locale agree on this locale; and a dictionary for a new locale adds what is said about it, and
changes nothing else. -/
theorem LocaleSet.compile_apart (hd : s.get? source = some d) (h : s.compile source = .ok c) :
    (∀ (s' : LocaleSet) locale o, s'.get? source = some d →
      s.get? locale = some o → s'.get? locale = some o →
      ∃ c', s'.compile source = .ok c' ∧ c.AgreeOn c' locale) ∧
    ∀ n : Dictionary, s.contains n.locale = false →
      ∃ c', (s.insert n).compile source = .ok c' ∧ c'.Extends c n.locale := by
  constructor
  · intro s' locale o hd' ho ho'
    obtain ⟨c', h'⟩ := exists_compile_of_get? hd hd' h
    exact ⟨c', h', agreeOn_of_compile hd hd' ho ho' h h'⟩
  · intro n hn
    obtain ⟨c', h'⟩ := exists_compile_of_get? hd (get?_insert_of_get? hn hd) h
    exact ⟨c', h', extends_of_compile hd hn h h'⟩

/-- A dictionary with a malformed and an unknown message. -/
def Dictionary.sampleFrench : Dictionary :=
  .ofPairs "fr" [("items", "\x7bcount, plural, uno [un]\x7d"), ("other", "Autre")]

/-- Another one, for a locale of its own. -/
def Dictionary.sampleGerman : Dictionary :=
  .ofPairs "de" [("hi", ""), ("items", "\x7bcount, plural, \x7d"), ("more", "Mehr")]

/-- French in other company and another order, and German added to it. -/
theorem LocaleSet.exists_compile_apart :
    ∃ c c' c'', (ofList [.sample, .sampleFrench]).compile "en" = .ok c ∧
      (ofList [.sampleGerman, .sampleFrench, .sample]).compile "en" = .ok c' ∧
      c.AgreeOn c' "fr" ∧
      ((ofList [.sample, .sampleFrench]).insert .sampleGerman).compile "en" = .ok c'' ∧
      c''.Extends c "de" := by
  have hsource : (ofList [.sample, .sampleFrench]).get? "en" = some .sample := rfl
  have hsource' : (ofList [.sampleGerman, .sampleFrench, .sample]).get? "en" = some .sample := rfl
  have hfrench : (ofList [.sample, .sampleFrench]).get? "fr" = some .sampleFrench := rfl
  have hfrench' : (ofList [.sampleGerman, .sampleFrench, .sample]).get? "fr" =
      some .sampleFrench := rfl
  obtain ⟨c, hc⟩ := exists_compile_sample hsource
  obtain ⟨hshared, hnew⟩ := compile_apart hsource hc
  obtain ⟨c', hc', hagree⟩ := hshared _ "fr" _ hsource' hfrench hfrench'
  obtain ⟨c'', hc'', hextends⟩ := hnew .sampleGerman (by decide)
  exact ⟨c, c', c'', hc, hc', hagree, hc'', hextends⟩

end Phrasebook
