import Phrasebook.Proofs.Compilation.Findings
import Phrasebook.Proofs.Diagnostic.Message
import Phrasebook.Proofs.LocaleFile.Positions

/-!
# The subjects of findings

A compilation makes one finding at most about a token in a locale (`findingsOn_subject`). It is a
finding that can be made for the source locale, and it is in the file of its locale if all entries
of the locale are (`exists_locale_of_mem`).
-/

namespace Phrasebook

/-- What a choice for a locale can find. -/
theorem Message.inLocale_cases {m : Message} {token source : String} {d : Dictionary}
    {f : Diagnostic} (h : (m.inLocale token source d).2 = some f) :
    (∃ reason, f = .fallback token d.locale source reason d.file) ∨
      ∃ entry e, (token, entry) ∈ d.entries.entries ∧ Plural.parse entry.value = .error e ∧
        f = .malformedPlural token d.locale source e entry.position := by
  have hl : d.locale ≠ source := (subject_of_inLocale h).2
  unfold inLocale at h
  cases hd : d.entry? token with
  | none =>
    rw [Resolution.choose_missing hl hd] at h
    exact .inl ⟨_, (Option.some.inj h).symm⟩
  | some entry =>
    by_cases he : entry.value = ""
    · rw [Resolution.choose_empty hl hd he] at h
      exact .inl ⟨_, (Option.some.inj h).symm⟩
    cases hr : m.read entry.value with
    | error e =>
      rw [Resolution.choose_malformed hl hd he hr] at h
      exact .inr ⟨entry, e, Dictionary.entry?_eq_some_iff.1 hd, (read_eq_error hr).2,
        (Option.some.inj h).symm⟩
    | ok own =>
      rw [Resolution.choose_own hl hd he hr] at h
      cases h

namespace LocaleSet

open Compilation

variable {locales : LocaleSet} {source : String} {c : Compilation} {a b : Diagnostic}

/-- **A finding is the only one about its subject.** -/
theorem findingsOn_subject (h : locales.compile source = .ok c) (ha : a ∈ c.diagnostics) :
    c.findingsOn a.subject.1 a.subject.2 = [a] := by
  obtain ⟨d, hd⟩ := exists_get?_of_compile h
  obtain ⟨-, -, -, hdiagnostics⟩ := (compile_eq_ok_iff_of_get? hd).1 h
  rw [hdiagnostics, List.mem_append] at ha
  rcases ha with ha | ha
  · obtain ⟨e, he, ha⟩ := List.mem_flatMap.1 ha
    obtain ⟨m, hm, o, ho, ha⟩ := mem_valueFindings_iff.1 ha
    rw [(Message.subject_of_inLocale ha).1, findingsOn_of_mem h hd he hm ho, ha]
    rfl
  · obtain ⟨o, ho, ha⟩ := List.mem_flatMap.1 ha
    obtain ⟨hl, token, entry, he, hc, rfl⟩ := mem_unknownTokens_iff.1 ha
    exact findingsOn_of_unknown h hd ho hl (Dictionary.entry?_eq_some_iff.2 he) hc

theorem eq_of_subject_eq (h : locales.compile source = .ok c) (ha : a ∈ c.diagnostics)
    (hb : b ∈ c.diagnostics) (hsubject : a.subject = b.subject) : a = b := by
  have hmem : b ∈ c.findingsOn a.subject.1 a.subject.2 :=
    List.mem_filter.2 ⟨hb, decide_eq_true hsubject.symm⟩
  rw [findingsOn_subject h ha] at hmem
  exact (List.mem_singleton.1 hmem).symm

/-- A finding is made for the source locale, and in the file of its locale. -/
theorem exists_locale_of_mem (file : String → String)
    (hfiles : ∀ d ∈ locales.dictionaries, d.IsOfFile (file d.locale))
    (h : locales.compile source = .ok c) (ha : a ∈ c.diagnostics) :
    a.MadeFor source ∧ a.rule ≠ .nonStringValue ∧ a.subject.2 ∈ locales.locales ∧
      a.place.file? = some (file a.subject.2) := by
  obtain ⟨d, hd⟩ := exists_get?_of_compile h
  obtain ⟨-, hsource⟩ := get?_eq_some_iff.1 hd
  obtain ⟨-, -, -, hdiagnostics⟩ := (compile_eq_ok_iff_of_get? hd).1 h
  have hplace : ∀ {o : Dictionary} {e : String × Entry}, o ∈ locales.dictionaries →
      e ∈ o.entries.entries →
        (Place.ofPosition? e.2.position).file? = some (file o.locale) := by
    intro o e ho he
    obtain ⟨p, hp, hfile⟩ := Option.map_eq_some_iff.1 ((hfiles o ho).position e he)
    rw [hp]
    exact congrArg some hfile
  rw [← map_locale_dictionaries]
  rw [hdiagnostics, List.mem_append] at ha
  rcases ha with ha | ha
  · obtain ⟨e, -, ha⟩ := List.mem_flatMap.1 ha
    obtain ⟨m, -, o, ho, ha⟩ := mem_valueFindings_iff.1 ha
    have hmem := List.mem_map_of_mem (f := Dictionary.locale) ho
    rcases Message.inLocale_cases ha with ⟨reason, rfl⟩ | ⟨entry, e, he, hparse, rfl⟩
    · refine ⟨rfl, nofun, hmem, ?_⟩
      rw [(hfiles o ho).file_eq]
      rfl
    · exact ⟨⟨rfl, _, hparse⟩, nofun, hmem, hplace ho he⟩
  · obtain ⟨o, ho, ha⟩ := List.mem_flatMap.1 ha
    obtain ⟨-, token, entry, he, -, rfl⟩ := mem_unknownTokens_iff.1 ha
    exact ⟨hsource, nofun, List.mem_map_of_mem (f := Dictionary.locale) ho, hplace ho he⟩

end LocaleSet

end Phrasebook
