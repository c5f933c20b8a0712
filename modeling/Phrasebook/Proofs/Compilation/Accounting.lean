import Phrasebook.Proofs.Compilation.Findings

/-!
# Every value is accounted for

For every token and every locale but the source, the value in the locale is the locale's own, or the
whole message of the source because the locale has none, has an empty one, or has one that cannot be
read. Exactly one of these is so, and the findings about the token in the locale say which.
-/

namespace Phrasebook

/-- The value in a locale is that of a message as it was written: its text, or the branches that it
is read as. -/
def Resolved.ReadsAs : Resolved → String → String → Prop
  | simple texts, locale, text => texts.get? locale = some text
  | plural values, locale, text =>
    ∃ branches, Plural.parse text = .ok branches ∧ values.get? locale = some branches

/-- Where the value of a token in a locale comes from. -/
inductive Origin where
  | own
  | fallback (reason : FallbackReason)
  | malformed (error : Plural.Error)

/-- The origin that the findings about a token in a locale tell of. -/
def Origin.ofFindings : List Diagnostic → Origin
  | [.fallback _ _ _ reason _] => fallback reason
  | [.malformedPlural _ _ _ error _] => malformed error
  | _ => own

namespace Message

variable {m own : Message} {token source text : String} {locales : LocaleSet} {o : Dictionary}

theorem readsAs_resolve (ho : o ∈ locales.dictionaries) (hr : m.read text = .ok own)
    (hv : (m.inLocale token source o).1 = own) :
    (m.resolve token source locales).1.ReadsAs o.locale text := by
  have hvalue : (m.resolve token source locales).1.message? o.locale = some own := by
    rw [message?_resolve ho, hv]
  cases m with
  | simple s =>
    cases hr
    obtain ⟨x, hx, hsimple⟩ := Option.map_eq_some_iff.1 hvalue
    cases hsimple
    exact hx
  | plural bs =>
    obtain ⟨branches, hb, rfl⟩ := Traversal.exists_ok_of_map hr
    obtain ⟨x, hx, hplural⟩ := Option.map_eq_some_iff.1 hvalue
    cases hplural
    exact ⟨_, hb, hx⟩

end Message

namespace Compilation

/-- The value of a token in the locale of a dictionary comes from the given origin, and the findings
say so. -/
inductive IsFrom (c : Compilation) (t : CompiledToken) (o : Dictionary) : Origin → Prop
  /-- The locale's own message is used as it was written, and nothing is reported. -/
  | own {entry : Entry} (hentry : o.entry? t.name = some entry) (hne : entry.value ≠ "")
      (hvalue : t.resolved.ReadsAs o.locale entry.value)
      (hfindings : c.findingsOn t.name o.locale = []) : IsFrom c t o .own
  | missing (hentry : o.entry? t.name = none) (hvalue : t.resolved.ReadsAs o.locale t.raw)
      (hfindings : c.findingsOn t.name o.locale =
        [.fallback t.name o.locale c.source .missing o.file]) : IsFrom c t o (.fallback .missing)
  | empty {entry : Entry} (hentry : o.entry? t.name = some entry) (hempty : entry.value = "")
      (hvalue : t.resolved.ReadsAs o.locale t.raw)
      (hfindings : c.findingsOn t.name o.locale =
        [.fallback t.name o.locale c.source .empty o.file]) : IsFrom c t o (.fallback .empty)
  /-- The locale's own message is plural and cannot be read. -/
  | malformed {entry : Entry} {e : Plural.Error} (hentry : o.entry? t.name = some entry)
      (hne : entry.value ≠ "") (hplural : t.kind.bucket = .pluralWithArgs)
      (hread : Plural.parse entry.value = .error e) (hvalue : t.resolved.ReadsAs o.locale t.raw)
      (hfindings : c.findingsOn t.name o.locale =
        [.malformedPlural t.name o.locale c.source e entry.position]) :
      IsFrom c t o (.malformed e)

theorem IsFrom.eq_ofFindings {c : Compilation} {t : CompiledToken} {o : Dictionary} {x : Origin}
    (h : IsFrom c t o x) : x = .ofFindings (c.findingsOn t.name o.locale) := by
  cases h with
  | own _ _ _ hfindings => rw [hfindings]; rfl
  | missing _ _ hfindings => rw [hfindings]; rfl
  | empty _ _ _ hfindings => rw [hfindings]; rfl
  | malformed _ _ _ _ _ hfindings => rw [hfindings]; rfl

/-- The account of a compilation with a source dictionary. -/
structure Accounts (c : Compilation) (locales : LocaleSet) (d : Dictionary) : Prop where
  source_eq : c.source = d.locale
  names_eq : c.tokens.map (·.name) = d.tokens
  /-- The source locale has its own message, be it empty, and nothing is reported. -/
  source_value : ∀ t ∈ c.tokens, ∃ entry, d.entry? t.name = some entry ∧ t.raw = entry.value ∧
    t.resolved.ReadsAs d.locale entry.value ∧ c.findingsOn t.name d.locale = []
  origin : ∀ t ∈ c.tokens, ∀ o ∈ locales.dictionaries, o.locale ≠ d.locale →
    ∃! origin, c.IsFrom t o origin
  /-- A token that only another locale has is reported once and not compiled. -/
  unknown : ∀ o ∈ locales.dictionaries, o.locale ≠ d.locale → ∀ token entry,
    o.entry? token = some entry → d.contains token = false →
      c.findingsOn token o.locale = [.unknownToken token o.locale d.locale entry.position] ∧
        token ∉ c.tokens.map (·.name)
  /-- Every finding is about a token and a locale of which the above speaks. -/
  subject : ∀ f ∈ c.diagnostics, ∃ o ∈ locales.dictionaries, o.locale ≠ d.locale ∧
    f.subject.2 = o.locale ∧ (f.subject.1 ∈ c.tokens.map (·.name) ∨
      o.contains f.subject.1 = true ∧ d.contains f.subject.1 = false)

end Compilation

open Compilation

section Account

variable {locales : LocaleSet} {source : String} {c : Compilation} {d : Dictionary}

/-- A compiled token, its entry and its message. -/
theorem LocaleSet.exists_message_of_mem (h : locales.compile source = .ok c)
    (hd : locales.get? source = some d) {t : CompiledToken} (ht : t ∈ c.tokens) :
    ∃ entry m, (t.name, entry) ∈ d.entries.entries ∧ t.raw = entry.value ∧
      Message.ofText entry.value = .ok m ∧ t.kind = m.kind ∧
      t.resolved = (m.resolve t.name source locales).1 := by
  obtain ⟨_, _, htokens, _⟩ := (compile_eq_ok_iff_of_get? hd).1 h
  obtain ⟨⟨name, entry⟩, he, m, hm, rfl⟩ := Traversal.exists_left_of_forall₂ htokens ht
  exact ⟨entry, m, he, rfl, hm, rfl, rfl⟩

/-- The value of a token in another locale has an origin. -/
theorem LocaleSet.exists_isFrom (h : locales.compile source = .ok c)
    (hd : locales.get? source = some d) {t : CompiledToken} (ht : t ∈ c.tokens) {o : Dictionary}
    (ho : o ∈ locales.dictionaries) (hl : o.locale ≠ source) : ∃ origin, c.IsFrom t o origin := by
  obtain ⟨hsource, _⟩ := (compile_eq_ok_iff_of_get? hd).1 h
  obtain ⟨entry, m, he, hraw, hm, hkind, hresolved⟩ := exists_message_of_mem h hd ht
  have hfindings : c.findingsOn t.name o.locale = (m.inLocale t.name source o).2.toList :=
    findingsOn_of_mem h hd he hm ho
  -- Whenever the choice is the source message, the value is that message as it was written.
  have hfallback : (m.inLocale t.name source o).1 = m → t.resolved.ReadsAs o.locale t.raw := by
    intro hv
    rw [hresolved, hraw]
    exact Message.readsAs_resolve ho (Message.read_of_ofText hm) hv
  subst hsource
  cases hentry : o.entry? t.name with
  | none =>
    have hchoice : m.inLocale t.name c.source o =
        (m, some (.fallback t.name o.locale c.source .missing o.file)) :=
      Resolution.choose_missing hl hentry
    rw [hchoice] at hfindings hfallback
    exact ⟨_, IsFrom.missing hentry (hfallback rfl) hfindings⟩
  | some own =>
    by_cases hempty : own.value = ""
    · have hchoice : m.inLocale t.name c.source o =
          (m, some (.fallback t.name o.locale c.source .empty o.file)) :=
        Resolution.choose_empty hl hentry hempty
      rw [hchoice] at hfindings hfallback
      exact ⟨_, IsFrom.empty hentry hempty (hfallback rfl) hfindings⟩
    cases hread : m.read own.value with
    | error e =>
      have hchoice : m.inLocale t.name c.source o =
          (m, some (.malformedPlural t.name o.locale c.source e own.position)) :=
        Resolution.choose_malformed hl hentry hempty hread
      rw [hchoice] at hfindings hfallback
      obtain ⟨hplural, hparse⟩ := Message.read_eq_error hread
      rw [← hkind] at hplural
      exact ⟨_, IsFrom.malformed hentry hempty hplural hparse (hfallback rfl) hfindings⟩
    | ok message =>
      have hchoice : m.inLocale t.name c.source o = (message, none) :=
        Resolution.choose_own hl hentry hempty hread
      have hvalue : t.resolved.ReadsAs o.locale own.value := by
        rw [hresolved]
        exact Message.readsAs_resolve ho hread (by rw [hchoice])
      rw [hchoice] at hfindings
      exact ⟨_, IsFrom.own hentry hempty hvalue hfindings⟩

/-- What a finding is about: a token of the source, or one that only another locale has. -/
theorem LocaleSet.subject_of_mem_diagnostics (h : locales.compile source = .ok c)
    (hd : locales.get? source = some d) {f : Diagnostic} (hf : f ∈ c.diagnostics) :
    ∃ o ∈ locales.dictionaries, o.locale ≠ d.locale ∧ f.subject.2 = o.locale ∧
      (f.subject.1 ∈ d.tokens ∨ o.contains f.subject.1 = true ∧ d.contains f.subject.1 = false) := by
  obtain ⟨_, _, _, hdiagnostics⟩ := (compile_eq_ok_iff_of_get? hd).1 h
  obtain ⟨_, hlocale⟩ := get?_eq_some_iff.1 hd
  rw [hdiagnostics, List.mem_append] at hf
  rcases hf with hf | hf
  · obtain ⟨e, he, hf⟩ := List.mem_flatMap.1 hf
    obtain ⟨m, _, o, ho, hf⟩ := mem_valueFindings_iff.1 hf
    obtain ⟨hsubject, hl⟩ := Message.subject_of_inLocale hf
    refine ⟨o, ho, ?_, ?_, Or.inl ?_⟩
    · rw [hlocale]
      exact hl
    · rw [hsubject]
    · rw [hsubject]
      exact List.mem_map_of_mem he
  · obtain ⟨o, ho, hf⟩ := List.mem_flatMap.1 hf
    obtain ⟨hl, token, entry, he, hc, rfl⟩ := mem_unknownTokens_iff.1 hf
    refine ⟨o, ho, hl, rfl, Or.inr ⟨?_, hc⟩⟩
    exact Dictionary.contains_of_entry? (Dictionary.entry?_eq_some_iff.2 he)

/-- **Every value is accounted for.** -/
theorem LocaleSet.accounts_of_compile (h : locales.compile source = .ok c) :
    ∃ d, locales.get? source = some d ∧ c.Accounts locales d := by
  obtain ⟨d, hd, hsource, _, htokens, _⟩ := compile_eq_ok_iff.1 h
  obtain ⟨hmem, hlocale⟩ := get?_eq_some_iff.1 hd
  have hnames : c.tokens.map (·.name) = d.tokens := map_name_tokens htokens
  refine ⟨d, hd, ?_⟩
  constructor
  case source_eq => rw [hsource, hlocale]
  case names_eq => exact hnames
  case source_value =>
    intro t ht
    obtain ⟨entry, m, he, hraw, hm, _, hresolved⟩ := exists_message_of_mem h hd ht
    have hchoice : m.inLocale t.name source d = (m, none) := Resolution.choose_source hlocale
    refine ⟨entry, Dictionary.entry?_eq_some_iff.2 he, hraw, ?_, ?_⟩
    · rw [hresolved]
      apply Message.readsAs_resolve hmem (Message.read_of_ofText hm)
      rw [hchoice]
    · rw [findingsOn_of_mem h hd he hm hmem, hchoice]
      rfl
  case origin =>
    intro t ht o ho hl
    rw [hlocale] at hl
    obtain ⟨origin, horigin⟩ := exists_isFrom h hd ht ho hl
    refine ⟨origin, horigin, fun other hother => ?_⟩
    exact hother.eq_ofFindings.trans horigin.eq_ofFindings.symm
  case unknown =>
    intro o ho hl token entry he hc
    refine ⟨findingsOn_of_unknown h hd ho hl he hc, fun hmem => ?_⟩
    rw [hnames, ← Dictionary.contains_iff, hc] at hmem
    cases hmem
  case subject =>
    intro f hf
    rw [hnames]
    exact subject_of_mem_diagnostics h hd hf

/-- A locale with a message of its own, an empty one, a malformed one and an unknown one. -/
theorem LocaleSet.exists_accounts_compile :
    ∃ c, (ofList [.sample, .ofPairs "fr" [("items", "\x7bcount, plural, uno [un]\x7d"), ("bye", ""),
        ("hi", "Salut"), ("other", "Autre")]]).compile "en" = .ok c ∧
      c.Accounts (ofList [.sample, .ofPairs "fr" [("items", "\x7bcount, plural, uno [un]\x7d"),
        ("bye", ""), ("hi", "Salut"), ("other", "Autre")]]) .sample := by
  refine (exists_compile_sample rfl).imp fun c hc => ⟨hc, ?_⟩
  obtain ⟨d, hd, haccounts⟩ := accounts_of_compile hc
  cases hd
  exact haccounts

end Account

end Phrasebook
