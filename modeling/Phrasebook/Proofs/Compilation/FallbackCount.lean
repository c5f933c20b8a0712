import Mathlib.Data.List.ProdSigma
import Phrasebook.Proofs.Compilation.Accounting
import Phrasebook.Proofs.Compilation.Complete

/-!
# What the number of fallbacks counts

A locale takes the value of the source locale if it has no message of its own, an empty one, or one
that cannot be read. The number of fallbacks counts the first two: a malformed message is reported
under a rule of its own, so a locale whose plural messages are malformed takes the source's wordings
without being counted (`LocaleSet.fallbackCount_of_compile`).

The origin of a value is read off the locale's own entry (`CompiledToken.originIn`). Each origin has
one rule at most (`Origin.rule?`), by which it is reported once, so that counting the findings of a
rule is counting the values that come from there (`LocaleSet.countP_rule_diagnostics`).
-/

namespace Phrasebook

/-- The rule by which a value that comes from there is reported. -/
def Origin.rule? : Origin → Option Rule
  | own => none
  | fallback _ => some .fallback
  | malformed _ => some .malformedPlural

/-- The value is that of the source locale. -/
def Origin.isSource (x : Origin) : Bool := x.rule?.isSome

/-- The locale has no message for the token, or an empty one. -/
def Dictionary.lacks (o : Dictionary) (token : String) : Bool :=
  o.entry? token |>.all (·.value = "")

/-- Where the value of a token in another locale comes from, by the locale's entry. -/
def CompiledToken.originIn (t : CompiledToken) (o : Dictionary) : Origin :=
  match o.entry? t.name with
  | none => .fallback .missing
  | some entry =>
    if entry.value = "" then .fallback .empty
    else if t.kind.bucket = .pluralWithArgs then
      match Plural.parse entry.value with
      | .ok _ => .own
      | .error e => .malformed e
    else .own

namespace CompiledToken

variable {t : CompiledToken} {o : Dictionary} {entry : Entry}

theorem originIn_missing (h : o.entry? t.name = none) : t.originIn o = .fallback .missing := by
  rw [originIn, h]

theorem originIn_empty (h : o.entry? t.name = some entry) (he : entry.value = "") :
    t.originIn o = .fallback .empty := by
  rw [originIn, h]
  exact if_pos he

theorem originIn_simple (h : o.entry? t.name = some entry) (he : entry.value ≠ "")
    (hk : t.kind.bucket ≠ .pluralWithArgs) : t.originIn o = .own := by
  rw [originIn, h]
  dsimp only
  rw [if_neg he, if_neg hk]

theorem originIn_read {branches : List Plural.Branch} (h : o.entry? t.name = some entry)
    (he : entry.value ≠ "") (hr : Plural.parse entry.value = .ok branches) :
    t.originIn o = .own := by
  rw [originIn, h]
  dsimp only
  rw [if_neg he, hr]
  exact ite_self _

theorem originIn_malformed {e : Plural.Error} (h : o.entry? t.name = some entry)
    (he : entry.value ≠ "") (hk : t.kind.bucket = .pluralWithArgs)
    (hr : Plural.parse entry.value = .error e) : t.originIn o = .malformed e := by
  rw [originIn, h]
  dsimp only
  rw [if_neg he, if_pos hk, hr]

/-- Fallbacks are for messages that are missing or empty. -/
theorem rule?_originIn_eq_fallback_iff :
    (t.originIn o).rule? = some .fallback ↔ o.lacks t.name = true := by
  unfold originIn Dictionary.lacks
  cases o.entry? t.name with
  | none => exact iff_of_true rfl rfl
  | some entry =>
    dsimp only
    rw [Option.all_some, decide_eq_true_iff]
    by_cases he : entry.value = ""
    · rw [if_pos he]
      exact iff_of_true rfl he
    · rw [if_neg he]
      refine iff_of_false ?_ he
      split
      · cases Plural.parse entry.value <;> nofun
      · nofun

end CompiledToken

namespace Message

variable {m own : Message} {text : String}

/-- A text that is read in the form of a message has branches, unless the message is simple. -/
theorem cases_of_read (h : m.read text = .ok own) :
    m.kind.bucket ≠ .pluralWithArgs ∨ ∃ branches, Plural.parse text = .ok branches := by
  cases m with
  | simple s => exact .inl (bucket_kind_simple s)
  | plural bs =>
    obtain ⟨branches, hb, -⟩ := Traversal.exists_ok_of_map h
    exact .inr ⟨branches, hb⟩

/-- The rule by which the choice of a value is reported is that of its origin. -/
theorem rule_inLocale {t : CompiledToken} {source : String} {o : Dictionary}
    (hk : t.kind = m.kind) (hl : o.locale ≠ source) :
    (m.inLocale t.name source o).2.map (·.rule) = (t.originIn o).rule? := by
  unfold inLocale
  cases hentry : o.entry? t.name with
  | none => rw [Resolution.choose_missing hl hentry, t.originIn_missing hentry]; rfl
  | some entry =>
    by_cases hempty : entry.value = ""
    · rw [Resolution.choose_empty hl hentry hempty, t.originIn_empty hentry hempty]
      rfl
    cases hread : m.read entry.value with
    | error e =>
      obtain ⟨hplural, hparse⟩ := read_eq_error hread
      rw [← hk] at hplural
      rw [Resolution.choose_malformed hl hentry hempty hread,
        t.originIn_malformed hentry hempty hplural hparse]
      rfl
    | ok own =>
      have horigin : t.originIn o = .own := by
        rcases cases_of_read hread with hsimple | ⟨branches, hparse⟩
        · rw [← hk] at hsimple
          exact t.originIn_simple hentry hempty hsimple
        · exact t.originIn_read hentry hempty hparse
      rw [Resolution.choose_own hl hentry hempty hread, horigin]
      rfl

end Message

namespace Compilation

/-- The pairs of a token and the dictionary of a locale other than the source. -/
def pairs (c : Compilation) (locales : LocaleSet) : List (CompiledToken × Dictionary) :=
  c.tokens ×ˢ locales.dictionaries.filter (·.locale ≠ c.source)

theorem mem_pairs_iff {c : Compilation} {locales : LocaleSet} {t : CompiledToken}
    {o : Dictionary} :
    (t, o) ∈ c.pairs locales ↔
      t ∈ c.tokens ∧ o ∈ locales.dictionaries ∧ o.locale ≠ c.source := by
  rw [pairs, List.mem_product, List.mem_filter, decide_eq_true_iff]

/-- The origin of a value is the one that the entry of the locale gives. -/
theorem IsFrom.eq_originIn {c : Compilation} {t : CompiledToken} {o : Dictionary} {x : Origin}
    (h : c.IsFrom t o x) (hfits : t.resolved.Fits t.kind) : x = t.originIn o := by
  obtain ⟨name, kind, resolved, raw⟩ := t
  cases h with
  | own hentry hne hvalue _ =>
    cases resolved with
    | simple texts =>
      refine (CompiledToken.originIn_simple hentry hne ?_).symm
      cases kind with
      | simpleNoArgs => exact nofun
      | simpleWithArgs args => exact nofun
      | pluralWithArgs args => exact hfits.elim
    | plural values =>
      obtain ⟨branches, hparse, -⟩ := hvalue
      exact (CompiledToken.originIn_read hentry hne hparse).symm
  | missing hentry _ _ => exact (CompiledToken.originIn_missing hentry).symm
  | empty hentry hempty _ _ => exact (CompiledToken.originIn_empty hentry hempty).symm
  | malformed hentry hne hplural hread _ _ =>
    exact (CompiledToken.originIn_malformed hentry hne hplural hread).symm

variable {locales : LocaleSet} {source : String} {r : Rule}

/-- The findings of a rule about the values of a token, by the locales whose values come from
there. -/
theorem IsTokenOf.countP_valueFindings {e : String × Entry} {t : CompiledToken}
    (h : IsTokenOf locales source e t) (r : Rule) :
    (valueFindings locales source e).countP (·.rule = r) =
      (locales.dictionaries.filter (·.locale ≠ source)).countP
        fun o => (t.originIn o).rule? = some r := by
  obtain ⟨m, hm, rfl⟩ := h
  unfold valueFindings
  rw [hm]
  dsimp only
  rw [Message.findings_resolve, List.countP_filterMap, List.countP_filter]
  refine List.countP_congr fun o _ => ?_
  by_cases hl : o.locale = source
  · have hchoice : m.inLocale e.1 source o = (m, none) := Resolution.choose_source hl
    simp [hchoice, hl]
  · let t : CompiledToken := ⟨e.1, m.kind, (m.resolve e.1 source locales).1, e.2.value⟩
    have hrule : (m.inLocale e.1 source o).2.map (·.rule) = (t.originIn o).rule? :=
      Message.rule_inLocale (show t.kind = m.kind from rfl) hl
    rw [← hrule]
    cases (m.inLocale e.1 source o).2 <;> simp [hl]

/-- No rule but its own reports an unknown token. -/
theorem countP_unknownFindings (d : Dictionary) (hr : r ≠ .unknownToken) :
    (unknownFindings locales d).countP (·.rule = r) = 0 := by
  rw [List.countP_eq_zero]
  intro f hf hrule
  obtain ⟨o, -, hf⟩ := List.mem_flatMap.1 hf
  obtain ⟨-, token, entry, -, -, rfl⟩ := mem_unknownTokens_iff.1 hf
  exact hr (of_decide_eq_true hrule).symm

/-- The findings about the values of some entries, by the pairs of tokens and locales. -/
theorem countP_valueFindings {es : List (String × Entry)} {ts : List CompiledToken}
    (h : List.Forall₂ (IsTokenOf locales source) es ts) (r : Rule) :
    (es.flatMap (valueFindings locales source)).countP (·.rule = r) =
      (ts ×ˢ locales.dictionaries.filter (·.locale ≠ source)).countP
        fun p => (p.1.originIn p.2).rule? = some r := by
  induction h with
  | nil => rfl
  | cons he _ ih =>
    rw [List.flatMap_cons, List.countP_append, he.countP_valueFindings, ih, List.product_cons,
      List.countP_append, List.countP_map]
    rfl

end Compilation

open Compilation

namespace LocaleSet

variable {locales : LocaleSet} {source : String} {c : Compilation}

/-- A rule about values reports each value that comes from there once. -/
theorem countP_rule_diagnostics (h : locales.compile source = .ok c) {r : Rule}
    (hr : r ≠ .unknownToken) :
    c.diagnostics.countP (·.rule = r) =
      (c.pairs locales).countP fun p => (p.1.originIn p.2).rule? = some r := by
  obtain ⟨d, -, hsource, -, htokens, hdiagnostics⟩ := compile_eq_ok_iff.1 h
  rw [hdiagnostics, List.countP_append, countP_unknownFindings d hr, countP_valueFindings htokens,
    Nat.add_zero, pairs, hsource]

/-- The value of a pair has the origin that the entry of the locale gives. -/
theorem isFrom_originIn (h : locales.compile source = .ok c) {t : CompiledToken} {o : Dictionary}
    (hp : (t, o) ∈ c.pairs locales) : c.IsFrom t o (t.originIn o) := by
  obtain ⟨ht, ho, hl⟩ := mem_pairs_iff.1 hp
  obtain ⟨d, hd, hsource, -, htokens, -⟩ := compile_eq_ok_iff.1 h
  obtain ⟨e, -, he⟩ := Traversal.exists_left_of_forall₂ htokens ht
  obtain ⟨x, hx⟩ := exists_isFrom h hd ht ho (hsource ▸ hl)
  rwa [← hx.eq_originIn he.fits]

/-- A value is the source's because it is missing or empty in its locale, or malformed. -/
theorem countP_isSource (ps : List (CompiledToken × Dictionary)) :
    ps.countP (fun p => (p.1.originIn p.2).isSource) =
      ps.countP (fun p => (p.1.originIn p.2).rule? = some .fallback) +
        ps.countP fun p => (p.1.originIn p.2).rule? = some .malformedPlural := by
  induction ps with
  | nil => rfl
  | cons p ps ih =>
    rw [List.countP_cons, List.countP_cons, List.countP_cons, ih]
    cases p.1.originIn p.2 <;> simp [Origin.isSource, Origin.rule?] <;> omega

/-- The names of the tokens and the locales in the pairs. -/
theorem map_pairs (h : locales.compile source = .ok c) {d : Dictionary}
    (hd : locales.get? source = some d) :
    (c.pairs locales).map (fun p => (p.1.name, p.2.locale)) =
      d.tokens ×ˢ locales.locales.filter (· ≠ source) := by
  obtain ⟨hsource, -, htokens, -⟩ := (compile_eq_ok_iff_of_get? hd).1 h
  have hnames : c.tokens.map (·.name) = d.tokens := map_name_tokens htokens
  have hlocales : (locales.dictionaries.filter (·.locale ≠ source)).map (·.locale) =
      locales.locales.filter (· ≠ source) := by
    rw [← locales.map_locale_dictionaries, List.filter_map]
    rfl
  rw [pairs, hsource, ← hnames, ← hlocales]
  induction c.tokens with
  | nil => rfl
  | cons t ts ih =>
    rw [List.product_cons, List.map_append, ih, List.map_cons, List.product_cons, List.map_map,
      List.map_map]
    rfl

/-- **What the number of fallbacks counts.** Of the pairs of a source token and another locale, the
value of each comes from where the locale's entry says. The number of fallbacks is that of the pairs
whose entry is missing or empty. Those whose value is the source's are the fallbacks and the
malformed plurals together, so the number of fallbacks is theirs if and only if no plural is
malformed. -/
theorem fallbackCount_of_compile (h : locales.compile source = .ok c) :
    (∃ d, locales.get? source = some d ∧
      (c.pairs locales).map (fun p => (p.1.name, p.2.locale)) =
        d.tokens ×ˢ locales.locales.filter (· ≠ source)) ∧
    (∀ p ∈ c.pairs locales, c.IsFrom p.1 p.2 (p.1.originIn p.2)) ∧
    c.fallbackCount = (c.pairs locales).countP (fun p => p.2.lacks p.1.name) ∧
    (c.pairs locales).countP (fun p => (p.1.originIn p.2).isSource) =
      c.fallbackCount + c.diagnostics.countP (·.rule = .malformedPlural) ∧
    (c.fallbackCount = (c.pairs locales).countP (fun p => (p.1.originIn p.2).isSource) ↔
      ∀ p ∈ c.pairs locales, ∀ e, p.1.originIn p.2 ≠ .malformed e) := by
  have hfallbacks : c.fallbackCount =
      (c.pairs locales).countP fun p => (p.1.originIn p.2).rule? = some .fallback :=
    countP_rule_diagnostics h (by decide)
  have hmalformed : c.diagnostics.countP (·.rule = .malformedPlural) =
      (c.pairs locales).countP fun p => (p.1.originIn p.2).rule? = some .malformedPlural :=
    countP_rule_diagnostics h (by decide)
  obtain ⟨d, hd⟩ := exists_get?_of_compile h
  refine ⟨⟨d, hd, map_pairs h hd⟩, fun p hp => isFrom_originIn h hp, ?_, ?_, ?_⟩
  · rw [hfallbacks]
    exact List.countP_congr fun p _ => decide_eq_true_iff.trans
      CompiledToken.rule?_originIn_eq_fallback_iff
  · rw [countP_isSource, hfallbacks, hmalformed]
  · rw [countP_isSource, ← hfallbacks, Nat.left_eq_add, List.countP_eq_zero]
    refine forall₂_congr fun p _ => ?_
    rw [decide_eq_true_iff]
    cases p.1.originIn p.2 <;> simp [Origin.rule?]

/-- One locale lacks a message, has an empty one and a malformed one. -/
theorem exists_fallbackCount_compile :
    ∃ c, (ofList [.sample, .ofPairs "fr" [("items", "\x7bcount, plural, uno [un]\x7d"),
        ("bye", "")]]).compile "en" = .ok c ∧ c.fallbackCount = 2 ∧
      (c.pairs (ofList [.sample, .ofPairs "fr" [("items", "\x7bcount, plural, uno [un]\x7d"),
        ("bye", "")]])).countP (fun p => (p.1.originIn p.2).isSource) = 3 := by
  set locales := ofList [.sample, .ofPairs "fr" [("items", "\x7bcount, plural, uno [un]\x7d"),
    ("bye", "")]]
  have hresult : (locales.compile "en").toOption.map (fun c =>
      (c.fallbackCount, c.diagnostics.countP (·.rule = .malformedPlural))) = some (2, 1) := by
    decide +kernel
  obtain ⟨c, hc, hcounts⟩ := Traversal.exists_ok_of_toOption hresult
  obtain ⟨hfallbacks, hmalformed⟩ := Prod.mk.inj hcounts
  obtain ⟨-, -, -, hsource, -⟩ := fallbackCount_of_compile hc
  rw [hfallbacks, hmalformed] at hsource
  exact ⟨c, hc, hfallbacks, hsource⟩

/-- The other locale's message is no plural block, so its value is the source's wordings, and no
fallback is counted. -/
theorem exists_uncounted_fallback :
    let locales := ofList
      [.ofPairs "en" [("items", "\x7bcount, plural, one [1 item] other [\x7bcount\x7d items]\x7d")],
       .ofPairs "it" [("items", "\x7bcount\x7d elementi")]]
    ∃ c t, locales.compile "en" = .ok c ∧ c.tokens = [t] ∧ t.resolved.ReadsAs "it" t.raw ∧
      (c.pairs locales).countP (fun p => (p.1.originIn p.2).isSource) = 1 ∧
      c.fallbackCount = 0 := by
  intro locales
  let raw := "\x7bcount, plural, one [1 item] other [\x7bcount\x7d items]\x7d"
  let branches : List Plural.Branch := [⟨.one, "1 item"⟩, ⟨.other, "\x7bcount\x7d items"⟩]
  let t : CompiledToken := ⟨"items", .pluralWithArgs [⟨"count", .number⟩],
    .plural (.ofList [("en", branches), ("it", branches)]), raw⟩
  have hresult : (locales.compile "en").toOption.map (fun c => (c.tokens, c.fallbackCount,
      (c.pairs locales).countP fun p => (p.1.originIn p.2).isSource)) = some ([t], 0, 1) := by
    decide +kernel
  have hparse : Plural.parse raw = .ok branches := by decide +kernel
  obtain ⟨c, hc, hvalues⟩ := Traversal.exists_ok_of_toOption hresult
  obtain ⟨htokens, hcounts⟩ := Prod.mk.inj hvalues
  obtain ⟨hfallbacks, hsource⟩ := Prod.mk.inj hcounts
  exact ⟨c, t, hc, htokens, ⟨branches, hparse, rfl⟩, hsource, hfallbacks⟩

end LocaleSet

end Phrasebook
