import Phrasebook.Compilation
import Phrasebook.Proofs.Resolution
import Phrasebook.Proofs.Traversal

/-!
# What a compilation consists of

A compilation comes about exactly if the source locale has a dictionary and each of its messages can
be read (`compile_eq_ok_iff`). Its tokens then stand for the source entries one by one, and its
findings are those of the tokens followed by those of the unknown tokens.
-/

namespace Phrasebook

namespace Compilation

/-- `t` is the token of a source entry, with its value in every locale. -/
def IsTokenOf (locales : LocaleSet) (source : String) (e : String × Entry) (t : CompiledToken) :
    Prop :=
  ∃ m, Message.ofText e.2.value = .ok m ∧
    t = ⟨e.1, m.kind, (m.resolve e.1 source locales).1, e.2.value⟩

/-- The findings about the values of a source entry. -/
def valueFindings (locales : LocaleSet) (source : String) (e : String × Entry) : List Diagnostic :=
  match Message.ofText e.2.value with
  | .error _ => []
  | .ok m => (m.resolve e.1 source locales).2

/-- The findings about tokens that no source entry has. -/
def unknownFindings (locales : LocaleSet) (d : Dictionary) : List Diagnostic :=
  locales.dictionaries.flatMap (unknownTokens d)

variable {locales : LocaleSet} {source : String}

theorem compileToken_eq (e : String × Entry) :
    compileToken locales source e.1 e.2 =
      (Token.ofEntry e.1 e.2).map fun t =>
        (⟨e.1, t.kind, (t.source.resolve e.1 source locales).1, e.2.value⟩,
          (t.source.resolve e.1 source locales).2) := rfl

theorem compileToken_eq_ok_iff {e : String × Entry} {r : CompiledToken × List Diagnostic} :
    compileToken locales source e.1 e.2 = .ok r ↔
      IsTokenOf locales source e r.1 ∧ r.2 = valueFindings locales source e := by
  rw [compileToken_eq, Token.ofEntry_eq, IsTokenOf, valueFindings]
  cases Message.ofText e.2.value with
  | error reason =>
    constructor
    · intro h; cases h
    · rintro ⟨⟨m, h, _⟩, _⟩; cases h
  | ok m =>
    constructor
    · intro h
      cases h
      exact ⟨⟨m, rfl, rfl⟩, rfl⟩
    · rintro ⟨⟨_, h, ht⟩, hf⟩
      cases h
      exact congrArg Except.ok (Prod.ext ht.symm hf.symm)

/-- The compiled tokens and findings, and what each of them comes from. -/
theorem mapM_compileToken_iff {es : List (String × Entry)}
    {rs : List (CompiledToken × List Diagnostic)} :
    (es.mapM fun e => compileToken locales source e.1 e.2) = .ok rs ↔
      List.Forall₂ (IsTokenOf locales source) es (rs.map Prod.fst) ∧
        rs.map Prod.snd = es.map (valueFindings locales source) := by
  rw [Traversal.mapM_eq_ok_iff, List.forall₂_map_right_iff]
  constructor
  · intro h
    refine ⟨h.imp fun e r hr => (compileToken_eq_ok_iff.1 hr).1, ?_⟩
    exact Traversal.map_eq_of_forall₂ h fun e r hr => (compileToken_eq_ok_iff.1 hr).2
  · rintro ⟨htokens, hfindings⟩
    rw [← List.forall₂_eq_eq_eq, List.forall₂_map_left_iff, List.forall₂_map_right_iff] at hfindings
    exact List.Forall₂.mp (fun e r ht hf => compileToken_eq_ok_iff.2 ⟨ht, hf⟩) htokens hfindings.flip

/-- The names of the compiled tokens are those of the entries. -/
theorem map_name_tokens {es : List (String × Entry)} {ts : List CompiledToken}
    (h : List.Forall₂ (IsTokenOf locales source) es ts) : ts.map (·.name) = es.map Prod.fst := by
  apply Traversal.map_eq_of_forall₂ h
  intro e t ht
  obtain ⟨m, _, rfl⟩ := ht
  rfl

end Compilation

open Compilation

theorem LocaleSet.compile_of_get? {locales : LocaleSet} {source : String} {d : Dictionary}
    (h : locales.get? source = some d) :
    locales.compile source =
      (d.entries.entries.mapM fun e => compileToken locales source e.1 e.2).map fun compiled =>
        { source
          locales := locales.locales
          tokens := compiled.map Prod.fst
          diagnostics := compiled.flatMap Prod.snd ++ unknownFindings locales d } := by
  rw [compile, isEmpty_of_get? h, h]
  rfl

theorem LocaleSet.exists_get?_of_compile {locales : LocaleSet} {source : String} {c : Compilation}
    (h : locales.compile source = .ok c) : ∃ d, locales.get? source = some d := by
  unfold compile at h
  split at h
  · cases h
  · split at h
    · cases h
    · exact ⟨_, by assumption⟩

/-- The result of a compilation whose source dictionary is known. -/
theorem LocaleSet.compile_eq_ok_iff_of_get? {locales : LocaleSet} {source : String}
    {c : Compilation} {d : Dictionary} (hd : locales.get? source = some d) :
    locales.compile source = .ok c ↔
      c.source = source ∧ c.locales = locales.locales ∧
        List.Forall₂ (IsTokenOf locales source) d.entries.entries c.tokens ∧
        c.diagnostics = d.entries.entries.flatMap (valueFindings locales source) ++
          unknownFindings locales d := by
  rw [compile_of_get? hd]
  constructor
  · intro h
    obtain ⟨rs, hm, rfl⟩ := Traversal.exists_ok_of_map h
    obtain ⟨htokens, hfindings⟩ := mapM_compileToken_iff.1 hm
    refine ⟨rfl, rfl, htokens, ?_⟩
    show rs.flatMap Prod.snd ++ _ = _
    rw [List.flatMap_def, hfindings, ← List.flatMap_def]
  · obtain ⟨locale, _, tokens, _⟩ := c
    dsimp only
    rintro ⟨rfl, rfl, htokens, rfl⟩
    have hlen : tokens.length = (d.entries.entries.map (valueFindings locales locale)).length := by
      rw [List.length_map]
      exact htokens.length_eq.symm
    have hfst := List.map_fst_zip (Nat.le_of_eq hlen)
    have hsnd := List.map_snd_zip (Nat.le_of_eq hlen.symm)
    rw [mapM_compileToken_iff.2 ⟨by rw [hfst]; exact htokens, hsnd⟩]
    apply congrArg Except.ok
    show Compilation.mk _ _ _ (_ ++ _) = _
    rw [List.flatMap_def, hsnd, ← List.flatMap_def, hfst]

/-- **The result of a compilation.** -/
theorem LocaleSet.compile_eq_ok_iff {locales : LocaleSet} {source : String} {c : Compilation} :
    locales.compile source = .ok c ↔
      ∃ d, locales.get? source = some d ∧ c.source = source ∧ c.locales = locales.locales ∧
        List.Forall₂ (IsTokenOf locales source) d.entries.entries c.tokens ∧
        c.diagnostics = d.entries.entries.flatMap (valueFindings locales source) ++
          unknownFindings locales d := by
  constructor
  · intro h
    obtain ⟨d, hd⟩ := exists_get?_of_compile h
    exact ⟨d, hd, (compile_eq_ok_iff_of_get? hd).1 h⟩
  · rintro ⟨d, hd, h⟩
    exact (compile_eq_ok_iff_of_get? hd).2 h

theorem LocaleSet.locales_of_compile {locales : LocaleSet} {source : String} {c : Compilation}
    (h : locales.compile source = .ok c) : c.locales = locales.locales := by
  obtain ⟨_, _, _, hlocales, _⟩ := compile_eq_ok_iff.1 h
  exact hlocales

/-- **A compilation fails only over the source locale**: if it is missing, or if one of its messages
cannot be read. -/
theorem LocaleSet.exists_compile_iff {locales : LocaleSet} {source : String} :
    (∃ c, locales.compile source = .ok c) ↔
      ∃ d, locales.get? source = some d ∧
        ∀ e ∈ d.entries.entries, ∃ m, Message.ofText e.2.value = .ok m := by
  constructor
  · rintro ⟨c, hc⟩
    obtain ⟨d, hd, _, _, htokens, _⟩ := compile_eq_ok_iff.1 hc
    refine ⟨d, hd, fun e he => ?_⟩
    obtain ⟨_, m, hm, _⟩ := Traversal.exists_forall₂_iff.1 ⟨_, htokens⟩ e he
    exact ⟨m, hm⟩
  · rintro ⟨d, hd, h⟩
    have htoken : ∀ e ∈ d.entries.entries, ∃ t, IsTokenOf locales source e t := by
      intro e he
      obtain ⟨m, hm⟩ := h e he
      exact ⟨_, m, hm, rfl⟩
    obtain ⟨tokens, htokens⟩ := Traversal.exists_forall₂_iff.2 htoken
    exact ⟨⟨_, _, tokens, _⟩, compile_eq_ok_iff.2 ⟨d, hd, rfl, rfl, htokens, rfl⟩⟩

/-- A source dictionary with a token of each kind. -/
def Dictionary.sample : Dictionary :=
  .ofPairs "en" [("hi", "Hello"), ("bye", "Bye \x7bname\x7d"),
    ("items", "\x7bcount, plural, one [one] other [\x7bcount\x7d]\x7d")]

/-- With the sample as its source a compilation does not fail. -/
theorem LocaleSet.exists_compile_sample {locales : LocaleSet}
    (h : locales.get? "en" = some .sample) : ∃ c, locales.compile "en" = .ok c := by
  refine exists_compile_iff.2 ⟨_, h, ?_⟩
  refine List.forall_mem_cons.2 ⟨⟨.simple "Hello", rfl⟩, ?_⟩
  refine List.forall_mem_cons.2 ⟨⟨.simple "Bye \x7bname\x7d", rfl⟩, ?_⟩
  refine List.forall_mem_cons.2 ⟨⟨.plural [⟨.one, "one"⟩, ⟨.other, "\x7bcount\x7d"⟩], ?_⟩, ?_⟩
  · decide +kernel
  · exact List.forall_mem_nil _

end Phrasebook
