import Phrasebook.Module
import Phrasebook.Proofs.Compilation.Basic

/-!
# The contract of a token

What those who use a token rely on, its name, its kind and its source message, comes from the source
dictionary alone (`map_contracts_compile`). Two compilations with the same source dictionary
therefore both fail, in the same way, or both succeed with the same contracts, whatever the other
locales say; and whatever the generated module says by the contracts alone is the same in both.
-/

namespace Phrasebook

/-- What those who use a token rely on. -/
structure Contract where
  name : String
  kind : TokenKind
  /-- The source message as it was written. -/
  raw : String

def CompiledToken.contract (t : CompiledToken) : Contract := ⟨t.name, t.kind, t.raw⟩

/-- The contracts of the tokens of a source dictionary. -/
def Dictionary.contracts (d : Dictionary) : Except CompileError (List Contract) :=
  d.entries.entries.mapM fun e => (Token.ofEntry e.1 e.2).map fun t => ⟨e.1, t.kind, e.2.value⟩

namespace Compilation

def contracts (c : Compilation) : List Contract := c.tokens.map (·.contract)

theorem map_contract_compileToken (locales : LocaleSet) (source : String) (e : String × Entry) :
    (compileToken locales source e.1 e.2).map (fun r => r.1.contract) =
      (Token.ofEntry e.1 e.2).map fun t => ⟨e.1, t.kind, e.2.value⟩ := by
  rw [compileToken_eq]
  cases Token.ofEntry e.1 e.2 <;> rfl

end Compilation

/-- **The source dictionary alone decides over the contracts**, and over failure. -/
theorem LocaleSet.map_contracts_compile {locales : LocaleSet} {source : String} {d : Dictionary}
    (h : locales.get? source = some d) :
    (locales.compile source).map Compilation.contracts = d.contracts := by
  have hcontracts := Traversal.map_mapM (fun e => Compilation.compileToken locales source e.1 e.2)
    (fun r => r.1.contract) d.entries.entries
  simp only [Compilation.map_contract_compileToken] at hcontracts
  rw [compile_of_get? h, Dictionary.contracts, ← hcontracts]
  cases d.entries.entries.mapM fun e => Compilation.compileToken locales source e.1 e.2 with
  | error e => rfl
  | ok rs =>
    apply congrArg Except.ok
    show (rs.map Prod.fst).map (·.contract) = _
    rw [List.map_map]
    rfl

/-! ## Sections that are written by the contracts -/

/-- The lines of some sections, and the lines of those that follow. -/
theorem Section.renderAll_append {ss ts : List Section} (hs : ss ≠ []) (ht : ts ≠ []) :
    renderAll (ss ++ ts) = renderAll ss ++ "\n" ++ renderAll ts := by
  unfold renderAll
  rw [List.map_append, String.intercalate_append_of_ne_nil]
  · exact fun h => hs (List.map_eq_nil_iff.1 h)
  · exact fun h => ht (List.map_eq_nil_iff.1 h)

namespace Module

section Contracts

variable {ts us : List CompiledToken} (h : ts.map (·.contract) = us.map (·.contract))

include h

theorem map_eq_of_contracts {β : Type} (g : Contract → β) :
    ts.map (fun t => g t.contract) = us.map fun t => g t.contract := by
  have hg := congrArg (List.map g) h
  rw [List.map_map, List.map_map] at hg
  exact hg

theorem filter_contracts (b : Bucket) :
    (ts.filter (·.kind.bucket = b)).map (·.contract) =
      (us.filter (·.kind.bucket = b)).map (·.contract) := by
  have hb := congrArg (List.filter (·.kind.bucket = b)) h
  rw [List.filter_map, List.filter_map] at hb
  exact hb

theorem unionSection_eq (name : String) : unionSection name ts = unionSection name us := by
  have hempty : ts.isEmpty = us.isEmpty := by
    rw [← List.isEmpty_map, h, List.isEmpty_map]
  have hlines : ts.map (fun t => "  | " ++ Literal.singleQuoted t.name) =
      us.map fun t => "  | " ++ Literal.singleQuoted t.name :=
    map_eq_of_contracts h fun t => "  | " ++ Literal.singleQuoted t.name
  unfold unionSection
  rw [hempty, hlines]

theorem argumentSection_eq (name : String) (r : Registry) :
    argumentSection name r ts = argumentSection name r us := by
  unfold argumentSection
  apply congrArg (Section.braces _ · _)
  exact map_eq_of_contracts h fun t =>
    "  " ++ Literal.quoteKey t.name ++ ": " ++ (r.shapeOf t.kind.args).render ++ ";"

end Contracts

/-- The merged module up to its tables: the import, the fragments, the names of the tokens and their
argument types. -/
def typeSections (c : Compilation) (o : ModuleOptions) : List Section :=
  [disclaimer,
   importSection o,
   fragmentSection .builtin,
   unionSection "TokenSimpleNoArgs" (c.bucket .simpleNoArgs),
   argumentSection "TokensSimpleAndArgs" .builtin (c.bucket .simpleWithArgs),
   argumentSection "TokensPluralAndArgs" .builtin (c.bucket .pluralWithArgs),
   unionSection "TokenSimpleWithArgs" (c.bucket .simpleWithArgs),
   unionSection "TokenPluralWithArgs" (c.bucket .pluralWithArgs)]

/-- The merged module begins with its types, and its tables follow. -/
theorem exists_mergedSections_eq (c : Compilation) (o : ModuleOptions) :
    ∃ tables, tables ≠ [] ∧ mergedSections c o = typeSections c o ++ tables :=
  ⟨_, List.cons_ne_nil _ _, rfl⟩

variable {c c' : Compilation}

theorem typeSections_eq (h : c.contracts = c'.contracts) (o : ModuleOptions) :
    typeSections c o = typeSections c' o := by
  have hbucket : ∀ b, (c.bucket b).map (·.contract) = (c'.bucket b).map (·.contract) :=
    fun b => filter_contracts h b
  unfold typeSections
  rw [unionSection_eq (hbucket .simpleNoArgs), argumentSection_eq (hbucket .simpleWithArgs),
    argumentSection_eq (hbucket .pluralWithArgs), unionSection_eq (hbucket .simpleWithArgs),
    unionSection_eq (hbucket .pluralWithArgs)]

theorem singleSections_eq (hs : c.source = c'.source) (h : c.contracts = c'.contracts) :
    singleSections c = singleSections c' := by
  have hlines : c.tokens.map messageLine = c'.tokens.map messageLine :=
    map_eq_of_contracts h fun t =>
      "  " ++ Literal.quoteKey t.name ++ ": " ++ Literal.singleQuoted t.raw ++ ","
  unfold singleSections
  rw [hs, hlines]

/-- The text of a merged module begins with that of its types. -/
theorem exists_render_eq (c : Compilation) {o : ModuleOptions} (ho : o.mode = .merged) :
    ∃ tables, c.render o = Section.renderAll (typeSections c o) ++ "\n" ++ tables := by
  obtain ⟨tables, hne, htables⟩ := exists_mergedSections_eq c o
  refine ⟨Section.renderAll tables, ?_⟩
  rw [Compilation.render, Compilation.sections, ho]
  dsimp only
  rw [htables]
  exact Section.renderAll_append (List.cons_ne_nil _ _) hne

end Module

/-- **Translations never change a contract.** -/
theorem LocaleSet.compile_agree {s s' : LocaleSet} {source : String} {d : Dictionary}
    (h : s.get? source = some d) (h' : s'.get? source = some d) :
    (∃ e, s.compile source = .error e ∧ s'.compile source = .error e) ∨
      ∃ c c', s.compile source = .ok c ∧ s'.compile source = .ok c' ∧
        c.contracts = c'.contracts ∧
        (∀ o, o.mode = .single → c.render o = c'.render o) ∧
        ∀ o, o.mode = .merged → Module.typeSections c o = Module.typeSections c' o ∧
          ∃ tables tables',
            c.render o = Section.renderAll (Module.typeSections c o) ++ "\n" ++ tables ∧
            c'.render o = Section.renderAll (Module.typeSections c o) ++ "\n" ++ tables' := by
  have hs := map_contracts_compile h
  have hs' := map_contracts_compile h'
  cases hd : d.contracts with
  | error e =>
    left
    rw [hd] at hs hs'
    exact ⟨e, Traversal.eq_error_of_map hs, Traversal.eq_error_of_map hs'⟩
  | ok contracts =>
    right
    rw [hd] at hs hs'
    obtain ⟨c, hc, hcontracts⟩ := Traversal.exists_ok_of_map hs
    obtain ⟨c', hc', hcontracts'⟩ := Traversal.exists_ok_of_map hs'
    have heq : c.contracts = c'.contracts := hcontracts.trans hcontracts'.symm
    obtain ⟨hsource, _⟩ := (compile_eq_ok_iff_of_get? h).1 hc
    obtain ⟨hsource', _⟩ := (compile_eq_ok_iff_of_get? h').1 hc'
    refine ⟨c, c', hc, hc', heq, fun o ho => ?_, fun o ho => ⟨Module.typeSections_eq heq o, ?_⟩⟩
    · unfold Compilation.render Compilation.sections
      rw [ho]
      dsimp only
      rw [Module.singleSections_eq (hsource.trans hsource'.symm) heq]
    · obtain ⟨tables, htables⟩ := Module.exists_render_eq c ho
      obtain ⟨tables', htables'⟩ := Module.exists_render_eq c' ho
      refine ⟨tables, tables', htables, ?_⟩
      rw [Module.typeSections_eq heq]
      exact htables'

/-- A malformed translation on one side; an empty and an unknown one, placed first, on the other. -/
theorem LocaleSet.exists_compile_agree :
    ∃ c c', (ofList [.sample, .ofPairs "fr" [("items", "\x7bcount, plural, uno [un]\x7d"),
        ("hi", "Salut \x7bname\x7d")]]).compile "en" = .ok c ∧
      (ofList [.ofPairs "de" [("items", ""), ("other", "Andere")], .sample]).compile "en" = .ok c' ∧
      c.contracts = c'.contracts ∧ c.render { mode := .single } = c'.render { mode := .single } ∧
      Module.typeSections c {} = Module.typeSections c' {} := by
  have hfr : (ofList [.sample, .ofPairs "fr" [("items", "\x7bcount, plural, uno [un]\x7d"),
      ("hi", "Salut \x7bname\x7d")]]).get? "en" = some .sample := rfl
  have hde : (ofList [.ofPairs "de" [("items", ""), ("other", "Andere")], .sample]).get? "en" =
      some .sample := rfl
  rcases compile_agree hfr hde with ⟨e, he, _⟩ | ⟨c, c', hc, hc', hcontracts, hsingle, hmerged⟩
  · obtain ⟨c, hc⟩ := exists_compile_sample hfr
    cases he.symm.trans hc
  · exact ⟨c, c', hc, hc', hcontracts, hsingle _ rfl, (hmerged _ rfl).1⟩

end Phrasebook
