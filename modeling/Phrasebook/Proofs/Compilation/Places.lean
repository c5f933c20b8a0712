import Phrasebook.Module
import Phrasebook.Proofs.Compilation.Basic

/-!
# Places never count

The places of messages and the files of dictionaries are for reports only. Leaving them all out
(`unplaced`) before a compilation is leaving them out of its findings, or of its error, afterwards
(`LocaleSet.compile_unplaced`): the place of a message is handed on beside its text and nothing is
decided by it. So two locale sets that differ in places only compile to the same module.
-/

namespace Phrasebook

/-! ## Leaving out places -/

def Entry.unplaced (e : Entry) : Entry := { e with position := none }

def Dictionary.unplaced (d : Dictionary) : Dictionary where
  locale := d.locale
  entries := d.entries.mapValues Entry.unplaced

def LocaleSet.unplaced (s : LocaleSet) : LocaleSet where
  byLocale := s.byLocale.mapValues Dictionary.unplaced
  locale_eq e he := by
    obtain ⟨e', he', rfl⟩ := List.mem_map.1 he
    exact s.locale_eq e' he'

/-- The finding without its place. A value that is no string is always on some line. -/
def Diagnostic.unplaced : Diagnostic → Diagnostic
  | fallback token locale source reason _ => fallback token locale source reason none
  | malformedPlural token locale source error _ => malformedPlural token locale source error none
  | unknownToken token locale source _ => unknownToken token locale source none
  | nonStringValue key locale kind _ => nonStringValue key locale kind ⟨"", 0, 0⟩

def CompileError.unplaced : CompileError → CompileError
  | noLocales => noLocales
  | missingSource locale available => missingSource locale available
  | malformedSource token reason _ => malformedSource token reason none

def Compilation.unplaced (c : Compilation) : Compilation :=
  { c with diagnostics := c.diagnostics.map Diagnostic.unplaced }

namespace Dictionary

variable (d : Dictionary) (token : String)

@[simp] theorem entry?_unplaced : d.unplaced.entry? token = (d.entry? token).map Entry.unplaced :=
  OrderedMap.get?_mapValues ..

@[simp] theorem contains_unplaced : d.unplaced.contains token = d.contains token := by
  show (d.unplaced.entry? token).isSome = (d.entry? token).isSome
  rw [entry?_unplaced, Option.isSome_map]

end Dictionary

namespace LocaleSet

variable (s : LocaleSet)

@[simp] theorem locales_unplaced : s.unplaced.locales = s.locales :=
  OrderedMap.keys_mapValues ..

@[simp] theorem get?_unplaced (locale : String) :
    s.unplaced.get? locale = (s.get? locale).map Dictionary.unplaced :=
  OrderedMap.get?_mapValues ..

theorem dictionaries_unplaced :
    s.unplaced.dictionaries = s.dictionaries.map Dictionary.unplaced := by
  show (s.byLocale.entries.map _).map Prod.snd = (s.byLocale.entries.map Prod.snd).map _
  rw [List.map_map, List.map_map]
  rfl

theorem isEmpty_unplaced : s.unplaced.isEmpty = s.isEmpty := List.isEmpty_map

end LocaleSet

/-! ## What is decided without places -/

@[simp] theorem Diagnostic.rule_unplaced (f : Diagnostic) : f.unplaced.rule = f.rule := by
  cases f <;> rfl

theorem Resolution.choose_unplaced {α : Type} (read : String → Except Plural.Error α)
    (token source : String) (value : α) (d : Dictionary) :
    choose read token source value d.unplaced =
      ((choose read token source value d).1,
        (choose read token source value d).2.map Diagnostic.unplaced) := by
  by_cases hl : d.locale = source
  · rw [choose_source hl, choose_source (d := d.unplaced) hl]
    rfl
  have hl' : d.unplaced.locale ≠ source := hl
  cases h : d.entry? token with
  | none =>
    have h' : d.unplaced.entry? token = none := by rw [d.entry?_unplaced, h]; rfl
    rw [choose_missing hl h, choose_missing hl' h']
    rfl
  | some entry =>
    have h' : d.unplaced.entry? token = some entry.unplaced := by rw [d.entry?_unplaced, h]; rfl
    by_cases he : entry.value = ""
    · rw [choose_empty hl h he, choose_empty hl' h' he]
      rfl
    cases hr : read entry.value with
    | error e =>
      rw [choose_malformed hl h he hr, choose_malformed hl' h' he hr]
      rfl
    | ok own =>
      rw [choose_own hl h he hr, choose_own hl' h' he hr]
      rfl

theorem Message.resolve_unplaced (m : Message) (token source : String) (s : LocaleSet) :
    m.resolve token source s.unplaced =
      ((m.resolve token source s).1, (m.resolve token source s).2.map Diagnostic.unplaced) := by
  have hall {α : Type} (read : String → Except Plural.Error α) (value : α) :
      Resolution.chooseAll read token source value s.unplaced =
        ((Resolution.chooseAll read token source value s).1,
          (Resolution.chooseAll read token source value s).2.map Diagnostic.unplaced) := by
    unfold Resolution.chooseAll
    rw [s.dictionaries_unplaced, List.map_map, List.filterMap_map, List.map_filterMap]
    simp only [Function.comp_def, Resolution.choose_unplaced]
    rfl
  cases m with
  | simple text => simp only [resolve, hall]
  | plural branches => simp only [resolve, hall]

namespace Compilation

variable (s : LocaleSet) (source : String)

theorem compileToken_unplaced (e : String × Entry) :
    compileToken s.unplaced source e.1 e.2.unplaced =
      Traversal.convert CompileError.unplaced (fun r => (r.1, r.2.map Diagnostic.unplaced))
        (compileToken s source e.1 e.2) := by
  rw [compileToken_eq, compileToken_eq (e.1, e.2.unplaced), Token.ofEntry_eq, Token.ofEntry_eq]
  dsimp only [Entry.unplaced]
  cases Message.ofText e.2.value with
  | error reason => rfl
  | ok m =>
    simp only [Except.map, Message.resolve_unplaced]
    rfl

theorem unknownTokens_unplaced (d o : Dictionary) :
    unknownTokens d.unplaced o.unplaced = (unknownTokens d o).map Diagnostic.unplaced := by
  unfold unknownTokens
  by_cases hl : o.locale = d.locale
  · rw [if_pos hl, if_pos (show o.unplaced.locale = d.unplaced.locale from hl)]
    rfl
  · rw [if_neg hl, if_neg (show ¬ o.unplaced.locale = d.unplaced.locale from hl)]
    show (o.entries.entries.map _).filterMap _ = _
    rw [List.filterMap_map, List.map_filterMap]
    refine congrArg (o.entries.entries.filterMap ·) (funext fun e => ?_)
    dsimp only [Function.comp]
    rw [d.contains_unplaced]
    cases d.contains e.1 <;> rfl

/-- The module is written without the findings. -/
theorem render_unplaced (c : Compilation) (o : ModuleOptions) : c.unplaced.render o = c.render o :=
  rfl

theorem fallbackCount_unplaced (c : Compilation) : c.unplaced.fallbackCount = c.fallbackCount := by
  show (c.diagnostics.map _).countP _ = c.diagnostics.countP _
  rw [List.countP_map]
  simp only [Function.comp_def, Diagnostic.rule_unplaced]

end Compilation

/-- **Places are handed on and never looked at**: to compile without them is to compile, and to
leave them out of what comes of it. -/
theorem LocaleSet.compile_unplaced (s : LocaleSet) (source : String) :
    s.unplaced.compile source =
      Traversal.convert CompileError.unplaced Compilation.unplaced (s.compile source) := by
  cases hd : s.get? source with
  | none =>
    have hd' : s.unplaced.get? source = none := by rw [s.get?_unplaced, hd]; rfl
    unfold compile
    rw [hd, hd', s.isEmpty_unplaced, s.locales_unplaced]
    cases s.isEmpty <;> rfl
  | some d =>
    have hd' : s.unplaced.get? source = some d.unplaced := by rw [s.get?_unplaced, hd]; rfl
    have htokens : (d.entries.entries.map fun e => (e.1, e.2.unplaced)).mapM
        (fun e => Compilation.compileToken s.unplaced source e.1 e.2) = _ :=
      Traversal.mapM_convert (Compilation.compileToken_unplaced s source) d.entries.entries
    have hunknown : Compilation.unknownFindings s.unplaced d.unplaced =
        (Compilation.unknownFindings s d).map Diagnostic.unplaced := by
      unfold Compilation.unknownFindings
      rw [s.dictionaries_unplaced, List.flatMap_map, List.map_flatMap]
      exact List.flatMap_congr fun o _ => Compilation.unknownTokens_unplaced d o
    rw [compile_of_get? hd, compile_of_get? hd', hunknown, s.locales_unplaced]
    show Except.map _ ((d.entries.entries.map _).mapM _) = _
    rw [htokens]
    cases d.entries.entries.mapM fun e => Compilation.compileToken s source e.1 e.2 with
    | error e => rfl
    | ok rs =>
      simp only [Traversal.convert, Except.map, Compilation.unplaced, List.map_append,
        List.map_map, List.flatMap_map, List.map_flatMap]
      rfl

/-! ## Two compilations -/

namespace Compilation

/-- Two compilations that say the same, though perhaps not of the same places. -/
structure SameButPlaces (c c' : Compilation) : Prop where
  source : c.source = c'.source
  locales : c.locales = c'.locales
  tokens : c.tokens = c'.tokens
  counts : c.counts = c'.counts
  fallbackCount : c.fallbackCount = c'.fallbackCount
  findings : List.Forall₂ (fun f f' => f.unplaced = f'.unplaced) c.diagnostics c'.diagnostics
  render : ∀ o, c.render o = c'.render o

theorem sameButPlaces_of_unplaced_eq {c c' : Compilation} (h : c.unplaced = c'.unplaced) :
    c.SameButPlaces c' where
  source := congrArg (·.source) h
  locales := congrArg (·.locales) h
  tokens := congrArg (·.tokens) h
  counts := congrArg (·.counts) h
  fallbackCount := by rw [← c.fallbackCount_unplaced, h, c'.fallbackCount_unplaced]
  findings := by
    have hmap : c.diagnostics.map Diagnostic.unplaced = c'.diagnostics.map Diagnostic.unplaced :=
      congrArg Compilation.diagnostics h
    rwa [← List.forall₂_eq_eq_eq, List.forall₂_map_left_iff, List.forall₂_map_right_iff] at hmap
  render o := by rw [← c.render_unplaced, h, c'.render_unplaced]

end Compilation

/-- **Places never influence the result.** Of two locale sets that are the same when places and
files are left out, both compile to the same, or both fail in the same way. -/
theorem LocaleSet.compile_sameButPlaces {s t : LocaleSet} (h : s.unplaced = t.unplaced)
    (source : String) :
    (∃ e e', s.compile source = .error e ∧ t.compile source = .error e' ∧
        e.unplaced = e'.unplaced) ∨
      ∃ c c', s.compile source = .ok c ∧ t.compile source = .ok c' ∧ c.SameButPlaces c' := by
  have hsame := (s.compile_unplaced source).symm.trans
    ((congrArg (compile · source) h).trans (t.compile_unplaced source))
  cases hs : s.compile source with
  | error e =>
    rw [hs] at hsame
    cases ht : t.compile source with
    | error e' =>
      rw [ht] at hsame
      exact .inl ⟨e, e', rfl, rfl, Except.error.inj hsame⟩
    | ok c' =>
      rw [ht] at hsame
      cases hsame
  | ok c =>
    rw [hs] at hsame
    cases ht : t.compile source with
    | error e' =>
      rw [ht] at hsame
      cases hsame
    | ok c' =>
      rw [ht] at hsame
      exact .inr ⟨c, c', rfl, rfl, Compilation.sameButPlaces_of_unplaced_eq (Except.ok.inj hsame)⟩

/-- A dictionary with a malformed and an unknown message on two lines of a file. -/
def Dictionary.sampleOnLine (file : String) (line : Nat) : Dictionary where
  locale := "fr"
  file := some file
  entries := .ofList [
    ("items", ⟨"\x7bcount, plural, uno [un]\x7d", some ⟨file, line, 1⟩⟩),
    ("other", ⟨"Autre", some ⟨file, line + 1, 1⟩⟩)]

/-- The same messages in two files: the findings are on other lines, and nothing else differs. -/
theorem LocaleSet.exists_compile_sameButPlaces :
    (ofList [.sample, .sampleOnLine "fr.json" 2]).unplaced =
        (ofList [.sample, .sampleOnLine "old/fr.json" 7]).unplaced ∧
      ∃ c c', (ofList [.sample, .sampleOnLine "fr.json" 2]).compile "en" = .ok c ∧
        (ofList [.sample, .sampleOnLine "old/fr.json" 7]).compile "en" = .ok c' ∧
        c.diagnostics.map (·.place.line) = [0, 0, 2, 3] ∧
        c'.diagnostics.map (·.place.line) = [0, 0, 7, 8] ∧ c.SameButPlaces c' := by
  have hplaces : (ofList [.sample, .sampleOnLine "fr.json" 2]).unplaced =
      (ofList [.sample, .sampleOnLine "old/fr.json" 7]).unplaced := by decide +kernel
  have h : ((ofList [.sample, .sampleOnLine "fr.json" 2]).compile "en").toOption.map
      (fun c => c.diagnostics.map (·.place.line)) = some [0, 0, 2, 3] := by decide +kernel
  have h' : ((ofList [.sample, .sampleOnLine "old/fr.json" 7]).compile "en").toOption.map
      (fun c => c.diagnostics.map (·.place.line)) = some [0, 0, 7, 8] := by decide +kernel
  obtain ⟨c, hc, hlines⟩ := Traversal.exists_ok_of_toOption h
  obtain ⟨c', hc', hlines'⟩ := Traversal.exists_ok_of_toOption h'
  refine ⟨hplaces, c, c', hc, hc', hlines, hlines', ?_⟩
  rcases compile_sameButPlaces hplaces "en" with ⟨e, -, he, -⟩ | ⟨c₁, c₂, h₁, h₂, hsame⟩
  · cases hc.symm.trans he
  · cases hc.symm.trans h₁
    cases hc'.symm.trans h₂
    exact hsame

end Phrasebook
