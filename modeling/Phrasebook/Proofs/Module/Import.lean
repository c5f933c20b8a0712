import Phrasebook.Proofs.Literal.Identifier
import Phrasebook.Proofs.Module.LineStructure

/-!
# The import of the merged module

The name of the module that the type of locales comes from is put between quotes as it stands in the
configuration, unlike every other text. So the import is well formed, and is from this module,
exactly if all characters of the name stand for themselves (`Config.importsType_iff`). The check of
a configuration asks neither for this nor for a name that can be bound.

The value of a literal that is written so can be the text only if nothing in the text has to be
escaped: a literal weighs as much as its value at least, and a backslash, a quote or a line
terminator in the text would add to the weight of the value only.
-/

namespace Phrasebook

namespace Literal

open Text (codeUnits charUnits units)

/-! ## Texts between quotes as they are -/

/-- The character stands for itself in a literal between `quote`s. -/
def isPlain (quote c : Char) : Bool := c ≠ quote && c ≠ '\\' && !isLineTerminator c

variable {quote : Char}

theorem isPlain_iff {c : Char} :
    isPlain quote c = true ↔ c ≠ quote ∧ c ≠ '\\' ∧ isLineTerminator c = false := by
  simp [isPlain, and_assoc]

/-- A character with a meaning of its own adds to the weight of the value only. -/
theorem weight_le_unitWeight (hq : isQuote quote = true) (c : Char) :
    weight [c] + (if isPlain quote c then 0 else 1) ≤
      unitWeight quote (codeUnits c.toNat) + backslashes (codeUnits c.toNat) := by
  by_cases hl : isLineTerminator c = true
  · rcases isQuote_iff.1 hq with rfl | rfl <;>
      rcases isLineTerminator_iff.1 hl with rfl | rfl | rfl | rfl <;> decide
  by_cases hc : c = quote
  · subst hc
    rcases isQuote_iff.1 hq with rfl | rfl <;> decide
  by_cases hb : c = '\\'
  · subst hb
    rcases isQuote_iff.1 hq with rfl | rfl <;> decide
  rw [Bool.not_eq_true] at hl
  rw [unitWeight_plain hq hc hl, if_pos (isPlain_iff.2 ⟨hc, hb, hl⟩)]
  exact Nat.le_add_right _ _

theorem weight_le_charUnits (hq : isQuote quote = true) (cs : List Char) :
    weight cs + cs.countP (!isPlain quote ·) ≤
      unitWeight quote (charUnits cs) + backslashes (charUnits cs) := by
  induction cs with
  | nil => exact Nat.le_refl _
  | cons c cs ih =>
    have hc := weight_le_unitWeight hq c
    rw [Text.charUnits_cons, unitWeight_append, backslashes_append, weight_cons, List.countP_cons]
    cases hp : isPlain quote c <;> simp [hp] at hc ⊢ <;> omega

theorem readBody_plain {cs : List Char} (hcs : ∀ c ∈ cs, isPlain quote c = true) :
    readBody quote (cs ++ [quote]) = some (charUnits cs) := by
  induction cs with
  | nil => exact readBody_quote quote
  | cons c cs ih =>
    obtain ⟨hc, hrest⟩ := List.forall_mem_cons.1 hcs
    obtain ⟨hq, hb, hl⟩ := isPlain_iff.1 hc
    rw [List.cons_append, readBody_of_ne hq hb hl, ih hrest]
    rfl

/-- A text that is put between quotes as it is reads back exactly if it is plain. -/
theorem readBody_eq_charUnits_iff (hq : isQuote quote = true) (cs : List Char) :
    readBody quote (cs ++ [quote]) = some (charUnits cs) ↔ ∀ c ∈ cs, isPlain quote c = true := by
  refine ⟨fun h => ?_, readBody_plain⟩
  have hread := weight_le_of_readBody hq h
  have hwrite := weight_le_charUnits hq cs
  rw [weight_append, weight_quote hq] at hread
  have hcount : cs.countP (!isPlain quote ·) = 0 := by omega
  simpa using List.countP_eq_zero.1 hcount

/-- A text between quotes as it is is one literal with the text as its value exactly if it is plain. -/
theorem value?_eq_units_iff (hq : isQuote quote = true) {literal text : String}
    (h : literal.toList = quote :: (text.toList ++ [quote])) :
    value? literal = some (units text) ↔ ∀ c ∈ text.toList, isPlain quote c = true := by
  rw [value?_eq_readBody hq h]
  exact readBody_eq_charUnits_iff hq text.toList

end Literal

open Literal
open Text (units)

namespace Module

/-! ## The import -/

/-- The text is one line that imports a type under a name that can be bound. The module is the value
of one literal between single quotes. -/
structure ImportsType (text name : String) (module : List Nat) : Prop where
  binding : isBindingIdentifier name = true
  line : ∃ specifier, text = "import type \x7b " ++ name ++ " \x7d from " ++ specifier ++ ";\n" ∧
    IsOneLine specifier ∧ specifier.toList.head? = some '\x27' ∧ value? specifier = some module

/-- What stands behind `from` in the import. -/
def specifierOf (o : ModuleOptions) : String := "'" ++ o.localeTypeModule ++ "'"

theorem toList_specifierOf (o : ModuleOptions) :
    (specifierOf o).toList = '\x27' :: (o.localeTypeModule.toList ++ ['\x27']) := by
  rw [specifierOf, String.toList_append, String.toList_append]
  rfl

theorem render_importSection (o : ModuleOptions) :
    (importSection o).render =
      "import type \x7b " ++ o.localeType ++ " \x7d from " ++ specifierOf o ++ ";\n" := by
  have hfrom : " \x7d from '" = " \x7d from " ++ "'" := by decide
  have hend : "';" ++ "\n" = "'" ++ ";\n" := by decide
  simp only [importSection, Section.render, List.map_cons, List.map_nil, String.join_cons,
    String.join_nil, String.append_empty, specifierOf, hfrom, String.append_assoc, hend]

theorem isOneLine_specifierOf {o : ModuleOptions}
    (h : ∀ c ∈ o.localeTypeModule.toList, isPlain '\x27' c = true) :
    IsOneLine (specifierOf o) := by
  have hmodule : IsOneLine o.localeTypeModule := fun c hc => (isPlain_iff.1 (h c hc)).2.2
  exact isOneLine_append.2 ⟨isOneLine_append.2 ⟨by decide, hmodule⟩, by decide⟩

/-- What stands behind `from` can be told from the text. -/
theorem ImportsType.value?_specifierOf {o : ModuleOptions} {module : List Nat}
    (h : ImportsType (importSection o).render o.localeType module) :
    value? (specifierOf o) = some module := by
  obtain ⟨-, specifier, hline, -, -, hread⟩ := h
  rw [render_importSection, String.append_left_inj, String.append_right_inj] at hline
  rwa [hline]

theorem importsType_importSection_iff (o : ModuleOptions) :
    ImportsType (importSection o).render o.localeType (units o.localeTypeModule) ↔
      isBindingIdentifier o.localeType = true ∧
        ∀ c ∈ o.localeTypeModule.toList, isPlain '\x27' c = true := by
  have hvalue := value?_eq_units_iff isQuote_single (toList_specifierOf o)
  constructor
  · intro h
    exact ⟨h.binding, hvalue.1 h.value?_specifierOf⟩
  · rintro ⟨hbinding, hplain⟩
    exact ⟨hbinding, specifierOf o, render_importSection o, isOneLine_specifierOf hplain,
      by rw [toList_specifierOf]; rfl, hvalue.2 hplain⟩

end Module

open Module

theorem Config.isIdentifier_of_invalid? {config : Config} (h : config.invalid? = none) :
    isIdentifier config.localeType = true := by
  by_contra hno
  rw [Bool.not_eq_true] at hno
  unfold invalid? at h
  split at h
  · cases h
  split at h
  · cases h
  rw [hno] at h
  cases h

/-- **The import of a checked configuration.** For every configuration that passes the check, the
second section of the merged module is the import. It is well formed, and from the module that the
configuration names, exactly if the type of locales is no word that the language keeps for itself
and no character of the name of the module would have to be escaped. -/
theorem Config.importsType_iff {config : Config} (h : config.invalid? = none) (c : Compilation) :
    (∃ rest, c.render { config.moduleOptions with mode := .merged } =
      "\n".intercalate
        (disclaimer.render :: (importSection config.moduleOptions).render :: rest)) ∧
    (ImportsType (importSection config.moduleOptions).render config.localeType
        (units config.localeTypeModule) ↔
      config.localeType ∉ unbindableWords ∧
        ∀ c ∈ config.localeTypeModule.toList, isPlain '\x27' c = true) := by
  refine ⟨⟨_, rfl⟩, (importsType_importSection_iff config.moduleOptions).trans ?_⟩
  have hname : isIdentifierName config.localeType = true :=
    isIdentifierName_of_isIdentifier (isIdentifier_of_invalid? h)
  show isBindingIdentifier config.localeType = true ∧ _ ↔ _
  rw [isBindingIdentifier, hname, Bool.true_and, decide_eq_true_iff]
  rfl

/-- The import of a configuration in which nothing is set. -/
theorem Config.importsType_default :
    invalid? {} = none ∧
      ImportsType (importSection (moduleOptions {})).render "CrowdinLocale"
        (units "./constants") := by
  have hvalid : invalid? {} = none := by decide
  obtain ⟨-, himport⟩ := Config.importsType_iff hvalid ⟨"en", ["en"], [], []⟩
  exact ⟨hvalid, himport.2 ⟨by decide, List.all_eq_true.1 (by decide)⟩⟩

/-- A quote in the name of the module ends the literal, and a reserved word passes for a type. -/
theorem Config.not_importsType :
    invalid? { localeTypeModule := "./it's" } = none ∧
      (¬ ∃ module, ImportsType
        (importSection (moduleOptions { localeTypeModule := "./it's" })).render "CrowdinLocale"
          module) ∧
      invalid? { localeType := "class" } = none ∧
      ¬ ∃ module, ImportsType (importSection (moduleOptions { localeType := "class" })).render
        "class" module := by
  refine ⟨by decide, ?_, by decide, ?_⟩
  · rintro ⟨module, himport⟩
    have hnone : value? (specifierOf (moduleOptions { localeTypeModule := "./it's" })) = none := by
      cbv
    have hsome := himport.value?_specifierOf
    rw [hnone] at hsome
    cases hsome
  · rintro ⟨module, himport⟩
    exact absurd himport.binding (by decide)

end Phrasebook
