import Phrasebook.Module
import Phrasebook.Proofs.Compilation.Basic
import Phrasebook.Proofs.Literal.Identifier

/-!
# The constant of the single module

The single module is one constant, and a type that is made from it, under a name made from the
source locale. The name has the form of an identifier whatever the locale is, but nothing keeps it
from being a word of the language: the declarations are well formed exactly for the locales that are
no such word (`constIdentifier_binds_iff`).
-/

namespace Phrasebook

open Literal

namespace Module

/-- The sections declare a constant and a type made from it, by a name that can be bound. -/
structure DeclaresConstant (sections : List Section) (name : String) : Prop where
  binding : isBindingIdentifier name = true
  lines : ∃ object, sections =
    [disclaimer,
     ("export const " ++ name ++ " = \x7b") :: object,
     ["export type Dictionary = typeof " ++ name ++ ";"]]

theorem declaresConstant_singleSections_iff {c : Compilation} {name : String} :
    DeclaresConstant (singleSections c) name ↔
      name = constIdentifier c.source ∧ isBindingIdentifier (constIdentifier c.source) = true := by
  constructor
  · rintro ⟨hbinding, object, hlines⟩
    have hline : "export const " ++ constIdentifier c.source ++ " = \x7b" =
        "export const " ++ name ++ " = \x7b" := by
      injection hlines with _ hlines
      injection hlines with hsection
      exact (List.cons.inj hsection).1
    rw [String.append_left_inj, String.append_right_inj] at hline
    exact ⟨hline.symm, hline ▸ hbinding⟩
  · rintro ⟨rfl, hbinding⟩
    exact ⟨hbinding, _, rfl⟩

end Module

open Module

/-- **The name of the constant.** What is made from a locale is a word of letters, digits and
underscores that does not begin with a digit, and it can be bound exactly if the locale is no word
that the language keeps for itself. So the single module of a compilation declares its constant and
its type exactly if the source locale is no such word. -/
theorem constIdentifier_binds_iff (source : String) :
    (constIdentifier source ≠ "" ∧
      (∀ c ∈ (constIdentifier source).toList, isAlphanumeric c = true ∨ c = '_') ∧
      ∀ c ∈ (constIdentifier source).toList.head?, c.isDigit = false) ∧
    (isBindingIdentifier (constIdentifier source) = true ↔ source ∉ unbindableWords) ∧
    ∀ (locales : LocaleSet) (c : Compilation), locales.compile source = .ok c →
      ((∃ name, DeclaresConstant (c.sections { mode := .single }) name) ↔
        source ∉ unbindableWords) := by
  refine ⟨?_, isBindingIdentifier_constIdentifier_iff source, fun locales c h => ?_⟩
  · obtain ⟨hne, -, hhead⟩ := isIdentifierName_iff.1 (isIdentifierName_constIdentifier source)
    exact ⟨hne, fun c => mem_constIdentifier, hhead⟩
  · obtain ⟨d, -, rfl, -⟩ := LocaleSet.compile_eq_ok_iff.1 h
    show (∃ name, DeclaresConstant (singleSections c) name) ↔ _
    simp only [declaresConstant_singleSections_iff, exists_eq_left,
      isBindingIdentifier_constIdentifier_iff]

/-- A locale that begins with a digit and has a region. -/
theorem exists_declaresConstant :
    ∃ c, (LocaleSet.ofList [.ofPairs "1x-CN" [("hi", "Hello")]]).compile "1x-CN" = .ok c ∧
      ∃ name, DeclaresConstant (c.sections { mode := .single }) name := by
  obtain ⟨-, -, hmodule⟩ := constIdentifier_binds_iff "1x-CN"
  have hlocale : "1x-CN" ∉ unbindableWords := by decide
  exact ⟨_, rfl, (hmodule (LocaleSet.ofList [.ofPairs "1x-CN" [("hi", "Hello")]]) _ rfl).2
    hlocale⟩

/-- A locale that is a reserved word, as the former code of Indonesian is. -/
theorem exists_not_declaresConstant :
    constIdentifier "in" = "in" ∧ isBindingIdentifier (constIdentifier "in") = false ∧
      ∃ c, (LocaleSet.ofList [.ofPairs "in" [("hi", "Halo")]]).compile "in" = .ok c ∧
        ¬ ∃ name, DeclaresConstant (c.sections { mode := .single }) name := by
  have hname : constIdentifier "in" = "in" :=
    (constIdentifier_eq_iff (by decide) (List.all_eq_true.1 rfl)).2 rfl
  have hbound : isBindingIdentifier "in" = false := by decide
  refine ⟨hname, (congrArg isBindingIdentifier hname).trans hbound, _, rfl, ?_⟩
  rintro ⟨name, hdeclares⟩
  obtain ⟨-, hbinding⟩ := declaresConstant_singleSections_iff.1 hdeclares
  have hin : isBindingIdentifier (constIdentifier "in") = true := hbinding
  rw [hname, hbound] at hin
  cases hin

end Phrasebook
