import Phrasebook.Config.Basic

/-!
# Identifiers

The names that the generated module may declare, import, or write as a key without quotes, by the
grammar of ECMAScript. Names with other characters than those of ASCII are never written so, and are
left out here.

What is made from a locale always has the form of a name. It is a word that the language keeps for
itself only if the locale is this word (`constIdentifier_eq_iff`).
-/

namespace Phrasebook.Literal

def isIdentifierPart (c : Char) : Bool := isAlphanumeric c || c = '_' || c = '$'

/-- A name, which does not begin with a digit. -/
def isIdentifierName (name : String) : Bool :=
  match name.toList with
  | [] => false
  | c :: cs => !c.isDigit && (c :: cs).all isIdentifierPart

/-- The words that a module cannot bind: the reserved words, with those of strict code and of
modules, and the two names that strict code protects. -/
def unbindableWords : List String :=
  ["arguments", "await", "break", "case", "catch", "class", "const", "continue", "debugger",
   "default", "delete", "do", "else", "enum", "eval", "export", "extends", "false", "finally",
   "for", "function", "if", "implements", "import", "in", "instanceof", "interface", "let", "new",
   "null", "package", "private", "protected", "public", "return", "static", "super", "switch",
   "this", "throw", "true", "try", "typeof", "var", "void", "while", "with", "yield"]

/-- A name that can be declared or imported. -/
def isBindingIdentifier (name : String) : Bool := isIdentifierName name && name ∉ unbindableWords

variable {name locale word : String}

theorem isIdentifierName_iff :
    isIdentifierName name = true ↔
      name ≠ "" ∧ (∀ c ∈ name.toList, isIdentifierPart c = true) ∧
        ∀ c ∈ name.toList.head?, c.isDigit = false := by
  have hempty : name ≠ "" ↔ name.toList ≠ [] := not_congr String.toList_eq_nil_iff.symm
  rw [isIdentifierName, hempty]
  cases name.toList with
  | nil => simp
  | cons c cs => simp [and_comm]

theorem not_isDigit_of_isAlpha {c : Char} (h : c.isAlpha = true) : c.isDigit = false := by
  refine Bool.eq_false_iff.2 fun hdigit => ?_
  have h9 : c ≤ '9' := of_decide_eq_true (Bool.and_eq_true_iff.1 hdigit).2
  rcases Bool.or_eq_true_iff.1 h with hupper | hlower
  · have hA : 'A' ≤ c := (of_decide_eq_true hupper).1
    exact absurd (Char.le_trans hA h9) (by decide)
  · have ha : 'a' ≤ c := of_decide_eq_true (Bool.and_eq_true_iff.1 hlower).1
    exact absurd (Char.le_trans ha h9) (by decide)

/-- The names that a configuration may give to a type are identifier names. -/
theorem isIdentifierName_of_isIdentifier (h : Config.isIdentifier name = true) :
    isIdentifierName name = true := by
  unfold Config.isIdentifier at h
  unfold isIdentifierName
  generalize name.toList = cs at h ⊢
  cases cs with
  | nil => cases h
  | cons c cs =>
    obtain ⟨hc, hcs⟩ := Bool.and_eq_true_iff.1 h
    have hstart : c.isDigit = false ∧ isIdentifierPart c = true := by
      simp only [Bool.or_eq_true, decide_eq_true_eq] at hc
      rcases hc with (halpha | rfl) | rfl
      · exact ⟨not_isDigit_of_isAlpha halpha, by
          simp [isIdentifierPart, isAlphanumeric, Char.isAlphanum, halpha]⟩
      · decide
      · decide
    show (!c.isDigit && (c :: cs).all isIdentifierPart) = true
    rw [hstart.1, List.all_cons, hstart.2]
    exact hcs

/-! ## The identifier of a locale -/

/-- What is written for a character of a locale. -/
def constChar (c : Char) : Char := if isAlphanumeric c then c else '_'

theorem constIdentifier_eq (locale : String) :
    constIdentifier locale = match (locale.map constChar).toList with
      | [] => "_"
      | c :: _ => if c.isDigit then "_" ++ locale.map constChar else locale.map constChar := rfl

/-- A locale is written character by character, behind an underscore where no name can begin. -/
theorem toList_constIdentifier (locale : String) :
    (∀ c ∈ (locale.toList.map constChar).head?, c.isDigit = true) ∧
        (constIdentifier locale).toList = '_' :: locale.toList.map constChar ∨
      (∃ c ∈ (locale.toList.map constChar).head?, c.isDigit = false) ∧
        (constIdentifier locale).toList = locale.toList.map constChar := by
  have hword : (locale.map constChar).toList = locale.toList.map constChar := String.toList_map
  rw [constIdentifier_eq]
  split
  · rename_i hnil
    rw [hword] at hnil
    rw [hnil]
    exact .inl ⟨by simp, rfl⟩
  · rename_i c cs hcs
    rw [hword] at hcs
    split
    · rename_i hdigit
      rw [String.toList_append, hword, hcs]
      exact .inl ⟨by rintro _ ⟨⟩; exact hdigit, rfl⟩
    · rename_i hdigit
      rw [hword, hcs]
      exact .inr ⟨⟨c, rfl, Bool.eq_false_iff.2 hdigit⟩, rfl⟩

theorem constChar_eq_or (c : Char) :
    isAlphanumeric (constChar c) = true ∨ constChar c = '_' := by
  unfold constChar
  split
  · rename_i h
    exact .inl h
  · exact .inr rfl

/-- What is made from a locale is a word of letters, digits and underscores. -/
theorem mem_constIdentifier {c : Char} (h : c ∈ (constIdentifier locale).toList) :
    isAlphanumeric c = true ∨ c = '_' := by
  have hmap : c ∈ locale.toList.map constChar → isAlphanumeric c = true ∨ c = '_' := by
    intro hc
    obtain ⟨d, -, rfl⟩ := List.mem_map.1 hc
    exact constChar_eq_or d
  rcases toList_constIdentifier locale with ⟨-, hlist⟩ | ⟨-, hlist⟩
  · rw [hlist, List.mem_cons] at h
    exact h.elim .inr hmap
  · exact hmap (hlist ▸ h)

theorem exists_head_constIdentifier (locale : String) :
    ∃ c ∈ (constIdentifier locale).toList.head?, c.isDigit = false := by
  rcases toList_constIdentifier locale with ⟨-, hlist⟩ | ⟨hhead, hlist⟩
  · rw [hlist]
    exact ⟨_, rfl, rfl⟩
  · rw [hlist]
    exact hhead

theorem isIdentifierName_constIdentifier (locale : String) :
    isIdentifierName (constIdentifier locale) = true := by
  obtain ⟨c, hhead, hc⟩ := exists_head_constIdentifier locale
  refine isIdentifierName_iff.2 ⟨?_, fun x hx => ?_, fun x hx => ?_⟩
  · intro hempty
    rw [hempty] at hhead
    cases hhead
  · rcases mem_constIdentifier hx with h | rfl
    · rw [isIdentifierPart, h]
      rfl
    · rfl
  · rw [Option.mem_unique hx hhead]
    exact hc

/-- A word of letters is made from itself only. -/
theorem constIdentifier_eq_iff (hne : word ≠ "") (hword : ∀ c ∈ word.toList, c.isAlpha = true) :
    constIdentifier locale = word ↔ locale = word := by
  have halnum : ∀ c ∈ word.toList, isAlphanumeric c = true := by
    intro c hc
    rw [isAlphanumeric, Char.isAlphanum, hword c hc, Bool.true_or]
  constructor
  · rintro rfl
    rcases toList_constIdentifier locale with ⟨-, hlist⟩ | ⟨-, hlist⟩
    · have hunderscore := hword '_' (by rw [hlist]; exact List.mem_cons_self)
      exact absurd hunderscore (by decide)
    · -- no character was replaced, for an underscore is no letter
      have hself : ∀ c ∈ locale.toList, constChar c = c := by
        intro c hc
        have hletter := hword (constChar c) (by rw [hlist]; exact List.mem_map_of_mem hc)
        unfold constChar at hletter ⊢
        split
        · rfl
        · rename_i hno
          rw [if_neg hno] at hletter
          exact absurd hletter (by decide)
      rw [← String.toList_inj, hlist, List.map_congr_left hself, List.map_id']
  · rintro rfl
    have hchar : ∀ c ∈ locale.toList, constChar c = c := fun c hc => if_pos (halnum c hc)
    have hself : locale.toList.map constChar = locale.toList := by
      rw [List.map_congr_left hchar, List.map_id']
    rcases toList_constIdentifier locale with ⟨hhead, -⟩ | ⟨-, hlist⟩
    · obtain ⟨c, cs, hcs⟩ := List.exists_cons_of_ne_nil (mt String.toList_eq_nil_iff.1 hne)
      rw [hself, hcs] at hhead
      have hc := not_isDigit_of_isAlpha (hword c (by rw [hcs]; exact List.mem_cons_self))
      rw [hhead c rfl] at hc
      cases hc
    · rw [← String.toList_inj, hlist, hself]

/-- What is made from a locale can be bound unless the locale is a word that cannot. -/
theorem isBindingIdentifier_constIdentifier_iff (locale : String) :
    isBindingIdentifier (constIdentifier locale) = true ↔ locale ∉ unbindableWords := by
  have hwords : ∀ word ∈ unbindableWords, word ≠ "" ∧ word.toList.all Char.isAlpha = true := by
    decide
  have hmem : constIdentifier locale ∈ unbindableWords ↔ locale ∈ unbindableWords := by
    constructor
    · intro h
      obtain ⟨hne, hletters⟩ := hwords _ h
      exact (constIdentifier_eq_iff hne (List.all_eq_true.1 hletters)).1 rfl ▸ h
    · intro h
      obtain ⟨hne, hletters⟩ := hwords _ h
      rwa [(constIdentifier_eq_iff hne (List.all_eq_true.1 hletters)).2 rfl]
  rw [isBindingIdentifier, isIdentifierName_constIdentifier, Bool.true_and, decide_eq_true_iff,
    hmem]

end Phrasebook.Literal
