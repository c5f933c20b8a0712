import Phrasebook.Proofs.Literal.Identifier
import Phrasebook.Proofs.Literal.Numeral
import Phrasebook.Proofs.Literal.RoundTrip

/-!
# Keys that denote themselves

A key is written without quotes if it is a word of letters, digits and underscores. The name of a
property may be such a word, but one that begins with a digit is read as a number, and the number is
written out again. So the key that is meant is the key that was written exactly if the word does not
begin with a digit, or is the digits of a number that is written with all of them
(`quoteKey_denotes_iff`).
-/

namespace Phrasebook.Literal

open Text (charUnits units)

/-- The code units of the key that the name of a property denotes: a literal for its value, a number
for its text, a name for itself. Whether the key has a meaning of its own in an object, as
`__proto__` has, is left aside. -/
def propertyKey? (name : String) : Option (List Nat) :=
  match name.toList with
  | [] => none
  | c :: cs =>
    if isQuote c then readBody c cs
    else if c.isDigit then (numericKey? (c :: cs)).map charUnits
    else if isIdentifierName name then some (units name) else none

variable {key : String}

/-! ## Keys without quotes -/

theorem isBareKey_iff :
    isBareKey key = true ↔ key ≠ "" ∧ ∀ c ∈ key.toList, isAlphanumeric c = true ∨ c = '_' := by
  simp [isBareKey]

theorem not_mem_of_isBareKey (h : isBareKey key = true) {c : Char}
    (hc : isAlphanumeric c = false ∧ c ≠ '_') : c ∉ key.toList := by
  intro hmem
  rcases (isBareKey_iff.1 h).2 c hmem with hword | hunderscore
  · rw [hc.1] at hword
    cases hword
  · exact hc.2 hunderscore

/-- A bare key does not begin with a quote. -/
theorem head?_of_isBareKey (h : isBareKey key = true) : key.toList.head? ≠ some '\x27' :=
  fun hq => not_mem_of_isBareKey h (by decide) (List.mem_of_head? hq)

theorem head?_singleQuoted (text : String) : (singleQuoted text).toList.head? = some '\x27' := by
  rw [toList_singleQuoted]
  rfl

theorem quoteKey_of_isBareKey (h : isBareKey key = true) : quoteKey key = key := if_pos h

theorem length_le_flatMap_escapeChar (quote : Char) (cs : List Char) :
    cs.length ≤ (cs.flatMap (escapeChar quote)).length := by
  induction cs with
  | nil => exact Nat.le_refl _
  | cons c cs ih =>
    have hc : 0 < (escapeChar quote c).length := by
      unfold escapeChar
      repeat' split
      all_goals exact Nat.zero_lt_succ _
    rw [List.flatMap_cons, List.length_append, List.length_cons]
    omega

theorem quoteKey_eq_self_iff : quoteKey key = key ↔ isBareKey key = true := by
  refine ⟨fun h => ?_, quoteKey_of_isBareKey⟩
  by_contra hbare
  rw [quoteKey, if_neg hbare] at h
  -- the quotes make the key longer
  have hlength : (singleQuoted key).toList.length = key.toList.length := by rw [h]
  have hle := length_le_flatMap_escapeChar '\x27' key.toList
  rw [toList_singleQuoted, quoted, List.length_cons, List.length_append] at hlength
  omega

theorem isIdentifierName_iff_of_isBareKey (h : isBareKey key = true) :
    isIdentifierName key = true ↔ ∀ c ∈ key.toList.head?, c.isDigit = false := by
  obtain ⟨hne, hword⟩ := isBareKey_iff.1 h
  rw [isIdentifierName_iff]
  refine ⟨fun h => h.2.2, fun hstart => ⟨hne, fun c hc => ?_, hstart⟩⟩
  rcases hword c hc with halnum | rfl
  · rw [isIdentifierPart, halnum]
    rfl
  · rfl

/-- What a bare key denotes is told by its first character. -/
theorem propertyKey?_of_isBareKey (h : isBareKey key = true) :
    propertyKey? key =
      if isIdentifierName key then some (units key)
      else (numericKey? key.toList).map charUnits := by
  have hstart := isIdentifierName_iff_of_isBareKey h
  have hquote := head?_of_isBareKey h
  have hdouble : key.toList.head? ≠ some '\x22' := fun hq =>
    not_mem_of_isBareKey h (by decide) (List.mem_of_head? hq)
  obtain ⟨c, cs, hkey⟩ := List.exists_cons_of_ne_nil
    (mt String.toList_eq_nil_iff.1 (isBareKey_iff.1 h).1)
  rw [hkey] at hstart hquote hdouble ⊢
  have hno : isQuote c = false := by
    rw [Bool.eq_false_iff, ne_eq, isQuote_iff]
    rintro (rfl | rfl)
    · exact hdouble rfl
    · exact hquote rfl
  have hhead : isIdentifierName key = !c.isDigit := by
    rw [Bool.eq_iff_iff, hstart]
    simp
  simp only [propertyKey?, hkey, hno, hhead]
  cases c.isDigit <;> rfl

theorem propertyKey?_bare_iff (h : isBareKey key = true) :
    propertyKey? key = some (units key) ↔
      isIdentifierName key = true ∨ IsCanonical key.toList := by
  rw [propertyKey?_of_isBareKey h]
  cases hname : isIdentifierName key with
  | true => exact iff_of_true rfl (.inl rfl)
  | false =>
    have hstart : ∀ c ∈ key.toList.head?, c.isDigit = true := by
      intro c hc
      by_contra hdigit
      have := (isIdentifierName_iff_of_isBareKey h).2 fun d hd =>
        Option.mem_unique hc hd ▸ Bool.eq_false_iff.2 hdigit
      rw [hname] at this
      cases this
    have hplus : '+' ∉ key.toList := not_mem_of_isBareKey h (by decide)
    rw [if_neg Bool.false_ne_true, units, ← numericKey?_eq_self_iff hstart hplus]
    constructor
    · intro hmap
      obtain ⟨cs, hcs, hunits⟩ := Option.map_eq_some_iff.1 hmap
      exact .inr (hcs.trans (congrArg some (Text.charUnits_injective hunits)))
    · rintro (hno | hself)
      · cases hno
      · rw [hself, Option.map_some]

theorem propertyKey?_singleQuoted (text : String) :
    propertyKey? (singleQuoted text) = some (units text) ↔ '\\' ∉ text.toList := by
  have hbody : propertyKey? (singleQuoted text) = value? (singleQuoted text) := by
    rw [propertyKey?, value?, toList_singleQuoted]
    rfl
  rw [hbody]
  exact value?_eq_some_iff isQuote_single (toList_singleQuoted text)

/-- **What a key denotes.** A key is written as it is exactly if it is a word of letters, digits and
underscores. Then it denotes itself exactly if it does not begin with a digit, or is the digits of a
number that is written with all of them, as every number below `2 ^ 53` is. A key between quotes
denotes itself exactly if it has no backslash. -/
theorem quoteKey_denotes_iff (key : String) :
    (quoteKey key = key ↔
      key ≠ "" ∧ ∀ c ∈ key.toList, isAlphanumeric c = true ∨ c = '_') ∧
    (quoteKey key = key →
      (isIdentifierName key = true ↔ ∀ c ∈ key.toList.head?, c.isDigit = false) ∧
      (propertyKey? (quoteKey key) = some (units key) ↔
        isIdentifierName key = true ∨ IsCanonical key.toList)) ∧
    (∀ n < 2 ^ 53, key.toList = Nat.toDigits 10 n → IsCanonical key.toList) ∧
    (quoteKey key ≠ key →
      (propertyKey? (quoteKey key) = some (units key) ↔ '\\' ∉ key.toList)) := by
  refine ⟨quoteKey_eq_self_iff.trans isBareKey_iff, fun h => ?_, fun n hn hkey => ?_, fun h => ?_⟩
  · have hbare := quoteKey_eq_self_iff.1 h
    rw [h]
    exact ⟨isIdentifierName_iff_of_isBareKey hbare, propertyKey?_bare_iff hbare⟩
  · rw [hkey]
    exact isCanonical_toDigits hn
  · rw [quoteKey, if_neg (mt quoteKey_eq_self_iff.2 h)]
    exact propertyKey?_singleQuoted key

/-- A name, a year and a key between quotes. -/
theorem quoteKey_denotes :
    quoteKey "new" = "new" ∧ propertyKey? (quoteKey "new") = some (units "new") ∧
      quoteKey "2024" = "2024" ∧ propertyKey? (quoteKey "2024") = some (units "2024") ∧
      propertyKey? (quoteKey "zh-CN") = some (units "zh-CN") := by
  obtain ⟨-, hnew, -, -⟩ := quoteKey_denotes_iff "new"
  obtain ⟨-, hyear, hdigits, -⟩ := quoteKey_denotes_iff "2024"
  obtain ⟨-, -, -, hquoted⟩ := quoteKey_denotes_iff "zh-CN"
  have hn : quoteKey "new" = "new" := by decide
  have hy : quoteKey "2024" = "2024" := by decide
  have hz : quoteKey "zh-CN" ≠ "zh-CN" := by decide
  exact ⟨hn, (hnew hn).2.2 (.inl (by decide)), hy,
    (hyear hy).2.2 (.inr (hdigits 2024 (by decide) (by decide))), (hquoted hz).2 (by decide)⟩

/-- Keys without quotes that the language refuses, and keys that denote another key. -/
theorem leadingDigit_not_denoted :
    quoteKey "1a" = "1a" ∧ propertyKey? "1a" = none ∧
      quoteKey "01" = "01" ∧ propertyKey? "01" = none ∧
      quoteKey "1_0" = "1_0" ∧ propertyKey? "1_0" = some (units "10") ∧
      quoteKey "0x10" = "0x10" ∧ propertyKey? "0x10" = some (units "16") ∧
      quoteKey "9007199254740993" = "9007199254740993" ∧
        propertyKey? "9007199254740993" = some (units "9007199254740992") := by
  decide +kernel

end Phrasebook.Literal
