import Phrasebook.Proofs.Literal.Value

/-!
# Literals that read back

A literal reads back to the text that it was written for exactly if the text has no backslash
(`quoted_reads_back_iff`): the line terminators and the quote are escaped, the backslash is not, so a
backslash of the text begins an escape sequence of the literal.

1. Without a backslash every character is read back from the characters written for it
   (`readBody_escapeChar`), so the whole text is.
2. For the converse, count in a literal the backslashes and the digits five, and in a value the
   units of these, of the line terminators and of the quote. Writing keeps the count
   (`weight_flatMap_escapeChar`). Reading never raises it, and each unit of a backslash costs one more
   (`weight_le_of_readBody`): an escape sequence that gives one is `\\` or has a five among its
   hexadecimal digits. So a value that is the text it was written for has no backslash.
-/

namespace Phrasebook.Literal

open Json (hexValue?)
open Text (codeUnits codeUnits_of_lt charUnits units)

/-! ## Without a backslash -/

theorem isQuote_iff {c : Char} : isQuote c = true ↔ c = '\x22' ∨ c = '\x27' := by
  simp [isQuote]

theorem isQuote_double : isQuote '\x22' = true := rfl

theorem isQuote_single : isQuote '\x27' = true := rfl

theorem ne_backslash_of_isQuote {quote : Char} (hq : isQuote quote = true) : quote ≠ '\\' := by
  rcases isQuote_iff.1 hq with rfl | rfl <;> decide

theorem isLineTerminator_iff {c : Char} :
    isLineTerminator c = true ↔ c = '\n' ∨ c = '\r' ∨ c = '\u2028' ∨ c = '\u2029' := by
  simp [isLineTerminator, or_assoc]

theorem escapeChar_quote {quote : Char} (hq : isQuote quote = true) :
    escapeChar quote quote = ['\\', quote] := by
  rcases isQuote_iff.1 hq with rfl | rfl <;> rfl

theorem escapeChar_plain {quote c : Char} (hc : c ≠ quote) (hl : isLineTerminator c = false) :
    escapeChar quote c = [c] := by
  simp_all [isLineTerminator, escapeChar]

theorem readBody_quote (quote : Char) : readBody quote [quote] = some [] := by
  rw [readBody, if_pos rfl, if_pos rfl]

theorem readBody_of_ne {quote c : Char} (hq : c ≠ quote) (hb : c ≠ '\\')
    (hl : isLineTerminator c = false) (rest : List Char) :
    readBody quote (c :: rest) = (readBody quote rest).map (codeUnits c.toNat ++ ·) := by
  rw [readBody, if_neg hq, if_neg hb, hl]
  rfl

theorem readBody_escape {quote : Char} {cs rest : List Char} {us : List Nat} (hq : quote ≠ '\\')
    (h : readEscape cs = some (us, rest)) :
    readBody quote ('\\' :: cs) = (readBody quote rest).map (us ++ ·) := by
  rw [readBody, if_neg hq.symm, if_pos rfl]
  split
  · rename_i hn
    rw [h] at hn
    cases hn
  · rename_i hs
    rw [h] at hs
    cases hs
    rfl

theorem readEscape_quote {quote : Char} (hq : isQuote quote = true) (rest : List Char) :
    readEscape (quote :: rest) = some (codeUnits quote.toNat, rest) := by
  rcases isQuote_iff.1 hq with rfl | rfl <;> rfl

/-- What is written for a character reads back to the character. -/
theorem readBody_escapeChar {quote c : Char} (hq : isQuote quote = true) (hc : c ≠ '\\')
    (rest : List Char) :
    readBody quote (escapeChar quote c ++ rest) =
      (readBody quote rest).map (codeUnits c.toNat ++ ·) := by
  have hb := ne_backslash_of_isQuote hq
  by_cases hl : isLineTerminator c = true
  · rcases isLineTerminator_iff.1 hl with rfl | rfl | rfl | rfl <;> exact readBody_escape hb rfl
  rw [Bool.not_eq_true] at hl
  by_cases h : c = quote
  · subst h
    rw [escapeChar_quote hq]
    exact readBody_escape hb (readEscape_quote hq rest)
  · rw [escapeChar_plain h hl]
    exact readBody_of_ne h hc hl rest

theorem readBody_flatMap_escapeChar {quote : Char} (hq : isQuote quote = true) {cs : List Char}
    (hcs : '\\' ∉ cs) :
    readBody quote (cs.flatMap (escapeChar quote) ++ [quote]) = some (charUnits cs) := by
  induction cs with
  | nil => exact readBody_quote quote
  | cons c cs ih =>
    rw [List.mem_cons, not_or] at hcs
    rw [List.flatMap_cons, List.append_assoc, readBody_escapeChar hq (Ne.symm hcs.1), ih hcs.2]
    rfl

/-! ## The weight of a literal and of its value -/

/-- A character of a literal that counts: a backslash, or the digit that every number of a
backslash has. -/
def isCounted (c : Char) : Bool := c = '\\' || c = '5'

/-- The weight of the characters of a literal. -/
def weight (cs : List Char) : Nat := cs.countP isCounted

/-- A unit of a value that counts: those of the characters that count in a literal, and those of the
characters that are written as an escape sequence. -/
def isCountedUnit (quote : Char) (u : Nat) : Bool :=
  u = 0x5C || u = 0x35 || u = 0xA || u = 0xD || u = 0x2028 || u = 0x2029 || u = quote.toNat

/-- The weight of the units of a value. -/
def unitWeight (quote : Char) (us : List Nat) : Nat := us.countP (isCountedUnit quote)

/-- The number of backslashes in a value. -/
def backslashes (us : List Nat) : Nat := us.count 0x5C

theorem weight_append (cs ds : List Char) : weight (cs ++ ds) = weight cs + weight ds :=
  List.countP_append

theorem weight_cons (c : Char) (cs : List Char) : weight (c :: cs) = weight [c] + weight cs :=
  weight_append [c] cs

theorem weight_quote {quote : Char} (hq : isQuote quote = true) : weight [quote] = 0 := by
  rcases isQuote_iff.1 hq with rfl | rfl <;> rfl

theorem unitWeight_append (quote : Char) (us vs : List Nat) :
    unitWeight quote (us ++ vs) = unitWeight quote us + unitWeight quote vs := List.countP_append

theorem backslashes_append (us vs : List Nat) :
    backslashes (us ++ vs) = backslashes us + backslashes vs := List.count_append

theorem unitWeight_surrogates {quote : Char} (hq : isQuote quote = true) {code : Nat}
    (h : ¬ code < 0x10000) : unitWeight quote (codeUnits code) = 0 := by
  have hq' : quote.toNat < 0x80 := by rcases isQuote_iff.1 hq with rfl | rfl <;> decide
  rw [codeUnits, if_neg h, unitWeight, List.countP_eq_zero]
  intro u hu
  have hu' : 0xD800 ≤ u := by
    simp only [List.mem_cons, List.not_mem_nil, or_false] at hu
    omega
  simp only [isCountedUnit, Bool.or_eq_true, decide_eq_true_eq]
  omega

/-- A code point other than the backslash weighs one at most, and the backslash weighs one. -/
theorem unitWeight_codeUnits_le {quote : Char} (hq : isQuote quote = true) (code : Nat) :
    unitWeight quote (codeUnits code) + backslashes (codeUnits code) ≤
      1 + (if code = 0x5C then 1 else 0) := by
  by_cases h : code < 0x10000
  · have hw : unitWeight quote [code] ≤ 1 := List.countP_le_length
    rw [codeUnits_of_lt h, backslashes, List.count_singleton]
    simp only [beq_iff_eq]
    omega
  · have hb : backslashes (codeUnits code) = 0 := by
      rw [codeUnits, if_neg h, backslashes, List.count_eq_zero]
      simp only [List.mem_cons, List.not_mem_nil, or_false]
      omega
    rw [unitWeight_surrogates hq h, hb]
    omega

theorem backslashes_of_ne {c : Char} (hc : c ≠ '\\') : backslashes (codeUnits c.toNat) = 0 := by
  have hn : c.toNat ≠ 0x5C := fun e => hc (Char.toNat_inj.1 e)
  rw [backslashes, List.count_eq_zero]
  unfold codeUnits
  split <;> simp only [List.mem_cons, List.not_mem_nil, or_false] <;> omega

theorem isCounted_iff {c : Char} : isCounted c = true ↔ c = '\\' ∨ c = '5' := by
  simp [isCounted]

/-- A character that is written as it is weighs the same in the literal and in the value. -/
theorem unitWeight_plain {quote c : Char} (hq : isQuote quote = true) (hc : c ≠ quote)
    (hl : isLineTerminator c = false) : unitWeight quote (codeUnits c.toNat) = weight [c] := by
  by_cases h : c.toNat < 0x10000
  · have key : isCountedUnit quote c.toNat = isCounted c := by
      rw [Bool.eq_iff_iff]
      simp only [isLineTerminator, Bool.or_eq_false_iff, decide_eq_false_iff_not] at hl
      simp only [isCountedUnit, isCounted, Bool.or_eq_true, decide_eq_true_eq]
      have hn : ∀ d : Char, c ≠ d → c.toNat ≠ d.toNat := fun d hd e => hd (Char.toNat_inj.1 e)
      have h₁ : c.toNat ≠ 0xA := hn '\n' hl.1.1.1
      have h₂ : c.toNat ≠ 0xD := hn '\r' hl.1.1.2
      have h₃ : c.toNat ≠ 0x2028 := hn '\u2028' hl.1.2
      have h₄ : c.toNat ≠ 0x2029 := hn '\u2029' hl.2
      have h₅ : c.toNat = 0x5C ↔ c = '\\' := Char.toNat_inj (d := '\\')
      have h₆ : c.toNat = 0x35 ↔ c = '5' := Char.toNat_inj (d := '5')
      simp [h₁, h₂, h₃, h₄, h₅, h₆, hn quote hc]
    rw [codeUnits_of_lt h, unitWeight, weight, List.countP_singleton, List.countP_singleton, key]
  · rw [unitWeight_surrogates hq h, weight, List.countP_singleton, if_neg]
    intro hw
    rcases isCounted_iff.1 hw with rfl | rfl <;> exact h (by decide)

/-! ## Reading does not raise the weight -/

theorem hexValue?_eq_five {c : Char} (h : hexValue? c = some 5) : c = '5' := by
  unfold hexValue? at h
  split at h
  · rename_i hr
    have h₀ : '0'.toNat ≤ c.toNat := hr.1
    simp only [Option.some.injEq] at h
    exact Char.toNat_inj.1 (show c.toNat = 53 from by simp at h₀ h; omega)
  split at h
  · simp at h
  split at h
  · simp at h
  · cases h

theorem hexNumber_append (ds : List Char) (d : Char) :
    hexNumber (ds ++ [d]) = 16 * hexNumber ds + (hexValue? d).getD 0 := by
  rw [hexNumber, List.foldl_append]
  rfl

theorem hexValue?_getD_lt (c : Char) : (hexValue? c).getD 0 < 16 := by
  unfold hexValue?
  split
  · rename_i hr
    have h₁ : c.toNat ≤ '9'.toNat := hr.2
    simp at h₁ ⊢
    omega
  split
  · rename_i hr
    have h₁ : c.toNat ≤ 'f'.toNat := hr.2
    simp at h₁ ⊢
    omega
  split
  · rename_i hr
    have h₁ : c.toNat ≤ 'F'.toNat := hr.2
    simp at h₁ ⊢
    omega
  · decide

theorem exists_last_of_hexNumber_pos {ds : List Char} (h : 0 < hexNumber ds) :
    ∃ init d, ds = init ++ [d] ∧ hexNumber ds = 16 * hexNumber init + (hexValue? d).getD 0 := by
  rcases List.eq_nil_or_concat ds with rfl | ⟨init, d, rfl⟩
  · exact absurd h (by decide)
  · rw [List.concat_eq_append]
    exact ⟨init, d, rfl, hexNumber_append init d⟩

/-- Hexadecimal digits that stand for a backslash have a five among them: the last but one. -/
theorem one_le_weight_of_hexNumber {ds : List Char} (h : hexNumber ds = 0x5C) : 1 ≤ weight ds := by
  have hpos : 0 < hexNumber ds := by omega
  obtain ⟨init, d, rfl, hd⟩ := exists_last_of_hexNumber_pos hpos
  have hlt := hexValue?_getD_lt d
  have hinit : hexNumber init = 5 := by omega
  have hpos' : 0 < hexNumber init := by omega
  obtain ⟨init', d', rfl, hd'⟩ := exists_last_of_hexNumber_pos hpos'
  have hlt' := hexValue?_getD_lt d'
  have hfive : (hexValue? d').getD 0 = 5 := by omega
  have hsome : hexValue? d' = some 5 := by
    cases hv : hexValue? d' with
    | none => rw [hv] at hfive; cases hfive
    | some n => rw [hv] at hfive; exact congrArg some hfive
  obtain rfl := hexValue?_eq_five hsome
  rw [weight_append, weight_append]
  have : weight ['5'] = 1 := rfl
  omega

/-- What a number in hexadecimal digits gives is paid for by its backslash and its digits. -/
theorem weight_le_of_hexNumber {quote : Char} (hq : isQuote quote = true) (ds : List Char) :
    unitWeight quote (codeUnits (hexNumber ds)) + backslashes (codeUnits (hexNumber ds)) ≤
      1 + weight ds := by
  have h := unitWeight_codeUnits_le hq (hexNumber ds)
  split at h
  · have := one_le_weight_of_hexNumber (by assumption)
    omega
  · omega

/-- An escape sequence pays with its backslash and its characters for what it gives. -/
def Pays (quote : Char) (cs : List Char) (us : List Nat) (rest : List Char) : Prop :=
  unitWeight quote us + backslashes us + weight rest ≤ 1 + weight cs

section Pays

variable {quote : Char} (hq : isQuote quote = true) {cs rest : List Char} {us : List Nat}

theorem pays_cons (c : Char) (h : Pays quote cs us rest) : Pays quote (c :: cs) us rest := by
  unfold Pays at *
  rw [weight_cons]
  omega

include hq

theorem pays_of_readDigits {n : Nat} (h : readDigits n cs = some (us, rest)) :
    Pays quote cs us rest := by
  unfold readDigits at h
  split at h
  · cases h
    have hw := weight_le_of_hexNumber hq (cs.take n)
    have hs : weight cs = weight (cs.take n) + weight (cs.drop n) := by
      rw [← weight_append, List.take_append_drop]
    unfold Pays
    omega
  · cases h

theorem pays_of_readBraced (h : readBraced cs = some (us, rest)) : Pays quote cs us rest := by
  unfold readBraced at h
  dsimp only at h
  split at h
  · rename_i rest' hd
    split at h
    · cases h
      have hw := weight_le_of_hexNumber hq (cs.takeWhile isHexDigit)
      have hs : weight cs = weight (cs.takeWhile isHexDigit) + weight ('}' :: rest) := by
        rw [← hd, ← weight_append, List.takeWhile_append_dropWhile]
      rw [weight_cons] at hs
      unfold Pays
      omega
    · cases h
  · cases h

theorem pays_of_readUnicode (h : readUnicode cs = some (us, rest)) : Pays quote cs us rest := by
  unfold readUnicode at h
  split at h
  · exact pays_cons '{' (pays_of_readBraced hq h)
  · exact pays_of_readDigits hq h

/-- A single character gives a backslash only if it is one. -/
theorem pays_escapedChar (c : Char) : Pays quote (c :: cs) (codeUnits (escapedChar c).toNat) cs := by
  have h := unitWeight_codeUnits_le hq (escapedChar c).toNat
  unfold Pays
  rw [weight_cons]
  split at h
  · rename_i he
    have hc : c = '\\' := by
      have he' : escapedChar c = '\\' := Char.toNat_inj.1 he
      unfold escapedChar at he'
      split at he' <;> simp_all
    subst hc
    have : weight ['\\'] = 1 := rfl
    omega
  · omega

theorem pays_of_readEscape (h : readEscape cs = some (us, rest)) : Pays quote cs us rest := by
  cases cs with
  | nil => cases h
  | cons c cs =>
    rw [readEscape] at h
    split at h
    · exact pays_cons c (pays_of_readDigits hq h)
    split at h
    · exact pays_cons c (pays_of_readUnicode hq h)
    split at h
    · split at h
      · cases h
        have h₀ : unitWeight quote [0] + backslashes [0] ≤ 1 := unitWeight_codeUnits_le hq 0
        apply pays_cons c
        unfold Pays
        omega
      · cases h
    split at h
    · cases h
      have hs : weight (afterTerminator c cs) ≤ weight cs :=
        (afterTerminator_suffix c cs).sublist.countP_le
      apply pays_cons c
      show 0 + 0 + weight (afterTerminator c cs) ≤ 1 + weight cs
      omega
    · cases h
      exact pays_escapedChar hq c

/-- **Reading does not raise the weight**, and every backslash that is read costs one. -/
theorem weight_le_of_readBody (h : readBody quote cs = some us) :
    unitWeight quote us + backslashes us ≤ weight cs := by
  fun_induction readBody quote cs generalizing us with
  | case1 => cases h
  | case2 => cases h; exact Nat.zero_le _
  | case3 => cases h
  | case4 => cases h
  | case5 cs escaped cs' he _ ih =>
    -- an escape sequence: its backslash and its characters pay for its units
    obtain ⟨vs, hvs, rfl⟩ := Option.map_eq_some_iff.1 h
    have hpay : Pays quote cs escaped cs' := pays_of_readEscape hq he
    have hrest := ih hvs
    have hb : weight ['\\'] = 1 := rfl
    rw [unitWeight_append, backslashes_append, weight_cons, hb]
    unfold Pays at hpay
    omega
  | case6 => cases h
  | case7 c cs hc hb hl ih =>
    -- a plain character weighs the same on both sides
    obtain ⟨vs, hvs, rfl⟩ := Option.map_eq_some_iff.1 h
    have hplain := unitWeight_plain hq hc (Bool.eq_false_iff.2 hl)
    have hno : backslashes (codeUnits c.toNat) = 0 := backslashes_of_ne hb
    have hrest := ih hvs
    rw [unitWeight_append, backslashes_append, weight_cons, hno]
    omega

end Pays

/-! ## Writing keeps the weight -/

/-- What is written for a character weighs as much as its units. -/
theorem weight_escapeChar {quote : Char} (hq : isQuote quote = true) (c : Char) :
    weight (escapeChar quote c) = unitWeight quote (codeUnits c.toNat) := by
  by_cases hl : isLineTerminator c = true
  · rcases isQuote_iff.1 hq with rfl | rfl <;>
      rcases isLineTerminator_iff.1 hl with rfl | rfl | rfl | rfl <;> rfl
  rw [Bool.not_eq_true] at hl
  by_cases hc : c = quote
  · subst hc
    rcases isQuote_iff.1 hq with rfl | rfl <;> rfl
  · rw [unitWeight_plain hq hc hl, escapeChar_plain hc hl]

theorem weight_flatMap_escapeChar {quote : Char} (hq : isQuote quote = true) (cs : List Char) :
    weight (cs.flatMap (escapeChar quote)) = unitWeight quote (charUnits cs) := by
  induction cs with
  | nil => rfl
  | cons c cs ih =>
    rw [List.flatMap_cons, weight_append, Text.charUnits_cons, unitWeight_append,
      weight_escapeChar hq, ih]

/-! ## The condition -/

theorem not_mem_of_backslashes {cs : List Char} (h : backslashes (charUnits cs) = 0) :
    '\\' ∉ cs := by
  intro hmem
  obtain ⟨init, rest, rfl⟩ := List.append_of_mem hmem
  have hone : backslashes (codeUnits '\\'.toNat) = 1 := rfl
  rw [charUnits, List.flatMap_append, List.flatMap_cons, backslashes_append, backslashes_append,
    hone] at h
  omega

theorem not_mem_of_readBody {quote : Char} (hq : isQuote quote = true) {cs : List Char}
    (h : readBody quote (cs.flatMap (escapeChar quote) ++ [quote]) = some (charUnits cs)) :
    '\\' ∉ cs := by
  have hread := weight_le_of_readBody hq h
  rw [weight_append, weight_flatMap_escapeChar hq, weight_quote hq] at hread
  exact not_mem_of_backslashes (by omega)

theorem readBody_eq_iff {quote : Char} (hq : isQuote quote = true) (cs : List Char) :
    readBody quote (cs.flatMap (escapeChar quote) ++ [quote]) = some (charUnits cs) ↔ '\\' ∉ cs :=
  ⟨not_mem_of_readBody hq, readBody_flatMap_escapeChar hq⟩

/-! ## The literals of the module -/

/-- The characters written for a text, with the quotes. -/
def quoted (quote : Char) (text : String) : List Char :=
  quote :: (text.toList.flatMap (escapeChar quote) ++ [quote])

theorem toList_escape (quote : Char) (text : String) :
    (escape quote text).toList = text.toList.flatMap (escapeChar quote) := String.toList_ofList

theorem toList_doubleQuoted (text : String) : (doubleQuoted text).toList = quoted '\x22' text := by
  rw [doubleQuoted, String.toList_append, String.toList_append, escapeDouble, toList_escape]
  rfl

theorem toList_singleQuoted (text : String) : (singleQuoted text).toList = quoted '\x27' text := by
  rw [singleQuoted, String.toList_append, String.toList_append, escapeSingle, toList_escape]
  rfl

theorem value?_eq_readBody {quote : Char} (hq : isQuote quote = true) {literal : String}
    {cs : List Char} (h : literal.toList = quote :: cs) : value? literal = readBody quote cs := by
  rw [value?, h]
  exact if_pos hq

theorem value?_eq_some_iff {quote : Char} (hq : isQuote quote = true) {literal text : String}
    (h : literal.toList = quoted quote text) :
    value? literal = some (units text) ↔ '\\' ∉ text.toList := by
  rw [value?_eq_readBody hq h]
  exact readBody_eq_iff hq text.toList

theorem eq_of_quoted_eq {quote : Char} (hq : isQuote quote = true) {text other : String}
    (ht : '\\' ∉ text.toList) (ho : '\\' ∉ other.toList)
    (h : quoted quote text = quoted quote other) : text = other := by
  have hread := readBody_flatMap_escapeChar hq ht
  rw [(List.cons.inj h).2, readBody_flatMap_escapeChar hq ho] at hread
  exact Text.units_injective (Option.some.inj hread).symm

/-- No line terminator is written as it is. -/
theorem all_escapeChar {quote : Char} (hq : isQuote quote = true) (c : Char) :
    (escapeChar quote c).all (!isLineTerminator ·) = true := by
  by_cases hl : isLineTerminator c = true
  · rcases isLineTerminator_iff.1 hl with rfl | rfl | rfl | rfl <;> rfl
  rw [Bool.not_eq_true] at hl
  by_cases hc : c = quote
  · subst hc
    rw [escapeChar_quote hq]
    rcases isQuote_iff.1 hq with rfl | rfl <;> rfl
  · rw [escapeChar_plain hc hl, List.all_cons, hl]
    rfl

theorem not_lineTerminator_of_mem_quoted {quote c : Char} (hq : isQuote quote = true)
    {text : String} (h : c ∈ quoted quote text) : isLineTerminator c = false := by
  have hquote : isLineTerminator quote = false := by
    rcases isQuote_iff.1 hq with rfl | rfl <;> rfl
  rw [quoted, List.mem_cons, List.mem_append, List.mem_singleton, List.mem_flatMap] at h
  rcases h with rfl | ⟨d, _, hd⟩ | rfl
  · exact hquote
  · simpa using List.all_eq_true.1 (all_escapeChar hq d) c hd
  · exact hquote

/-- **Literals that read back.** What is written for a text between quotes of either kind has no line
terminator in it, and it is one literal with the text as its value exactly if the text has no
backslash. So of two texts without backslashes that are written alike both are the same. -/
theorem quoted_reads_back_iff (text : String) :
    ((∀ c ∈ (doubleQuoted text).toList, isLineTerminator c = false) ∧
      (∀ c ∈ (singleQuoted text).toList, isLineTerminator c = false)) ∧
    (value? (doubleQuoted text) = some (units text) ↔ '\\' ∉ text.toList) ∧
    (value? (singleQuoted text) = some (units text) ↔ '\\' ∉ text.toList) ∧
    ∀ other : String, '\\' ∉ text.toList → '\\' ∉ other.toList →
      doubleQuoted text = doubleQuoted other ∨ singleQuoted text = singleQuoted other →
        text = other := by
  refine ⟨⟨fun c hc => ?_, fun c hc => ?_⟩, value?_eq_some_iff isQuote_double (toList_doubleQuoted text),
    value?_eq_some_iff isQuote_single (toList_singleQuoted text), ?_⟩
  · rw [toList_doubleQuoted] at hc
    exact not_lineTerminator_of_mem_quoted rfl hc
  · rw [toList_singleQuoted] at hc
    exact not_lineTerminator_of_mem_quoted rfl hc
  · rintro other ht ho (h | h)
    · apply eq_of_quoted_eq isQuote_double ht ho
      rw [← toList_doubleQuoted, h, toList_doubleQuoted]
    · apply eq_of_quoted_eq isQuote_single ht ho
      rw [← toList_singleQuoted, h, toList_singleQuoted]

/-- Quotes of both kinds and a line feed are read back, and no other text is written so. -/
theorem quoted_reads_back_of_quotes :
    '\\' ∉ "it's \"so\"\n".toList ∧
      value? (doubleQuoted "it's \"so\"\n") = some (units "it's \"so\"\n") ∧
      value? (singleQuoted "it's \"so\"\n") = some (units "it's \"so\"\n") ∧
      singleQuoted "it's \"so\"\n" ≠ singleQuoted "it's so\n" := by
  have h : '\\' ∉ "it's \"so\"\n".toList := by decide
  obtain ⟨_, hdouble, hsingle, hinj⟩ := quoted_reads_back_iff "it's \"so\"\n"
  refine ⟨h, hdouble.2 h, hsingle.2 h, fun he => ?_⟩
  have heq := hinj "it's so\n" h (by decide) (Or.inr he)
  exact absurd heq (by decide)

/-- A backslash swallows the closing quote, and one before an `n` reads as a line feed. -/
theorem backslash_not_read_back :
    value? (doubleQuoted "\\") = none ∧ value? (singleQuoted "\\") = none ∧
      value? (doubleQuoted "\\n") = some (units "\n") ∧ doubleQuoted "\\n" = doubleQuoted "\n" := by
  refine ⟨by cbv, by cbv, by cbv, by decide⟩

end Phrasebook.Literal
