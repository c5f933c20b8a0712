import Mathlib.Algebra.GroupWithZero.Nat
import Mathlib.Data.List.DropRight
import Phrasebook.Json.Range
import Phrasebook.Json.Token

/-!
# Numeric literals

What a numeric literal names where it is the name of a property, by the grammar of ECMAScript: the
number that it stands for, rounded to a double, is written out again, so that another property than
the one spelled may be meant.
-/

namespace Phrasebook.Literal

open Json (hexValue? nearestDouble doubleLimit)

/-! ## The text of a number -/

/-- Of the decimals that round to `x`, with `zeros` zeros at their end at most, one with as few
digits before the zeros as can be, the nearest of these. -/
def shortestDecimal (x : Nat) : Nat → Nat
  | 0 => x
  | zeros + 1 =>
    let unit := 10 ^ (zeros + 1)
    let below := x / unit * unit
    let above := below + unit
    if nearestDouble below = x ∧ (nearestDouble above = x → x - below ≤ above - x) then below
    else if nearestDouble above = x then above
    else shortestDecimal x zeros

/-- Digits with an exponent: the first of them, a point, the others without the zeros at the end,
and the power of ten. -/
def exponential (ds : List Char) : List Char :=
  let fraction := ds.tail.rdropWhile (· = '0')
  ds.take 1 ++ (if fraction = [] then [] else '.' :: fraction) ++ "e+".toList ++
    Nat.toDigits 10 (ds.length - 1)

/-- The text of the double that is nearest to a natural number. -/
def numberText (n : Nat) : List Char :=
  let x := nearestDouble n
  if doubleLimit ≤ n then "Infinity".toList
  else if x < 10 ^ 21 then Nat.toDigits 10 (shortestDecimal x 20)
  else exponential (Nat.toDigits 10 (shortestDecimal x 308))

/-! ## Reading a literal -/

def isDigitOf (base : Nat) (c : Char) : Bool := (hexValue? c).any (· < base)

/-- The number that digits stand for. An underscore may stand between two digits. -/
def digits? (base : Nat) (cs : List Char) : Option Nat :=
  if (cs.splitOn '_').all fun ds => ds ≠ [] && ds.all (isDigitOf base) then
    some ((cs.filter (· ≠ '_')).foldl (fun n d => base * n + (hexValue? d).getD 0) 0)
  else none

/-- A decimal number without an exponent. It starts with a zero only if this is all of it: a module
is strict code. -/
def whole? (cs : List Char) : Option Nat :=
  if cs.head? = some '0' then (if cs = ['0'] then some 0 else none) else digits? 10 cs

def isExponentMark (c : Char) : Bool := c = 'e' || c = 'E'

/-- A decimal number, with an exponent or without. -/
def decimal? (cs : List Char) : Option Nat :=
  match cs.dropWhile (!isExponentMark ·) with
  | [] => whole? cs
  | _ :: exponent => do
    return (← whole? (cs.takeWhile (!isExponentMark ·))) * 10 ^ (← digits? 10 exponent)

/-- The base that the letter after a zero at the start is for. -/
def base? : Char → Option Nat
  | 'b' | 'B' => some 2
  | 'o' | 'O' => some 8
  | 'x' | 'X' => some 16
  | _ => none

/-- A number in the base that its second character says, or else what `decimal` reads. -/
def numeral? (decimal : List Char → Option Nat) : List Char → Option Nat
  | '0' :: c :: cs =>
    match base? c with
    | some base => digits? base cs
    | none => decimal ('0' :: c :: cs)
  | cs => decimal cs

/-- The key that a numeric literal names, for a literal that is a word: there is no point in it and
no sign in an exponent. An `n` at the end makes it an integer of any size. -/
def numericKey? (word : List Char) : Option (List Char) :=
  if word.getLast? = some 'n' then (numeral? whole? word.dropLast).map (Nat.toDigits 10)
  else (numeral? decimal? word).map numberText

/-! ## Digits are read as they are written -/

theorem hexValue?_of_isDigit {c : Char} (h : c.isDigit = true) :
    hexValue? c = some (c.toNat - '0'.toNat) := by
  rw [Char.isDigit, Bool.and_eq_true, decide_eq_true_iff, decide_eq_true_iff] at h
  exact if_pos h

theorem isDigitOf_ten {c : Char} (h : c.isDigit = true) : isDigitOf 10 c = true := by
  have h9 : c.toNat ≤ '9'.toNat := by
    rw [Char.isDigit, Bool.and_eq_true, decide_eq_true_iff, decide_eq_true_iff] at h
    exact h.2
  rw [isDigitOf, hexValue?_of_isDigit h, Option.any_some, decide_eq_true_iff]
  show c.toNat - 48 < 10
  have : '9'.toNat = 57 := rfl
  omega

section ToDigits

variable {n : Nat}

theorem isDigit_of_mem {c : Char} (h : c ∈ Nat.toDigits 10 n) : c.isDigit = true :=
  Nat.isDigit_of_mem_toDigits (by decide) (by decide) h

theorem head?_toDigits (h : n ≠ 0) : (Nat.toDigits 10 n).head? ≠ some '0' := by
  induction n using Nat.strongRecOn with
  | ind n ih =>
    by_cases hlt : n < 10
    · have hdigit : ∀ m < 10, m ≠ 0 → Nat.digitChar m ≠ '0' := by decide
      rw [Nat.toDigits_of_lt_base hlt]
      exact fun heq => hdigit n hlt h (Option.some.inj heq)
    · rw [Nat.toDigits_of_base_le (by decide) (Nat.le_of_not_lt hlt),
        List.head?_append_of_ne_nil _ Nat.toDigits_ne_nil]
      exact ih (n / 10) (by omega) (by omega)

theorem digits?_toDigits (n : Nat) : digits? 10 (Nat.toDigits 10 n) = some n := by
  have hunder : ∀ c ∈ Nat.toDigits 10 n, c ≠ '_' := fun c hc heq =>
    Nat.underscore_not_in_toDigits (heq ▸ hc)
  have hsplit : (Nat.toDigits 10 n).splitOn '_' = [Nat.toDigits 10 n] := by
    rw [List.splitOn_eq_splitOnP]
    exact List.splitOnP_eq_singleton fun c hc => beq_eq_false_iff_ne.2 (hunder c hc)
  have hfilter : (Nat.toDigits 10 n).filter (· ≠ '_') = Nat.toDigits 10 n :=
    List.filter_eq_self.2 fun c hc => decide_eq_true (hunder c hc)
  have hdigits : (Nat.toDigits 10 n).all (isDigitOf 10) = true :=
    List.all_eq_true.2 fun c hc => isDigitOf_ten (isDigit_of_mem hc)
  have hvalue : (Nat.toDigits 10 n).foldl (fun n d => 10 * n + (hexValue? d).getD 0) 0 = n := by
    rw [List.foldl_ext _ (fun n d => 10 * n + (d.toNat - '0'.toNat)) 0 fun m c hc => by
      rw [hexValue?_of_isDigit (isDigit_of_mem hc), Option.getD_some]]
    exact Nat.ofDigitChars_ten_toDigits
  rw [digits?, hsplit, hfilter, hvalue, List.all_cons, List.all_nil, hdigits,
    decide_eq_true Nat.toDigits_ne_nil]
  rfl

theorem whole?_toDigits (n : Nat) : whole? (Nat.toDigits 10 n) = some n := by
  by_cases h : n = 0
  · subst h
    rfl
  · rw [whole?, if_neg (head?_toDigits h)]
    exact digits?_toDigits n

theorem decimal?_toDigits (n : Nat) : decimal? (Nat.toDigits 10 n) = some n := by
  have hnone : (Nat.toDigits 10 n).dropWhile (!isExponentMark ·) = [] := by
    rw [List.dropWhile_eq_nil_iff]
    intro c hc
    have hdigit := isDigit_of_mem hc
    cases hmark : isExponentMark c with
    | false => rfl
    | true =>
      simp only [isExponentMark, Bool.or_eq_true, decide_eq_true_eq] at hmark
      rcases hmark with rfl | rfl <;> exact absurd hdigit (by decide)
  rw [decimal?, hnone]
  exact whole?_toDigits n

theorem numeral?_toDigits {decimal : List Char → Option Nat}
    (h : decimal (Nat.toDigits 10 n) = some n) :
    numeral? decimal (Nat.toDigits 10 n) = some n := by
  by_cases hn : n = 0
  · subst hn
    exact h
  · have hhead := head?_toDigits hn
    unfold numeral?
    split
    · rename_i hzero
      rw [hzero] at hhead
      exact absurd rfl hhead
    · exact h

end ToDigits

/-! ## Numbers that are written as they are -/

theorem nearestDouble_of_lt {n : Nat} (h : n < 2 ^ 53) : nearestDouble n = n := by
  have hlog : n.log2 - 52 = 0 := by
    by_cases hn : n = 0
    · subst hn
      rfl
    · have := (Nat.log2_lt hn).2 h
      omega
  simp [nearestDouble, hlog, Nat.mod_one]

theorem le_nearestDouble {n : Nat} (h : 2 ^ 53 ≤ n) : 2 ^ 53 ≤ nearestDouble n := by
  have hn : n ≠ 0 := by omega
  have hlog : 53 ≤ n.log2 := (Nat.le_log2 hn).2 h
  have hpos : 0 < 2 ^ (n.log2 - 52) := Nat.two_pow_pos _
  have hquotient : 2 ^ 52 ≤ n / 2 ^ (n.log2 - 52) := by
    rw [Nat.le_div_iff_mul_le hpos, ← Nat.pow_add, Nat.add_sub_cancel' (by omega)]
    exact Nat.log2_self_le hn
  have hunit : 2 ^ 1 ≤ 2 ^ (n.log2 - 52) := Nat.pow_le_pow_right (by decide) (by omega)
  have hdown : 2 ^ 53 ≤ n / 2 ^ (n.log2 - 52) * 2 ^ (n.log2 - 52) := Nat.mul_le_mul hquotient hunit
  -- rounding up can only make it more
  refine Nat.le_trans hdown (Nat.mul_le_mul_right _ ?_)
  split
  · exact Nat.le_succ _
  · exact Nat.le_refl _

theorem nearestDouble_eq_iff {n x : Nat} (h : x < 2 ^ 53) : nearestDouble n = x ↔ n = x := by
  constructor
  · intro hx
    by_cases hn : n < 2 ^ 53
    · rwa [nearestDouble_of_lt hn] at hx
    · have := le_nearestDouble (Nat.le_of_not_lt hn)
      omega
  · rintro rfl
    exact nearestDouble_of_lt h

/-- A number that no other rounds to has no shorter decimal. -/
theorem shortestDecimal_of_lt {x : Nat} (h : x < 2 ^ 53) (zeros : Nat) :
    shortestDecimal x zeros = x := by
  induction zeros with
  | zero => rfl
  | succ zeros ih =>
    simp only [shortestDecimal, nearestDouble_eq_iff h]
    split
    · rename_i hbelow
      exact hbelow.1
    · split
      · rename_i habove
        exact habove
      · exact ih

/-- Below `2 ^ 53` a number is written with all its digits. -/
theorem numberText_of_lt {n : Nat} (h : n < 2 ^ 53) : numberText n = Nat.toDigits 10 n := by
  have hlimit : ¬ doubleLimit ≤ n := by
    have : 2 ^ 53 ≤ doubleLimit := by decide +kernel
    omega
  have hshort : n < 10 ^ 21 := Nat.lt_trans h (by decide)
  simp only [numberText, nearestDouble_of_lt h, if_neg hlimit, if_pos hshort,
    shortestDecimal_of_lt h]

/-! ## Words that denote themselves -/

/-- The decimal digits of a number that is written with all its digits. -/
def IsCanonical (word : List Char) : Prop :=
  ∃ n, word = Nat.toDigits 10 n ∧ numberText n = word

theorem isCanonical_toDigits {n : Nat} (h : n < 2 ^ 53) : IsCanonical (Nat.toDigits 10 n) :=
  ⟨n, rfl, numberText_of_lt h⟩

theorem numberText_cases (n : Nat) :
    (∃ m, numberText n = Nat.toDigits 10 m) ∨ numberText n = "Infinity".toList ∨
      '+' ∈ numberText n := by
  unfold numberText
  dsimp only
  split
  · exact .inr (.inl rfl)
  · split
    · exact .inl ⟨_, rfl⟩
    · refine .inr (.inr ?_)
      rw [exponential, List.mem_append, List.mem_append]
      exact .inl (.inr (by decide))

theorem getLast?_toDigits (n : Nat) : (Nat.toDigits 10 n).getLast? ≠ some 'n' := fun h =>
  absurd (isDigit_of_mem (List.mem_of_getLast? h)) (by decide)

/-- A number with its own digits is the only literal whose key is the literal itself. -/
theorem numericKey?_eq_self_iff {word : List Char} (hstart : ∀ c ∈ word.head?, c.isDigit = true)
    (hplus : '+' ∉ word) : numericKey? word = some word ↔ IsCanonical word := by
  constructor
  · intro h
    unfold numericKey? at h
    split at h
    · rename_i hlast
      obtain ⟨n, -, hn⟩ := Option.map_eq_some_iff.1 h
      rw [← hn] at hlast
      exact absurd hlast (getLast?_toDigits n)
    · obtain ⟨n, hread, htext⟩ := Option.map_eq_some_iff.1 h
      rcases numberText_cases n with ⟨m, hm⟩ | hinfinity | hexponent
      · -- what is written are digits, so these are what was read
        obtain rfl : word = Nat.toDigits 10 m := htext.symm.trans hm
        rw [numeral?_toDigits (decimal?_toDigits m)] at hread
        obtain rfl := Option.some.inj hread
        exact ⟨m, rfl, htext⟩
      · rw [← htext, hinfinity] at hstart
        exact absurd (hstart 'I' rfl) (by decide)
      · exact absurd (htext ▸ hexponent) hplus
  · rintro ⟨n, rfl, htext⟩
    rw [numericKey?, if_neg (getLast?_toDigits n), numeral?_toDigits (decimal?_toDigits n),
      Option.map_some, htext]

end Phrasebook.Literal
