import Mathlib.Data.String.Basic
import Phrasebook.Proofs.Text.Bytes
import Phrasebook.Text.Beginning

/-!
# Byte offsets

A text can be cut at an offset in bytes only where one character ends and the next one begins, and
not behind its end: any other slice is refused (`sliceFrom`). Where a slice begins, what stands
before it in the text has as many bytes as the offset says (`sliceFrom_eq_ok_iff`). The bytes that
are line feeds are the characters that are (`count_charBytes`).
-/

namespace Phrasebook.Text

open String (utf8Len utf8Len_append utf8Len_cons)

variable {text rest : String} {cs pre pre' xs ys pattern : List Char} {offset : Nat}

/-! ## Slices -/

/-- A slice that would begin inside of a character or behind the end of the text. -/
structure BadSlice where
  offset : Nat
  deriving DecidableEq

/-- What stands in a text from a byte offset on, which has to lie at a boundary of characters. -/
def sliceFrom (text : String) (offset : Nat) : Except BadSlice String :=
  if h : (⟨offset⟩ : String.Pos.Raw).IsValid text then
    .ok (text.sliceFrom (text.pos ⟨offset⟩ h)).copy
  else .error ⟨offset⟩

theorem utf8Len_toList (text : String) : utf8Len text.toList = text.utf8ByteSize := by
  rw [← String.utf8ByteSize_ofList, String.ofList_toList]

theorem isValid_iff_exists_toList : (⟨offset⟩ : String.Pos.Raw).IsValid text ↔
    ∃ pre suf, text.toList = pre ++ suf ∧ utf8Len pre = offset := by
  rw [String.Pos.Raw.isValid_iff_exists_append]
  constructor
  · rintro ⟨s, t, rfl, hs⟩
    refine ⟨s.toList, t.toList, String.toList_append, ?_⟩
    rw [utf8Len_toList]
    exact (congrArg String.Pos.Raw.byteIdx hs).symm
  · rintro ⟨pre, suf, htext, rfl⟩
    refine ⟨.ofList pre, .ofList suf, ?_, ?_⟩
    · rw [← String.ofList_append, ← htext, String.ofList_toList]
    · rw [← String.utf8ByteSize_ofList]
      rfl

theorem sliceFrom_eq_ok_iff : sliceFrom text offset = .ok rest ↔
    ∃ pre, text.toList = pre ++ rest.toList ∧ utf8Len pre = offset := by
  unfold sliceFrom
  split
  · rename_i hvalid
    have hsplits := (text.pos ⟨offset⟩ hvalid).splits
    constructor
    · intro h
      obtain rfl := Except.ok.inj h
      refine ⟨(text.sliceTo (text.pos ⟨offset⟩ hvalid)).copy.toList, ?_, ?_⟩
      · rw [← String.toList_append, ← hsplits.eq_append]
      · rw [utf8Len_toList]
        exact (congrArg String.Pos.Raw.byteIdx hsplits.offset_eq_rawEndPos).symm
    · rintro ⟨pre, htext, hoffset⟩
      -- A text has one position at an offset only, and what follows it is determined by it.
      have hrest : (text.pos ⟨offset⟩ hvalid).Splits (.ofList pre) rest := by
        refine ⟨?_, ?_⟩
        · rw [← String.toList_inj, String.toList_append, String.toList_ofList, htext]
        · rw [String.offset_pos, ← hoffset, ← String.utf8ByteSize_ofList]
          rfl
      rw [hsplits.eq_right hrest]
  · rename_i hinvalid
    refine ⟨nofun, fun ⟨pre, htext, hoffset⟩ => ?_⟩
    exact absurd (isValid_iff_exists_toList.2 ⟨pre, _, htext, hoffset⟩) hinvalid

/-- A slice that begins behind some characters of the text. -/
theorem sliceFrom_of_append (h : text.toList = pre ++ xs) :
    sliceFrom text (utf8Len pre) = .ok (.ofList xs) :=
  sliceFrom_eq_ok_iff.2 ⟨pre, by rw [String.toList_ofList, h], rfl⟩

theorem le_of_sliceFrom (h : sliceFrom text offset = .ok rest) : offset ≤ text.utf8ByteSize := by
  obtain ⟨pre, htext, rfl⟩ := sliceFrom_eq_ok_iff.1 h
  rw [← utf8Len_toList, htext, utf8Len_append]
  exact Nat.le_add_right _ _

/-- Of two beginnings of a text the one with fewer bytes is a beginning of the other. -/
theorem prefix_of_utf8Len_le (h : pre ++ xs = pre' ++ ys) (hle : utf8Len pre ≤ utf8Len pre') :
    pre <+: pre' := by
  rcases List.append_eq_append_iff.1 h with ⟨more, rfl, -⟩ | ⟨more, rfl, -⟩
  · exact List.prefix_append _ _
  · rw [utf8Len_append] at hle
    have hmore : more = [] := String.utf8Len_eq_zero.1 (by omega)
    exact ⟨[], by rw [hmore, List.append_nil, List.append_nil]⟩

/-! ## Where a pattern stands -/

/-- The byte offset at which a pattern stands in a text for the first time. -/
def offsetOf? (pattern : List Char) : List Char → Option Nat
  | [] => if pattern = [] then some 0 else none
  | c :: cs =>
    match after? pattern (c :: cs) with
    | some _ => some 0
    | none => (offsetOf? pattern cs).map (c.utf8Size + ·)

/-- The pattern stands in the text between two parts of it, and not earlier. -/
structure StandsFirst (pattern cs pre rest : List Char) : Prop where
  text_eq : cs = pre ++ pattern ++ rest
  first : ∀ pre' rest', cs = pre' ++ pattern ++ rest' → pre <+: pre'

theorem StandsFirst.cons {c : Char} (h : StandsFirst pattern cs pre xs)
    (hnot : ∀ rest, c :: cs ≠ pattern ++ rest) : StandsFirst pattern (c :: cs) (c :: pre) xs where
  text_eq := congrArg (c :: ·) h.text_eq
  first := by
    intro pre' rest' heq
    cases pre' with
    | nil => exact absurd heq (hnot rest')
    | cons d pre' =>
      obtain ⟨rfl, htail⟩ := List.cons.inj heq
      exact List.cons_prefix_cons.2 ⟨rfl, h.first pre' rest' htail⟩

theorem offsetOf?_cases (pattern cs : List Char) :
    (offsetOf? pattern cs = none ∧ ∀ pre rest, cs ≠ pre ++ pattern ++ rest) ∨
      ∃ pre rest, offsetOf? pattern cs = some (utf8Len pre) ∧ StandsFirst pattern cs pre rest := by
  induction cs with
  | nil =>
    by_cases hpattern : pattern = []
    · subst hpattern
      exact .inr ⟨[], [], rfl, rfl, fun _ _ _ => List.nil_prefix⟩
    · refine .inl ⟨if_neg hpattern, fun pre rest h => hpattern ?_⟩
      exact (List.append_eq_nil_iff.1 (List.append_eq_nil_iff.1 h.symm).1).2
  | cons c cs ih =>
    unfold offsetOf?
    cases hhere : after? pattern (c :: cs) with
    | some rest =>
      exact .inr ⟨[], rest, rfl, after?_eq_some_iff.1 hhere, fun _ _ _ => List.nil_prefix⟩
    | none =>
      have hnot : ∀ rest, c :: cs ≠ pattern ++ rest := by
        intro rest h
        rw [after?_eq_some_iff.2 h] at hhere
        cases hhere
      rcases ih with ⟨hnone, hno⟩ | ⟨pre, rest, hsome, hfirst⟩
      · refine .inl ⟨by rw [hnone]; rfl, fun pre rest h => ?_⟩
        cases pre with
        | nil => exact hnot rest h
        | cons d pre => exact hno pre rest (List.cons.inj h).2
      · refine .inr ⟨c :: pre, rest, ?_, hfirst.cons hnot⟩
        rw [hsome, utf8Len_cons, Nat.add_comm]
        rfl

/-! ## Line feeds -/

/-- The number of line feeds among the bytes of a text before an offset. -/
def lineFeedsBefore (text : String) (offset : Nat) : Nat := ((bytes text).take offset).count 10

theorem length_charBytes (cs : List Char) : (charBytes cs).length = utf8Len cs := by
  induction cs with
  | nil => rfl
  | cons c cs ih =>
    rw [charBytes, List.flatMap_cons, List.length_append, ← charBytes, ih,
      String.length_utf8EncodeChar, utf8Len_cons, Nat.add_comm]

/-- No byte of another character is a line feed. -/
theorem lineFeed_not_mem_encodeChar {c : Char} (h : c ≠ '\n') :
    10 ∉ String.utf8EncodeChar c := by
  have hc : c.val.toNat ≠ 10 := fun heq => h (Char.toNat_inj.1 heq)
  have hlt : c.val.toNat < 0x110000 := toNat_lt c
  unfold String.utf8EncodeChar
  dsimp only
  generalize c.val.toNat = n at hc hlt ⊢
  have hne : ∀ m, m < 256 → m ≠ 10 → (10 : UInt8) ≠ UInt8.ofNat m := by
    intro m hm hm' heq
    have hnat := congrArg UInt8.toNat heq
    rw [UInt8.toNat_ofNat', Nat.mod_eq_of_lt hm] at hnat
    exact hm' hnat.symm
  split_ifs <;> simp only [List.mem_cons, List.not_mem_nil, or_false, not_or]
  · exact hne n (by omega) hc
  · exact ⟨hne _ (by omega) (by omega), hne _ (by omega) (by omega)⟩
  · exact ⟨hne _ (by omega) (by omega), hne _ (by omega) (by omega), hne _ (by omega) (by omega)⟩
  · exact ⟨hne _ (by omega) (by omega), hne _ (by omega) (by omega), hne _ (by omega) (by omega),
      hne _ (by omega) (by omega)⟩

theorem count_charBytes (cs : List Char) : (charBytes cs).count 10 = cs.count '\n' := by
  induction cs with
  | nil => rfl
  | cons c cs ih =>
    rw [charBytes, List.flatMap_cons, List.count_append, ← charBytes, ih]
    by_cases hc : c = '\n'
    · subst hc
      rw [List.count_cons_self, Nat.add_comm]
      rfl
    · rw [List.count_eq_zero_of_not_mem (lineFeed_not_mem_encodeChar hc),
        List.count_cons_of_ne hc, Nat.zero_add]

/-- Before the end of some characters there are as many line feeds as among them. -/
theorem lineFeedsBefore_of_append (h : text.toList = pre ++ xs) :
    lineFeedsBefore text (utf8Len pre) = pre.count '\n' := by
  rw [lineFeedsBefore, bytes_eq, h, charBytes, List.flatMap_append, ← charBytes, ← charBytes,
    ← length_charBytes, List.take_left', count_charBytes]
  rfl

end Phrasebook.Text
