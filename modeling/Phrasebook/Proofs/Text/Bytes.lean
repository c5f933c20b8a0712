import Phrasebook.Proofs.Text.Units

/-!
# The bytes of a text

Texts are compared character by character, and files are listed by the bytes of their names. In
UTF-8 the two orders are the same (`lt_iff_bytes_lt`): a character of a greater number begins with
a greater byte, or goes on with greater ones after the same beginning.
-/

namespace Phrasebook.Text

/-- The bytes of a text in UTF-8. -/
def bytes (text : String) : List UInt8 := text.toUTF8.data.toList

/-- The bytes of a sequence of characters. -/
def charBytes (cs : List Char) : List UInt8 := cs.flatMap String.utf8EncodeChar

theorem bytes_eq (text : String) : bytes text = charBytes text.toList := by
  have h : text.toUTF8 = (charBytes text.toList).toByteArray :=
    String.utf8Encode_toList.symm
  rw [bytes, h, List.data_toByteArray]

theorem cons_ofNat_lt_iff {m n : Nat} (hm : m < 256) (hn : n < 256) {us vs : List UInt8} :
    UInt8.ofNat m :: us < UInt8.ofNat n :: vs ↔ m < n ∨ m = n ∧ us < vs := by
  rw [List.cons_lt_cons_iff, UInt8.ofNat_lt_iff_lt hm hn, ← UInt8.toNat_inj, UInt8.toNat_ofNat',
    UInt8.toNat_ofNat', Nat.mod_eq_of_lt hm, Nat.mod_eq_of_lt hn]

/-- A smaller character comes first by its bytes, whatever follows. -/
theorem encodeChar_append_lt {c d : Char} (h : c.toNat < d.toNat) (us vs : List UInt8) :
    String.utf8EncodeChar c ++ us < String.utf8EncodeChar d ++ vs := by
  have hd : d.val.toNat < 0x110000 := toNat_lt d
  have hlt : c.val.toNat < d.val.toNat := h
  unfold String.utf8EncodeChar
  dsimp only
  generalize c.val.toNat = m at hlt ⊢
  generalize d.val.toNat = n at hlt hd ⊢
  -- the leading bytes of encodings of different lengths differ; those of one length are the digits
  have hdigits : ∀ k : Nat, k / 4096 = k / 64 / 64 ∧ k / 262144 = k / 64 / 64 / 64 := fun k =>
    ⟨(Nat.div_div_eq_div_mul k 64 64).symm, by rw [Nat.div_div_eq_div_mul, Nat.div_div_eq_div_mul]⟩
  rw [(hdigits m).1, (hdigits m).2, (hdigits n).1, (hdigits n).2]
  repeat' split
  all_goals simp (disch := omega) only [List.cons_append, cons_ofNat_lt_iff]
  all_goals omega

theorem charBytes_lt {cs ds : List Char} (h : cs < ds) : charBytes cs < charBytes ds := by
  induction cs generalizing ds with
  | nil =>
    cases ds with
    | nil => exact absurd h (List.lt_irrefl _)
    | cons d ds =>
      obtain ⟨b, bs, hb⟩ := List.exists_cons_of_ne_nil (String.utf8EncodeChar_ne_nil (c := d))
      rw [charBytes, charBytes, List.flatMap_nil, List.flatMap_cons, hb, List.cons_append]
      exact List.nil_lt_cons _ _
  | cons c cs ih =>
    cases ds with
    | nil => exact absurd h (List.not_lt_nil _)
    | cons d ds =>
      rw [charBytes, charBytes, List.flatMap_cons, List.flatMap_cons]
      rcases List.cons_lt_cons_iff.1 h with hcd | ⟨rfl, hrest⟩
      · exact encodeChar_append_lt hcd _ _
      · exact List.append_left_lt (ih hrest)

/-- **Texts are ordered as their bytes are.** -/
theorem lt_iff_bytes_lt {s t : String} : s < t ↔ bytes s < bytes t := by
  rw [bytes_eq, bytes_eq, String.lt_iff]
  constructor
  · exact charBytes_lt
  · intro h
    refine Decidable.byContradiction fun hn => ?_
    rcases List.le_iff_lt_or_eq.1 (List.not_lt.1 hn) with hlt | heq
    · exact List.lt_asymm h (charBytes_lt hlt)
    · rw [heq] at h
      exact List.lt_irrefl _ h

end Phrasebook.Text
