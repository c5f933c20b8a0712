/-!
# Code units

A string of the generated program is a sequence of code units of sixteen bits. A character of the
basic plane is one unit, every other character is a pair of surrogates, and since no character is a
surrogate the units of a text determine it (`units_injective`).
-/

namespace Phrasebook.Text

/-- The code units of a code point. -/
def codeUnits (code : Nat) : List Nat :=
  if code < 0x10000 then [code]
  else [0xD800 + (code - 0x10000) / 0x400, 0xDC00 + (code - 0x10000) % 0x400]

theorem codeUnits_of_lt {code : Nat} (h : code < 0x10000) : codeUnits code = [code] := if_pos h

/-- The code units of a sequence of characters. -/
def charUnits (cs : List Char) : List Nat := cs.flatMap fun c => codeUnits c.toNat

/-- The code units of a text. -/
def units (text : String) : List Nat := charUnits text.toList

@[simp] theorem charUnits_nil : charUnits [] = [] := rfl

@[simp] theorem charUnits_cons (c : Char) (cs : List Char) :
    charUnits (c :: cs) = codeUnits c.toNat ++ charUnits cs := rfl

theorem toNat_not_surrogate (c : Char) : c.toNat < 0xD800 ∨ 0xDFFF < c.toNat := by
  have h : c.val.toNat.isValidChar := c.valid
  rcases h with h | ⟨h, _⟩
  · exact Or.inl h
  · exact Or.inr h

theorem toNat_lt (c : Char) : c.toNat < 0x110000 := by
  have h : c.val.toNat.isValidChar := c.valid
  rcases h with h | ⟨_, h⟩
  · exact Nat.lt_trans h (by decide)
  · exact h

/-- No character's units are a beginning of another's. -/
theorem codeUnits_append_inj {c d : Char} {us vs : List Nat}
    (h : codeUnits c.toNat ++ us = codeUnits d.toNat ++ vs) : c = d ∧ us = vs := by
  have hc := toNat_not_surrogate c
  have hd := toNat_not_surrogate d
  have hc' := toNat_lt c
  have hd' := toNat_lt d
  have key : c.toNat = d.toNat ∧ us = vs := by
    unfold codeUnits at h
    split at h <;> split at h <;>
      simp only [List.cons_append, List.nil_append, List.cons.injEq] at h
    · exact h
    · omega
    · omega
    · obtain ⟨high, low, rest⟩ := h
      exact ⟨by omega, rest⟩
  exact ⟨Char.toNat_inj.1 key.1, key.2⟩

theorem charUnits_injective {cs ds : List Char} (h : charUnits cs = charUnits ds) : cs = ds := by
  induction cs generalizing ds with
  | nil =>
    cases ds with
    | nil => rfl
    | cons d ds =>
      rw [charUnits_nil, charUnits_cons] at h
      unfold codeUnits at h
      split at h <;> cases h
  | cons c cs ih =>
    cases ds with
    | nil =>
      rw [charUnits_nil, charUnits_cons] at h
      unfold codeUnits at h
      split at h <;> cases h
    | cons d ds =>
      obtain ⟨rfl, hrest⟩ := codeUnits_append_inj h
      rw [ih hrest]

theorem units_injective {s t : String} (h : units s = units t) : s = t :=
  String.toList_injective (charUnits_injective h)

end Phrasebook.Text
