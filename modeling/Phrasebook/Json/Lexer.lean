import Phrasebook.Json.Token

/-!
# The tokens of a text

Reading a token leaves no more of the text than there was after its first character, so a text is
taken apart in as many steps as it has characters at most.
-/

namespace Phrasebook.Json

theorem length_le_of_readPieces {cs rest : List Char} {ps : List Piece}
    (h : readPieces cs = some (ps, rest)) : rest.length ≤ cs.length := by
  fun_induction readPieces cs generalizing ps rest with
  | case1 => cases h
  | case2 cs => cases h; simp
  | case3 a b c d cs ih =>
    simp only [bind, Option.bind_eq_some_iff, pure, Option.some.injEq, Prod.mk.injEq,
      Prod.exists] at h
    obtain ⟨_, _, _, _, h, _, rfl⟩ := h
    have := ih h
    simp only [List.length_cons]
    omega
  | case4 c cs _ ih =>
    simp only [bind, Option.bind_eq_some_iff, pure, Option.some.injEq, Prod.mk.injEq,
      Prod.exists] at h
    obtain ⟨_, _, _, _, h, _, rfl⟩ := h
    have := ih h
    simp only [List.length_cons]
    omega
  | case5 => cases h
  | case6 c cs _ _ _ _ ih =>
    simp only [bind, Option.bind_eq_some_iff, pure, Option.some.injEq, Prod.mk.injEq,
      Prod.exists] at h
    obtain ⟨_, _, h, _, rfl⟩ := h
    have := ih h
    simp only [List.length_cons]
    omega

theorem length_lt_of_readDigits {cs ds rest : List Char} (h : readDigits cs = some (ds, rest)) :
    rest.length < cs.length := by
  unfold readDigits at h
  split at h
  · cases h
  · rename_i d ds' ht
    cases h
    have := congrArg List.length (List.takeWhile_append_dropWhile (p := Char.isDigit) (l := cs))
    rw [ht, List.length_append, List.length_cons] at this
    omega

theorem length_lt_of_readWhole {cs ds rest : List Char} (h : readWhole cs = some (ds, rest)) :
    rest.length < cs.length := by
  unfold readWhole at h
  split at h
  · cases h
  · exact length_lt_of_readDigits h

theorem length_le_of_readFraction {cs ds rest : List Char}
    (h : readFraction cs = some (ds, rest)) : rest.length ≤ cs.length := by
  unfold readFraction at h
  split at h
  · have := length_lt_of_readDigits h
    simp only [List.length_cons]
    omega
  · cases h; simp

theorem length_le_of_readExponent {cs rest : List Char} {n : Int}
    (h : readExponent cs = some (n, rest)) : rest.length ≤ cs.length := by
  unfold readExponent at h
  split at h
  · rename_i c cs'
    split at h
    · dsimp only at h
      simp only [Option.map_eq_some_iff, Prod.exists, Prod.mk.injEq] at h
      obtain ⟨_, _, h, _, rfl⟩ := h
      have hr := length_lt_of_readDigits h
      split at hr <;> simp_all only [List.length_cons] <;> omega
    · cases h; simp
  · cases h; simp

theorem length_lt_of_readNumeral {cs rest : List Char} {n : Numeral}
    (h : readNumeral cs = some (n, rest)) : rest.length < cs.length := by
  unfold readNumeral at h
  simp only [bind, Option.bind_eq_some_iff, pure, Option.some.injEq, Prod.mk.injEq,
    Prod.exists] at h
  obtain ⟨_, _, hw, _, _, hf, _, _, he, _, rfl⟩ := h
  have h₁ := length_lt_of_readWhole hw
  have h₂ := length_le_of_readFraction hf
  have h₃ := length_le_of_readExponent he
  split at h₁ <;> simp_all only [List.length_cons] <;> omega

theorem length_le_of_readName {τ : Type} {name : String} {token t : Token τ} {cs rest : List Char}
    (h : readName name token cs = some (t, rest)) : rest.length ≤ cs.length := by
  simp only [readName, Option.map_eq_some_iff, Prod.mk.injEq] at h
  obtain ⟨_, h, _, rfl⟩ := h
  simp [Text.after?_eq_some_iff.1 h]

theorem length_le_of_readToken {c : Char} {cs rest : List Char} {t : Token (Option String)}
    (h : readToken c cs = some (t, rest)) : rest.length ≤ cs.length := by
  unfold readToken at h
  split at h
  any_goals exact length_le_of_readName h
  any_goals (cases h; exact Nat.le_refl _)
  · simp only [Option.map_eq_some_iff, Prod.exists, Prod.mk.injEq] at h
    obtain ⟨_, _, h, _, rfl⟩ := h
    exact length_le_of_readPieces h
  · simp only [Option.map_eq_some_iff, Prod.exists, Prod.mk.injEq] at h
    obtain ⟨_, _, h, _, rfl⟩ := h
    have := length_lt_of_readNumeral h
    simp only [List.length_cons] at this
    omega

/-- The tokens of a text, if there is nothing else in it but blanks. -/
def tokens (cs : List Char) : Option (List (Token (Option String))) :=
  match _hs : cs.dropWhile isSpace with
  | [] => some []
  | c :: cs' =>
    match _ht : readToken c cs' with
    | none => none
    | some (t, rest) => (tokens rest).map (t :: ·)
  termination_by cs.length
  decreasing_by
    have h₁ := (List.dropWhile_suffix (l := cs) isSpace).length_le
    have h₂ := length_le_of_readToken _ht
    rw [_hs, List.length_cons] at h₁
    omega

end Phrasebook.Json
