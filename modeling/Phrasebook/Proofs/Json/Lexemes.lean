import Phrasebook.Json.Lexer

/-!
# What is read of a text

Reading a token leaves an end of the text (`suffix_of_readToken`). A text token stands between
quotes, and there is no line feed in it (`exists_written_of_readToken`).
-/

namespace Phrasebook.Json

/-- What a text is read from: some characters, without a line feed, and the closing quote. -/
theorem exists_raw_of_readPieces {cs rest : List Char} {ps : List Piece}
    (h : readPieces cs = some (ps, rest)) : ∃ raw, cs = raw ++ '\x22' :: rest ∧ '\n' ∉ raw := by
  fun_induction readPieces cs generalizing ps rest with
  | case1 => cases h
  | case2 cs => cases h; exact ⟨[], rfl, List.not_mem_nil⟩
  | case3 a b c d cs ih =>
    simp only [bind, Option.bind_eq_some_iff, pure, Option.some.injEq, Prod.mk.injEq,
      Prod.exists] at h
    obtain ⟨unit, hunit, _, _, h, _, rfl⟩ := h
    obtain ⟨raw, rfl, hraw⟩ := ih h
    refine ⟨'\\' :: 'u' :: a :: b :: c :: d :: raw, rfl, ?_⟩
    -- A line feed is no hexadecimal digit.
    have hdigits : '\n' ≠ a ∧ '\n' ≠ b ∧ '\n' ≠ c ∧ '\n' ≠ d := by
      refine ⟨?_, ?_, ?_, ?_⟩ <;> rintro rfl <;>
        simp [codeUnit?, show hexValue? '\n' = none from rfl] at hunit
    simp [hdigits, hraw]
  | case4 c cs _ ih =>
    simp only [bind, Option.bind_eq_some_iff, pure, Option.some.injEq, Prod.mk.injEq,
      Prod.exists] at h
    obtain ⟨_, hescape, _, _, h, _, rfl⟩ := h
    obtain ⟨raw, rfl, hraw⟩ := ih h
    refine ⟨'\\' :: c :: raw, rfl, ?_⟩
    have hc : '\n' ≠ c := by
      rintro rfl
      cases hescape
    simp [hc, hraw]
  | case5 => cases h
  | case6 c cs _ _ _ hcontrol ih =>
    simp only [bind, Option.bind_eq_some_iff, pure, Option.some.injEq, Prod.mk.injEq,
      Prod.exists] at h
    obtain ⟨_, _, h, _, rfl⟩ := h
    obtain ⟨raw, rfl, hraw⟩ := ih h
    refine ⟨c :: raw, rfl, ?_⟩
    have hc : '\n' ≠ c := by
      rintro rfl
      exact hcontrol (by decide)
    simp [hc, hraw]

theorem suffix_of_readPieces {cs rest : List Char} {ps : List Piece}
    (h : readPieces cs = some (ps, rest)) : rest <:+ cs := by
  obtain ⟨raw, rfl, -⟩ := exists_raw_of_readPieces h
  exact (List.suffix_cons _ _).trans (List.suffix_append _ _)

theorem suffix_of_readDigits {cs ds rest : List Char} (h : readDigits cs = some (ds, rest)) :
    rest <:+ cs := by
  unfold readDigits at h
  split at h
  · cases h
  · cases h
    exact List.dropWhile_suffix _

theorem suffix_of_readWhole {cs ds rest : List Char} (h : readWhole cs = some (ds, rest)) :
    rest <:+ cs := by
  unfold readWhole at h
  split at h
  · cases h
  · exact suffix_of_readDigits h

theorem suffix_of_readFraction {cs ds rest : List Char} (h : readFraction cs = some (ds, rest)) :
    rest <:+ cs := by
  unfold readFraction at h
  split at h
  · exact (suffix_of_readDigits h).trans (List.suffix_cons _ _)
  · cases h
    exact List.suffix_rfl

theorem suffix_of_readExponent {cs rest : List Char} {n : Int}
    (h : readExponent cs = some (n, rest)) : rest <:+ cs := by
  unfold readExponent at h
  split at h
  · rename_i c cs'
    split at h
    · dsimp only at h
      simp only [Option.map_eq_some_iff, Prod.exists, Prod.mk.injEq] at h
      obtain ⟨_, _, h, _, rfl⟩ := h
      refine ((suffix_of_readDigits h).trans ?_).trans (List.suffix_cons c cs')
      split
      · exact List.suffix_cons _ _
      · exact List.suffix_cons _ _
      · exact List.suffix_rfl
    · cases h
      exact List.suffix_rfl
  · cases h
    exact List.suffix_rfl

theorem suffix_of_readNumeral {c : Char} {cs rest : List Char} {n : Numeral}
    (h : readNumeral (c :: cs) = some (n, rest)) : rest <:+ cs := by
  have hlt := length_lt_of_readNumeral h
  unfold readNumeral at h
  simp only [bind, Option.bind_eq_some_iff, pure, Option.some.injEq, Prod.mk.injEq,
    Prod.exists] at h
  obtain ⟨_, _, hw, _, _, hf, _, rest', he, -, hrest⟩ := h
  subst hrest
  have hsuffix := (suffix_of_readExponent he).trans
    ((suffix_of_readFraction hf).trans (suffix_of_readWhole hw))
  have hall : rest' <:+ c :: cs := by
    refine hsuffix.trans ?_
    split
    · rename_i hsign
      rw [hsign]
      exact List.suffix_cons _ _
    · exact List.suffix_rfl
  rcases List.suffix_cons_iff.1 hall with rfl | hall
  · exact absurd hlt (Nat.lt_irrefl _)
  · exact hall

theorem suffix_of_readName {τ : Type} {name : String} {token t : Token τ} {cs rest : List Char}
    (h : readName name token cs = some (t, rest)) : rest <:+ cs := by
  simp only [readName, Option.map_eq_some_iff, Prod.mk.injEq] at h
  obtain ⟨_, h, _, rfl⟩ := h
  rw [Text.after?_eq_some_iff.1 h]
  exact List.suffix_append _ _

/-- Reading a token leaves an end of the text. -/
theorem suffix_of_readToken {c : Char} {cs rest : List Char} {t : Token (Option String)}
    (h : readToken c cs = some (t, rest)) : rest <:+ cs := by
  unfold readToken at h
  split at h
  any_goals exact suffix_of_readName h
  any_goals (cases h; exact List.suffix_rfl)
  · simp only [Option.map_eq_some_iff, Prod.exists, Prod.mk.injEq] at h
    obtain ⟨_, _, h, _, rfl⟩ := h
    exact suffix_of_readPieces h
  · simp only [Option.map_eq_some_iff, Prod.exists, Prod.mk.injEq] at h
    obtain ⟨_, _, h, _, rfl⟩ := h
    exact suffix_of_readNumeral h

/-- A text token stands between quotes, without a line feed. -/
theorem exists_written_of_readToken {c : Char} {cs rest : List Char} {s : Option String}
    (h : readToken c cs = some (.text s, rest)) :
    ∃ raw, c :: cs = '\x22' :: raw ++ '\x22' :: rest ∧ '\n' ∉ raw := by
  unfold readToken at h
  split at h
  any_goals (simp [readName] at h; done)
  · simp only [Option.map_eq_some_iff, Prod.exists, Prod.mk.injEq] at h
    obtain ⟨_, _, h, _, rfl⟩ := h
    obtain ⟨raw, rfl, hraw⟩ := exists_raw_of_readPieces h
    exact ⟨raw, rfl, hraw⟩

theorem colon_of_readToken {c : Char} {cs rest : List Char}
    (h : readToken c cs = some (.colon, rest)) : c = ':' := by
  unfold readToken at h
  split at h
  any_goals (simp [readName] at h; done)
  · rfl

end Phrasebook.Json
