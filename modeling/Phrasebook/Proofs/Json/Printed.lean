import Mathlib.Data.List.Basic
import Mathlib.Tactic.IntervalCases
import Phrasebook.Json.Printer
import Phrasebook.Json.Reader

/-!
# Reading what is written

An object of texts is written character by character (`toList_renderTexts`), and is read back member
by member, whatever characters its texts are made of (`parseLenient?_renderTexts`).
-/

namespace Phrasebook.Json

/-- The characters of a text between quotes. -/
def quoteChars (text : String) : List Char := '\x22' :: text.toList.flatMap escapeChar ++ ['\x22']

theorem toList_quote (text : String) : (quote text).toList = quoteChars text :=
  String.toList_ofList

/-- The characters of a member of an object of texts. -/
def memberChars (m : String × String) : List Char :=
  [' ', ' '] ++ quoteChars m.1 ++ [':', ' '] ++ quoteChars m.2

theorem toList_renderTexts (members : List (String × String)) :
    (renderTexts members).toList =
      ['\x7b', '\n'] ++ [',', '\n'].intercalate (members.map memberChars) ++ ['\n', '\x7d'] := by
  have hmember : ∀ m : String × String,
      ("  " ++ quote m.1 ++ ": " ++ quote m.2).toList = memberChars m := by
    intro m
    simp only [String.toList_append, toList_quote]
    rfl
  rw [renderTexts, String.toList_append, String.toList_append, String.toList_intercalate,
    List.map_map]
  exact congrArg (fun ms => ['\x7b', '\n'] ++ [',', '\n'].intercalate ms ++ ['\n', '\x7d'])
    (List.map_congr_left fun m _ => hmember m)

/-! ## Texts -/

/-- The piece stands for the character: as it is, or by the code of a control. -/
def Piece.IsOf (p : Piece) (c : Char) : Prop :=
  p = .char c ∨ p = .unit c.toNat ∧ c.toNat < 0x20

theorem joinPieces?_cons {p : Piece} {c : Char} (h : p.IsOf c) (ps : List Piece) :
    joinPieces? (p :: ps) = (joinPieces? ps).map (c :: ·) := by
  obtain rfl | ⟨rfl, hc⟩ := h
  · rw [joinPieces?]
  · have hhigh : isHighSurrogate c.toNat = false := by
      rw [isHighSurrogate, decide_eq_false (by omega), Bool.false_and]
    have hlow : isLowSurrogate c.toNat = false := by
      rw [isLowSurrogate, decide_eq_false (by omega), Bool.false_and]
    -- The code of a control is never the first half of a pair.
    match ps with
    | [] => simp [joinPieces?, hhigh, hlow, Char.ofNat_toNat]
    | .char d :: ps => simp [joinPieces?, hhigh, hlow, Char.ofNat_toNat]
    | .unit m :: ps => rw [joinPieces?]; simp [hhigh, hlow, Char.ofNat_toNat]

theorem codeUnit?_control {n : Nat} (h : n < 0x20) :
    codeUnit? '0' '0' (Nat.digitChar (n / 16)) (Nat.digitChar (n % 16)) = some n := by
  interval_cases n <;> rfl

/-- The characters that a character is written with are read as one piece. -/
theorem exists_readPieces_escapeChar (c : Char) (cs : List Char) :
    ∃ p : Piece, p.IsOf c ∧ readPieces (escapeChar c ++ cs) =
      (readPieces cs).map fun (ps, rest) => (p :: ps, rest) := by
  unfold escapeChar
  split
  -- the last case is that of all characters without a short escape sequence
  case h_8 hquote hbackslash _ _ _ _ _ =>
    split
    · rename_i hc
      refine ⟨.unit c.toNat, .inr ⟨rfl, hc⟩, ?_⟩
      simp only [escapeControl, List.cons_append, List.nil_append]
      rw [readPieces, codeUnit?_control hc]
      cases readPieces cs <;> rfl
    · rename_i hc
      refine ⟨.char c, .inl rfl, ?_⟩
      rw [List.singleton_append, readPieces, if_neg hc]
      · cases readPieces cs <;> rfl
      · exact hquote
      · exact fun _ _ _ _ _ hc _ => hbackslash hc
      · exact fun _ _ hc _ => hbackslash hc
  all_goals
    refine ⟨_, .inl rfl, ?_⟩
    simp only [List.cons_append, List.nil_append]
    rw [readPieces]
    · simp only [escaped?]
      cases readPieces cs <;> rfl
    · simp

theorem exists_readPieces_quoted (text rest : List Char) :
    ∃ ps, readPieces (text.flatMap escapeChar ++ '\x22' :: rest) = some (ps, rest) ∧
      joinPieces? ps = some text := by
  induction text with
  | nil => exact ⟨[], by rw [List.flatMap_nil, List.nil_append, readPieces], rfl⟩
  | cons c text ih =>
    obtain ⟨ps, hread, hjoin⟩ := ih
    obtain ⟨p, hp, hc⟩ := exists_readPieces_escapeChar c (text.flatMap escapeChar ++ '\x22' :: rest)
    refine ⟨p :: ps, ?_, ?_⟩
    · rw [List.flatMap_cons, List.append_assoc, hc, hread, Option.map_some]
    · rw [joinPieces?_cons hp, hjoin, Option.map_some]

theorem readToken_quoted (text : String) (rest : List Char) :
    readToken '\x22' (text.toList.flatMap escapeChar ++ '\x22' :: rest) =
      some (.text (some text), rest) := by
  obtain ⟨ps, hread, hjoin⟩ := exists_readPieces_quoted text.toList rest
  rw [readToken, hread, Option.map_some]
  dsimp only
  rw [hjoin, Option.map_some, String.ofList_toList]

/-! ## Tokens -/

variable {c : Char} {cs rest : List Char} {t : Token (Option String)}

theorem tokens_space (hc : isSpace c = true) : tokens (c :: cs) = tokens cs := by
  rw [tokens, List.dropWhile_cons_of_pos hc]
  conv_rhs => rw [tokens]

theorem tokens_cons (hc : isSpace c = false) (h : readToken c cs = some (t, rest)) :
    tokens (c :: cs) = (tokens rest).map (t :: ·) := by
  rw [tokens, List.dropWhile_cons_of_neg (Bool.eq_false_iff.1 hc)]
  dsimp only
  rw [h]

theorem tokens_quoteChars (text : String) (rest : List Char) :
    tokens (quoteChars text ++ rest) = (tokens rest).map (.text (some text) :: ·) := by
  rw [quoteChars, List.cons_append, List.cons_append, List.append_assoc, List.singleton_append]
  exact tokens_cons rfl (readToken_quoted text rest)

/-- The tokens of a member of an object of texts. -/
def memberTokens (m : String × String) : List (Token (Option String)) :=
  [.text (some m.1), .colon, .text (some m.2)]

theorem tokens_memberChars (m : String × String) (rest : List Char) :
    tokens (memberChars m ++ rest) = (tokens rest).map (memberTokens m ++ ·) := by
  simp only [memberChars, List.append_assoc, List.cons_append, List.nil_append]
  rw [tokens_space rfl, tokens_space rfl, tokens_quoteChars, tokens_cons rfl rfl, tokens_space rfl,
    tokens_quoteChars, Option.map_map, Option.map_map]
  rfl

theorem tokens_intercalate (ms : List (String × String)) (rest : List Char) :
    tokens ([',', '\n'].intercalate (ms.map memberChars) ++ rest) =
      (tokens rest).map ([.comma].intercalate (ms.map memberTokens) ++ ·) := by
  match ms with
  | [] => simp
  | [m] => simpa using tokens_memberChars m rest
  | m :: m' :: ms =>
    have ih := tokens_intercalate (m' :: ms) rest
    simp only [List.map_cons, List.intercalate_cons_cons, List.append_assoc, List.cons_append,
      List.nil_append] at ih ⊢
    rw [tokens_memberChars, tokens_cons rfl rfl, tokens_space rfl, ih, Option.map_map,
      Option.map_map]
    rfl

/-- The tokens of an object of texts. -/
theorem tokens_renderTexts (ms : List (String × String)) :
    tokens (renderTexts ms).toList =
      some (.openObject :: [.comma].intercalate (ms.map memberTokens) ++ [.closeObject]) := by
  have hend : tokens ['\n', '\x7d'] = some [.closeObject] := by
    rw [tokens_space rfl, tokens_cons rfl rfl, tokens]
    rfl
  rw [toList_renderTexts, List.append_assoc, List.cons_append, List.cons_append, List.nil_append,
    tokens_cons rfl rfl, tokens_space rfl, tokens_intercalate, hend]
  rfl

/-! ## Members -/

/-- The members of an object of texts, as they are read. -/
def readMembers (ms : List (String × String)) : List (Option String × Value (Option String)) :=
  ms.map fun m => (some m.1, .string (some m.2))

/-- Members of an object that is open are put behind those that it has. -/
theorem foldlM_memberTokens (members : List (Option String × Value (Option String)))
    (m : String × String) (ms : List (String × String)) (ts : List (Token (Option String))) :
    ([.comma].intercalate ((m :: ms).map memberTokens) ++ ts).foldlM (State.step? .keepAll)
        (.key [] members) =
      ts.foldlM (State.step? .keepAll) (.afterMember [] (members ++ readMembers (m :: ms))) := by
  induction ms generalizing m members with
  | nil => rfl
  | cons m' ms ih =>
    have hm := ih (members ++ readMembers [m]) m'
    rw [List.append_assoc] at hm
    simp only [List.map_cons, List.intercalate_cons_cons, List.append_assoc] at hm ⊢
    exact hm

/-- An object of texts is read back. -/
theorem parseLenient?_renderTexts (ms : List (String × String)) :
    parseLenient? (renderTexts ms) = some (.object (readMembers ms)) := by
  rw [parseLenient?, tokens_renderTexts]
  cases ms with
  | nil => rfl
  | cons m ms =>
    have hread := foldlM_memberTokens [] m ms [.closeObject]
    -- The first member of an object is read as any other one.
    obtain ⟨ts, hts⟩ : ∃ ts, [Token.comma].intercalate ((m :: ms).map memberTokens) =
        .text (some m.1) :: ts := by
      cases ms <;> exact ⟨_, rfl⟩
    rw [hts] at hread ⊢
    have hfirst : (Token.openObject :: (Token.text (some m.1) :: ts ++ [Token.closeObject])).foldlM
          (State.step? .keepAll) (.value []) =
        (Token.text (some m.1) :: ts ++ [Token.closeObject]).foldlM
          (State.step? .keepAll) (.key [] []) := rfl
    rw [Option.bind_eq_bind, Option.bind_some, List.cons_append]
    rw [ofTokens?, hfirst, hread]
    rfl

end Phrasebook.Json
