import Phrasebook.Proofs.Compilation.Findings
import Phrasebook.Proofs.Text.Separated

/-!
# What a message tells

Names stand in messages as they are, quotes and all. Still the token of a finding can be read off
its message, if its locale, the source locale and its rule are known
(`subject_eq_of_message_eq`): behind the token there is nothing but text that is fixed, or a last
part in which two characters that stand before it do not follow each other again. Of the reasons why
a message is malformed this is true since an unknown category is a word of letters.
-/

namespace Phrasebook

open Text (NeverBefore append_separator_inj neverBefore_of_not_mem)

namespace Plural

/-! ## Reasons -/

theorem isLetter_of_readItem {c : Char} {cs : List Char} {word : String}
    (h : readItem c cs = .error (.unknownCategory word)) :
    ∀ d ∈ word.toList, isLetter d = true := by
  unfold readItem at h
  split at h
  · cases h
  · rename_i hc
    dsimp only at h
    split at h
    · cases h
      rw [String.toList_ofList]
      intro d hd
      rcases List.mem_cons.1 hd with rfl | hd
      · simpa using hc
      · exact List.all_eq_true.1 List.all_takeWhile d hd
    · split at h
      · unfold readText at h
        split at h
        · cases h
        · split at h <;> cases h
      · cases h

theorem isLetter_of_readItems {cs : List Char} {word : String}
    (h : readItems cs = .error (.unknownCategory word)) :
    ∀ d ∈ word.toList, isLetter d = true := by
  fun_induction readItems cs with
  | case1 => cases h
  | case2 => cases h
  | case3 cs c rest hb hc e hi =>
    cases h
    exact isLetter_of_readItem hi
  | case4 cs c rest hb hc branch rest' hi ih =>
    cases hr : readItems rest' with
    | error e =>
      rw [hr] at h
      cases h
      exact ih hr
    | ok branches =>
      rw [hr] at h
      cases h

/-- A category that is not known is a word. -/
theorem isLetter_of_parse {text word : String} (h : parse text = .error (.unknownCategory word)) :
    ∀ d ∈ word.toList, isLetter d = true := by
  unfold parse at h
  split at h
  · cases h
  · split at h
    · rename_i hr
      cases h
      exact isLetter_of_readItems hr
    · cases h
    · cases h

theorem not_mem_keyword (category : Category) : ':' ∉ category.keyword.toList := by
  cases category <;> simp [Category.keyword]

/-- In the reason why a text is malformed no colon stands before a space. -/
theorem neverBefore_message {text : String} {e : Error} (h : parse text = .error e) :
    NeverBefore ':' ' ' e.message.toList := by
  cases e with
  | unknownCategory word =>
    apply neverBefore_of_not_mem
    have hword : ':' ∉ word.toList := fun hmem => absurd (isLetter_of_parse h _ hmem) (by decide)
    show ':' ∉ ("unknown plural category '" ++ word ++ "'").toList
    simp [hword]
  | unexpectedChar c =>
    -- If the character is a colon, a quote follows.
    show NeverBefore ':' ' '
      ("unexpected character '" ++ c.toString ++ "' where a plural category was expected").toList
    rw [String.append_assoc, String.toList_append, String.toList_append]
    have hfirst : NeverBefore ':' ' ' "unexpected character '".toList :=
      neverBefore_of_not_mem (by simp)
    have hlast : NeverBefore ':' ' ' "' where a plural category was expected".toList :=
      neverBefore_of_not_mem (by simp)
    have hchar : NeverBefore ':' ' ' c.toString.toList := by
      rw [Char.toString, String.toList_singleton]
      exact List.isChain_singleton c
    exact hfirst.append (hchar.append hlast (.inr (by simp))) (.inl (by simp))
  | notPlural =>
    apply neverBefore_of_not_mem
    show ':' ∉ ("missing the '" ++ marker ++ "' prefix").toList
    simp [marker]
  | noBranches =>
    apply neverBefore_of_not_mem
    show ':' ∉ "no plural categories found".toList
    simp
  | missingOpenBracket category =>
    apply neverBefore_of_not_mem
    show ':' ∉ ("expected '[' after plural category '" ++ category.keyword ++ "'").toList
    simp [not_mem_keyword]
  | nestedBracket category =>
    apply neverBefore_of_not_mem
    show ':' ∉ ("nested '[' inside the '" ++ category.keyword ++ "' branch").toList
    simp [not_mem_keyword]
  | unterminatedBranch category =>
    apply neverBefore_of_not_mem
    show ':' ∉ ("unterminated '" ++ category.keyword ++ "' branch, missing ']'").toList
    simp [not_mem_keyword]
  | unterminatedBlock =>
    apply neverBefore_of_not_mem
    show ':' ∉ "unterminated plural block, missing '\x7d'".toList
    simp

end Plural

namespace Diagnostic

/-! ## Findings -/

variable {a b : Diagnostic} {source token token' locale : String}

/-- A finding that can be made where `source` is the source locale. -/
def MadeFor (source : String) : Diagnostic → Prop
  | fallback _ _ s _ _ => s = source
  | malformedPlural _ _ s e _ => s = source ∧ ∃ text, Plural.parse text = .error e
  | unknownToken _ _ s _ => s = source
  | nonStringValue .. => True

theorem message_fallback (reason : FallbackReason) (file : Option String) :
    (fallback token locale source reason file).message =
      "'" ++ token ++ "' is " ++ reason.name ++ " in '" ++ locale ++ "', using '" ++ source ++
        "'" := rfl

theorem message_malformedPlural (e : Plural.Error) (p : Option Position) :
    (malformedPlural token locale source e p).message =
      "invalid plural string for '" ++ token ++ "' in '" ++ locale ++ "': " ++ e.message := rfl

theorem message_unknownToken (p : Option Position) :
    (unknownToken token locale source p).message =
      "'" ++ token ++ "' in '" ++ locale ++ "' does not exist in '" ++ source ++ "'" := rfl

theorem message_nonStringValue (kind : Json.Kind) (p : Position) :
    (nonStringValue token locale kind p).message =
      "'" ++ token ++ "' in '" ++ locale ++ "' is a " ++ kind.name ++ ", expected a string" := rfl

theorem token_eq_of_fallback {reason reason' : FallbackReason} {file file' : Option String}
    (h : (fallback token locale source reason file).message =
      (fallback token' locale source reason' file').message) : token = token' := by
  have hreason (r : FallbackReason) : NeverBefore 's' ' ' r.name.toList := by
    cases r <;> unfold NeverBefore <;> decide
  simp only [message_fallback, String.append_left_inj] at h
  have hfirst := (append_separator_inj (by decide) (by decide) (hreason _) (hreason _) h).1
  exact (String.append_right_inj _).1 hfirst

theorem token_eq_of_malformedPlural {e e' : Plural.Error} {p p' : Option Position}
    {text text' : String} (he : Plural.parse text = .error e)
    (he' : Plural.parse text' = .error e')
    (h : (malformedPlural token locale source e p).message =
      (malformedPlural token' locale source e' p').message) : token = token' := by
  rw [message_malformedPlural, message_malformedPlural] at h
  have hfirst := (append_separator_inj (by decide) (by decide) (Plural.neverBefore_message he)
    (Plural.neverBefore_message he') h).1
  simpa only [String.append_left_inj, String.append_right_inj] using hfirst

theorem token_eq_of_unknownToken {p p' : Option Position}
    (h : (unknownToken token locale source p).message =
      (unknownToken token' locale source p').message) : token = token' := by
  simpa only [message_unknownToken, String.append_left_inj, String.append_right_inj] using h

theorem eq_of_nonStringValue {kind kind' : Json.Kind} {p p' : Position}
    (h : (nonStringValue token locale kind p).message =
      (nonStringValue token' locale kind' p').message) : token = token' ∧ kind = kind' := by
  have hkind (k : Json.Kind) : NeverBefore 'a' ' ' k.name.toList := by
    cases k <;> unfold NeverBefore <;> decide
  simp only [message_nonStringValue, String.append_left_inj] at h
  obtain ⟨hfirst, hname⟩ := append_separator_inj (by decide) (by decide) (hkind _) (hkind _) h
  refine ⟨by simpa only [String.append_left_inj, String.append_right_inj] using hfirst, ?_⟩
  cases kind <;> cases kind' <;> first | rfl | (revert hname; decide)

/-- **What a finding is about can be read off its message**, for findings by one rule in one
locale. -/
theorem subject_eq_of_message_eq (ha : a.MadeFor source) (hb : b.MadeFor source)
    (hrule : a.rule = b.rule) (hlocale : a.subject.2 = b.subject.2)
    (h : a.message = b.message) : a.subject = b.subject := by
  refine Prod.ext ?_ hlocale
  cases a <;> cases b <;> cases hrule <;> cases hlocale
  case fallback.fallback.refl.refl =>
    cases ha
    cases hb
    exact token_eq_of_fallback h
  case malformedPlural.malformedPlural.refl.refl =>
    obtain ⟨rfl, _, he⟩ := ha
    obtain ⟨rfl, _, he'⟩ := hb
    exact token_eq_of_malformedPlural he he' h
  case unknownToken.unknownToken.refl.refl =>
    cases ha
    cases hb
    exact token_eq_of_unknownToken h
  case nonStringValue.nonStringValue.refl.refl => exact (eq_of_nonStringValue h).1

end Diagnostic

end Phrasebook
