import Phrasebook.Proofs.Plural.Branches
import Phrasebook.Proofs.Traversal
import Phrasebook.Token

/-!
# Messages of the source locale

A source message is read once (`Message.ofText`), and what it is read as decides the kind of its
token (`Message.kind`). A token fails to be read exactly if its message does (`ofEntry_eq`).
-/

namespace Phrasebook

namespace Message

/-- What a source message is read as: plural if it begins like a plural block. -/
def ofText (text : String) : Except Plural.Error Message :=
  if Plural.isPlural text then (Plural.parse text).map plural else .ok (simple text)

/-- A message of another locale, read in the form of the source message. -/
def read : Message → String → Except Plural.Error Message
  | simple _, text => .ok (simple text)
  | plural _, text => (Plural.parse text).map plural

/-- The kind of a token with the message as its source. -/
def kind : Message → TokenKind
  | simple text => .ofVariables (Variable.ofNames (Placeholder.names text))
  | plural branches =>
    .pluralWithArgs (Variable.ofNames (Token.pluralNames ((branches.head?.map (·.text)).getD "")))

/-- A message that has a wording: a text, or branches with a text each. -/
def HasWording : Message → Prop
  | simple _ => True
  | plural branches => branches ≠ [] ∧ ∀ b ∈ branches, b.text ≠ ""

theorem ofText_simple {text : String} (h : Plural.isPlural text = false) :
    ofText text = .ok (simple text) := by
  rw [ofText, h]
  rfl

theorem ofText_plural {text : String} (h : Plural.isPlural text = true) :
    ofText text = (Plural.parse text).map plural := if_pos h

/-- What a source message has been read as, it is read as in its own form. -/
theorem read_of_ofText {text : String} {m : Message} (h : ofText text = .ok m) :
    m.read text = .ok m := by
  cases hp : Plural.isPlural text with
  | false =>
    rw [ofText_simple hp] at h
    cases h
    rfl
  | true =>
    rw [ofText_plural hp] at h
    obtain ⟨branches, hb, rfl⟩ := Traversal.exists_ok_of_map h
    show (Plural.parse text).map plural = _
    rw [hb]
    rfl

theorem hasWording_of_read {m own : Message} {text : String} (h : m.read text = .ok own) :
    own.HasWording := by
  cases m with
  | simple s => cases h; exact trivial
  | plural bs =>
    obtain ⟨branches, hb, rfl⟩ := Traversal.exists_ok_of_map h
    exact ⟨Plural.ne_nil_of_parse hb, Plural.text_ne_of_parse hb⟩

theorem hasWording_of_ofText {text : String} {m : Message} (h : ofText text = .ok m) :
    m.HasWording := hasWording_of_read (read_of_ofText h)

theorem bucket_kind_simple (text : String) : (simple text).kind.bucket ≠ .pluralWithArgs := by
  show (TokenKind.ofVariables _).bucket ≠ _
  cases Variable.ofNames (Placeholder.names text) <;> exact nofun

/-- Only a plural message can fail to be read in another locale. -/
theorem read_eq_error {m : Message} {text : String} {e : Plural.Error}
    (h : m.read text = .error e) :
    m.kind.bucket = .pluralWithArgs ∧ Plural.parse text = .error e := by
  cases m with
  | simple s => cases h
  | plural branches => exact ⟨rfl, Traversal.eq_error_of_map h⟩

end Message

namespace Variable

theorem ofNames_ne_nil {names : List String} (h : names ≠ []) : ofNames names ≠ [] := by
  obtain ⟨name, names, rfl⟩ := List.exists_cons_of_ne_nil h
  rw [ofNames, List.map_cons, List.eraseDups_cons]
  exact List.cons_ne_nil _ _

end Variable

namespace TokenKind

theorem args_ne_nil_of_ofVariables {vs : List Variable} (h : ofVariables vs ≠ simpleNoArgs) :
    (ofVariables vs).args ≠ [] := by
  cases vs with
  | nil => exact absurd rfl h
  | cons v vs => exact List.cons_ne_nil v vs

end TokenKind

namespace Token

theorem countName_mem_pluralNames (text : String) : countName ∈ pluralNames text := by
  unfold pluralNames
  dsimp only
  split
  · assumption
  · exact List.mem_append_right _ List.mem_cons_self

/-- Reading a token is reading its message. -/
theorem ofEntry_eq (name : String) (entry : Entry) :
    ofEntry name entry =
      match Message.ofText entry.value with
      | .error reason => .error (.malformedSource name reason entry.position)
      | .ok m => .ok ⟨name, m.kind, m⟩ := by
  unfold ofEntry
  cases hp : Plural.isPlural entry.value with
  | false =>
    rw [Message.ofText_simple hp]
    rfl
  | true =>
    rw [Message.ofText_plural hp, if_pos rfl]
    cases Plural.parse entry.value <;> rfl

end Token

/-- Only a token without arguments has none. -/
theorem Message.args_kind_ne_nil {m : Message} (h : m.kind ≠ .simpleNoArgs) :
    m.kind.args ≠ [] := by
  cases m with
  | simple text => exact TokenKind.args_ne_nil_of_ofVariables h
  | plural branches =>
    exact Variable.ofNames_ne_nil (List.ne_nil_of_mem (Token.countName_mem_pluralNames _))

end Phrasebook
