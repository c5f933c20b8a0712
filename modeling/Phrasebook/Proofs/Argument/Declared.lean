import Phrasebook.Proofs.Firsts
import Phrasebook.Proofs.Plural.Layout
import Phrasebook.Proofs.Token

/-!
# The arguments that a token declares

A token declares the arguments that its source message uses: those of a simple message are its
placeholders, and those of a plural message the placeholders of the first branch that is written
with a text, and the count (`Token.declares_of_ofEntry`). Each argument is declared once, in the
order in which the names first come, and the names alone give the declaration back.
-/

namespace Phrasebook

namespace Variable

/-- The names of some arguments, in their order. -/
def namesOf (vs : List Variable) : List String := vs.map (·.name)

theorem ofName_injective : Function.Injective ofName := by
  intro name other h
  exact congrArg Variable.name h

theorem ofNames_eq (names : List String) : ofNames names = names.eraseDups.map ofName :=
  eraseDups_map ofName_injective names

theorem namesOf_ofNames (names : List String) : namesOf (ofNames names) = names.eraseDups := by
  rw [namesOf, ofNames_eq, List.map_map]
  exact List.map_id _

theorem mem_ofNames_iff {names : List String} {v : Variable} :
    v ∈ ofNames names ↔ ∃ name ∈ names, ofName name = v := by
  rw [ofNames, List.mem_eraseDups, List.mem_map]

theorem firsts_ofNames (names : List String) : Firsts names (namesOf (ofNames names)) := by
  rw [namesOf_ofNames]
  exact firsts_eraseDups names

/-- The names of arguments that were made from names give the same arguments. -/
theorem ofNames_namesOf_ofNames (names : List String) :
    ofNames (namesOf (ofNames names)) = ofNames names := by
  have hnodup : names.eraseDups.Nodup := (firsts_eraseDups names).nodup
  rw [namesOf_ofNames, ofNames_eq, ofNames_eq, eraseDups_eq_self hnodup]

theorem ofNames_eq_nil_iff {names : List String} : ofNames names = [] ↔ names = [] := by
  constructor
  · intro h
    by_contra hne
    exact ofNames_ne_nil hne h
  · rintro rfl
    rfl

end Variable

namespace TokenKind

theorem args_ofVariables (vs : List Variable) : (ofVariables vs).args = vs := by
  cases vs <;> rfl

theorem bucket_ofVariables_iff {vs : List Variable} :
    (ofVariables vs).bucket = .simpleNoArgs ↔ vs = [] := by
  cases vs with
  | nil => exact ⟨fun _ => rfl, fun _ => rfl⟩
  | cons v vs => exact ⟨nofun, nofun⟩

end TokenKind

namespace Token

open Variable (namesOf)

/-- The count is among the names anyway, or comes behind them. -/
theorem firsts_pluralNames (text : String) :
    Firsts (Placeholder.names text ++ [countName])
      (namesOf (Variable.ofNames (pluralNames text))) := by
  have hnames : (pluralNames text).eraseDups =
      (Placeholder.names text ++ [countName]).eraseDups := by
    unfold pluralNames
    dsimp only
    split
    · rename_i hcount
      rw [eraseDups_concat, if_pos (List.mem_eraseDups.2 hcount)]
    · rfl
  rw [Variable.namesOf_ofNames, hnames]
  exact firsts_eraseDups _

/-- The arguments of a plural message whose first branch mentions some placeholders: these and the
count, which is a number, keeps its place among them if it is mentioned, and otherwise comes
last. -/
structure DeclaresCount (mentioned : List String) (args : List Variable) : Prop where
  mem_iff : ∀ name, name ∈ namesOf args ↔ name ∈ mentioned ∨ name = "count"
  number : ⟨"count", .number⟩ ∈ args
  once : (namesOf args).count "count" = 1
  among : "count" ∈ mentioned → Firsts mentioned (namesOf args)
  last : "count" ∉ mentioned →
    ∃ others, Firsts mentioned others ∧ namesOf args = others ++ ["count"]

theorem declaresCount_pluralNames (text : String) :
    DeclaresCount (Placeholder.names text) (Variable.ofNames (pluralNames text)) := by
  have hfirsts := firsts_pluralNames text
  have hmem : ∀ name, name ∈ namesOf (Variable.ofNames (pluralNames text)) ↔
      name ∈ Placeholder.names text ∨ name = "count" := by
    intro name
    rw [hfirsts.mem_iff, List.mem_append, List.mem_singleton]
    rfl
  -- there is only one way to collect the placeholders and then the count
  have heq := hfirsts.unique ((firsts_eraseDups (Placeholder.names text)).concat "count")
  constructor
  case mem_iff => exact hmem
  case number =>
    exact Variable.mem_ofNames_iff.2 ⟨countName, countName_mem_pluralNames text, rfl⟩
  case once => exact List.count_eq_one_of_mem hfirsts.nodup ((hmem _).2 (Or.inr rfl))
  case among =>
    intro hin
    rw [heq, if_pos (List.mem_eraseDups.2 hin)]
    exact firsts_eraseDups _
  case last =>
    intro hout
    rw [if_neg fun hin => hout (List.mem_eraseDups.1 hin)] at heq
    exact ⟨_, firsts_eraseDups _, heq⟩

end Token

namespace Message

/-- The arguments of a message are made from names. -/
theorem exists_args_kind_eq (m : Message) : ∃ names, m.kind.args = Variable.ofNames names := by
  cases m with
  | simple text => exact ⟨_, TokenKind.args_ofVariables _⟩
  | plural branches => exact ⟨_, rfl⟩

theorem exists_ofText_of_ofEntry {name : String} {entry : Entry} {token : Token}
    (h : Token.ofEntry name entry = .ok token) :
    ∃ m, ofText entry.value = .ok m ∧ token = ⟨name, m.kind, m⟩ := by
  rw [Token.ofEntry_eq] at h
  cases hm : ofText entry.value with
  | error reason => rw [hm] at h; cases h
  | ok m =>
    rw [hm] at h
    cases h
    exact ⟨m, rfl, rfl⟩

/-- What has been read from a text without the marker is the text. -/
theorem eq_simple_of_ofText {text : String} {m : Message} (h : ofText text = .ok m)
    (hmarker : ¬ Plural.marker.toList <+: text.toList) : m = simple text := by
  rw [← Plural.isPlural_iff, Bool.not_eq_true] at hmarker
  rw [ofText_simple hmarker] at h
  cases h
  rfl

/-- What has been read from a text with the marker has as its first branch the first item that is
written with a text. -/
theorem exists_first_of_ofText {text : String} {m : Message} (h : ofText text = .ok m)
    (hmarker : Plural.marker.toList <+: text.toList) :
    ∃ (l : Plural.Layout) (first : Plural.Item) (branches : List Plural.Branch),
      l.text = text ∧ l.items.find? (·.body ≠ []) = some first ∧
      m = plural branches ∧ branches.head? = some first.branch := by
  rw [ofText_plural (Plural.isPlural_iff.2 hmarker)] at h
  obtain ⟨branches, hbranches, rfl⟩ := Traversal.exists_ok_of_map h
  obtain ⟨l, hl, rfl⟩ := Plural.exists_layout_of_parse hbranches
  have hsome : l.branches.head?.isSome := by
    rw [List.isSome_head?]
    exact Plural.ne_nil_of_parse hbranches
  rw [l.head?_branches, Option.isSome_map] at hsome
  obtain ⟨first, hfirst⟩ := Option.isSome_iff_exists.1 hsome
  refine ⟨l, first, _, hl, hfirst, rfl, ?_⟩
  rw [l.head?_branches, hfirst]
  rfl

end Message

namespace Token

open Variable (namesOf)

/-- **The arguments that a token declares.** No two have the same name, each has the type that goes
with its name, and they are found again from their names. A message that does not begin like a
plural block declares its placeholders, in the order in which they first come, and it has no
arguments only if it has none of these. A plural message declares the placeholders of the first item
that is written with a text, and the count. -/
theorem declares_of_ofEntry {name : String} {entry : Entry} {token : Token}
    (h : ofEntry name entry = .ok token) :
    (namesOf token.kind.args).Nodup ∧ (∀ v ∈ token.kind.args, v.type = .infer v.name) ∧
    Variable.ofNames (namesOf token.kind.args) = token.kind.args ∧
    (¬ Plural.marker.toList <+: entry.value.toList →
      Firsts (Placeholder.names entry.value) (namesOf token.kind.args) ∧
      token.kind.bucket ≠ .pluralWithArgs ∧
      (token.kind.bucket = .simpleNoArgs ↔ Placeholder.names entry.value = [])) ∧
    (Plural.marker.toList <+: entry.value.toList →
      token.kind.bucket = .pluralWithArgs ∧ ∃ (l : Plural.Layout) (first : Plural.Item),
        l.text = entry.value ∧ l.items.find? (·.body ≠ []) = some first ∧
        DeclaresCount (Placeholder.names (String.ofList first.body)) token.kind.args) := by
  obtain ⟨m, hm, rfl⟩ := Message.exists_ofText_of_ofEntry h
  obtain ⟨names, hargs⟩ := m.exists_args_kind_eq
  dsimp only
  refine ⟨?_, ?_, ?_, fun hmarker => ?_, fun hmarker => ?_⟩
  · rw [hargs]
    exact (Variable.firsts_ofNames names).nodup
  · intro v hv
    rw [hargs] at hv
    obtain ⟨name, -, rfl⟩ := Variable.mem_ofNames_iff.1 hv
    rfl
  · rw [hargs, Variable.ofNames_namesOf_ofNames]
  · obtain rfl := Message.eq_simple_of_ofText hm hmarker
    refine ⟨?_, ?_, ?_⟩
    · rw [Message.kind, TokenKind.args_ofVariables]
      exact Variable.firsts_ofNames _
    · exact Message.bucket_kind_simple _
    · rw [Message.kind, TokenKind.bucket_ofVariables_iff, Variable.ofNames_eq_nil_iff]
  · obtain ⟨l, first, branches, hl, hfirst, rfl, hhead⟩ :=
      Message.exists_first_of_ofText hm hmarker
    refine ⟨rfl, l, first, hl, hfirst, ?_⟩
    rw [Message.kind, hhead]
    exact declaresCount_pluralNames _

/-- A simple message with a name that comes twice, and a plural message whose first item has no
text and whose second one mentions the count before another name. -/
theorem declares_hello_items :
    (∃ token, ofEntry "hello" { value := "\x7by\x7d \x7bx\x7d \x7by\x7d" } = .ok token ∧
      namesOf token.kind.args = ["y", "x"] ∧ token.kind.bucket = .simpleWithArgs ∧
      Firsts ["y", "x", "y"] (namesOf token.kind.args)) ∧
    ∃ token, ofEntry "items"
        { value := "\x7bcount, plural, zero[] one [\x7bb\x7d \x7bcount\x7d \x7ba\x7d]\x7d" } =
          .ok token ∧
      namesOf token.kind.args = ["b", "count", "a"] ∧
      ∃ (l : Plural.Layout) (first : Plural.Item), l.items.find? (·.body ≠ []) = some first ∧
        DeclaresCount (Placeholder.names (String.ofList first.body)) token.kind.args := by
  have hhello : ofEntry "hello" { value := "\x7by\x7d \x7bx\x7d \x7by\x7d" } =
      .ok ⟨"hello", .simpleWithArgs [⟨"y", .string⟩, ⟨"x", .string⟩],
        .simple "\x7by\x7d \x7bx\x7d \x7by\x7d"⟩ := rfl
  have hitems : ofEntry "items"
      { value := "\x7bcount, plural, zero[] one [\x7bb\x7d \x7bcount\x7d \x7ba\x7d]\x7d" } =
        .ok ⟨"items", .pluralWithArgs [⟨"b", .string⟩, ⟨"count", .number⟩, ⟨"a", .string⟩],
          .plural [⟨.one, "\x7bb\x7d \x7bcount\x7d \x7ba\x7d"⟩]⟩ := by cbv
  have hmarker : Plural.marker.toList <+:
      "\x7bcount, plural, zero[] one [\x7bb\x7d \x7bcount\x7d \x7ba\x7d]\x7d".toList :=
    Plural.isPlural_iff.1 (by decide)
  have hnone : ¬ Plural.marker.toList <+: "\x7by\x7d \x7bx\x7d \x7by\x7d".toList :=
    mt Plural.isPlural_iff.2 (by decide)
  have hnames : Placeholder.names "\x7by\x7d \x7bx\x7d \x7by\x7d" = ["y", "x", "y"] := by decide
  obtain ⟨-, -, -, hsimple, -⟩ := declares_of_ofEntry hhello
  obtain ⟨-, -, -, -, hplural⟩ := declares_of_ofEntry hitems
  obtain ⟨-, l, first, -, hfirst, hcount⟩ := hplural hmarker
  have hfirsts := (hsimple hnone).1
  rw [hnames] at hfirsts
  exact ⟨⟨_, hhello, rfl, rfl, hfirsts⟩, _, hitems, rfl, l, first, hfirst, hcount⟩

end Token

end Phrasebook
