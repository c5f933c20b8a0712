import Mathlib.Data.List.Nodup
import Phrasebook.Proofs.Argument.Shape
import Phrasebook.Proofs.Compilation.Basic
import Phrasebook.Proofs.Compilation.Buckets

/-!
# Compilations are complete

The unions and argument types of a module are written by the kinds of the tokens, its tables by
their values. The two agree: every token of the source stands in the compilation once, with one
value for each locale of the module, of the form that its kind asks for.
-/

namespace Phrasebook

/-- The values have the form that goes with the kind, and a plural message has a wording in every
locale: branches, each with a text. -/
def Resolved.Fits : TokenKind → Resolved → Prop
  | .simpleNoArgs, simple _ => True
  | .simpleWithArgs _, simple _ => True
  | .pluralWithArgs _, plural values =>
    ∀ e ∈ values.entries, e.2 ≠ [] ∧ ∀ b ∈ e.2, b.text ≠ ""
  | _, _ => False

namespace Message

variable {m : Message} {token source : String} {locales : LocaleSet}

/-- Every value of a message has a wording if the message has one. -/
theorem hasWording_messages_resolve (h : m.HasWording) :
    ∀ e ∈ (m.resolve token source locales).1.messages, e.2.HasWording := by
  intro e he
  rw [messages_resolve] at he
  obtain ⟨d, _, rfl⟩ := List.mem_map.1 he
  exact hasWording_inLocale h d

/-- The kind of a message and its values go together. -/
theorem fits_resolve (h : m.HasWording) :
    (m.resolve token source locales).1.Fits m.kind := by
  cases m with
  | simple text =>
    show Resolved.Fits (.ofVariables _) (.simple _)
    cases Variable.ofNames (Placeholder.names text) <;> exact trivial
  | plural branches =>
    show ∀ e ∈ (Resolution.chooseAll Plural.parse token source branches locales).1.entries, _
    intro e he
    have hmem := List.mem_map_of_mem (f := fun e => (e.1, Message.plural e.2)) he
    exact hasWording_messages_resolve h _ hmem

end Message

namespace Compilation

/-- A compilation in which every token of a dictionary has its place and its values. -/
structure IsComplete (c : Compilation) (d : Dictionary) (locales : List String) : Prop where
  /-- The tokens are those of the dictionary, in its order. -/
  names_eq : c.tokens.map (·.name) = d.tokens
  names_nodup : (c.tokens.map (·.name)).Nodup
  locales_eq : c.locales = locales
  locales_nodup : c.locales.Nodup
  /-- Every token has a value for each locale, in the order of the locales. -/
  resolved_locales : ∀ t ∈ c.tokens, t.resolved.locales = c.locales
  fits : ∀ t ∈ c.tokens, t.resolved.Fits t.kind
  args_ne_nil : ∀ t ∈ c.tokens, t.kind ≠ .simpleNoArgs → t.kind.args ≠ []
  /-- The argument type `undefined` is for tokens without arguments. -/
  type_ne_undefined : ∀ t ∈ c.tokens, t.kind ≠ .simpleNoArgs →
    (Registry.builtin.shapeOf t.kind.args).render ≠ "undefined"
  bucket_sublist : ∀ b, (c.bucket b).Sublist c.tokens
  bucket_disjoint : ∀ b b', b ≠ b' → (c.bucket b).Disjoint (c.bucket b')
  buckets_perm : (c.bucket .simpleNoArgs ++ c.bucket .simpleWithArgs ++
    c.bucket .pluralWithArgs).Perm c.tokens
  tokens_nodup : c.tokens.Nodup
  counts_eq : c.counts = ⟨(c.bucket .simpleNoArgs).length, (c.bucket .simpleWithArgs).length,
    (c.bucket .pluralWithArgs).length⟩
  total_counts : c.counts.total = d.entries.size

variable {locales : LocaleSet} {source : String} {e : String × Entry} {t : CompiledToken}

theorem IsTokenOf.resolved_locales (h : IsTokenOf locales source e t) :
    t.resolved.locales = locales.locales := by
  obtain ⟨m, _, rfl⟩ := h
  exact Message.locales_resolve

theorem IsTokenOf.fits (h : IsTokenOf locales source e t) : t.resolved.Fits t.kind := by
  obtain ⟨m, hm, rfl⟩ := h
  exact Message.fits_resolve (Message.hasWording_of_ofText hm)

theorem IsTokenOf.args_ne_nil (h : IsTokenOf locales source e t) (hk : t.kind ≠ .simpleNoArgs) :
    t.kind.args ≠ [] := by
  obtain ⟨m, _, rfl⟩ := h
  exact Message.args_kind_ne_nil hk

end Compilation

open Compilation

/-- **Compilations are complete.** -/
theorem LocaleSet.isComplete_of_compile {locales : LocaleSet} {source : String} {c : Compilation}
    (h : locales.compile source = .ok c) :
    ∃ d, locales.get? source = some d ∧ c.IsComplete d locales.locales := by
  obtain ⟨d, hd, _, hlocales, htokens, _⟩ := compile_eq_ok_iff.1 h
  have hentry : ∀ t ∈ c.tokens, ∃ e ∈ d.entries.entries, IsTokenOf locales source e t :=
    fun t ht => Traversal.exists_left_of_forall₂ htokens ht
  have hnames : c.tokens.map (·.name) = d.tokens := map_name_tokens htokens
  have hnodup : (c.tokens.map (·.name)).Nodup := by
    rw [hnames]
    exact d.tokens_nodup
  have hargs : ∀ t ∈ c.tokens, t.kind ≠ .simpleNoArgs → t.kind.args ≠ [] := by
    intro t ht hk
    obtain ⟨e, _, he⟩ := hentry t ht
    exact he.args_ne_nil hk
  refine ⟨d, hd, ?_⟩
  constructor
  case names_eq => exact hnames
  case names_nodup => exact hnodup
  case locales_eq => exact hlocales
  case locales_nodup =>
    rw [hlocales]
    exact locales.locales_nodup
  case resolved_locales =>
    intro t ht
    obtain ⟨e, _, he⟩ := hentry t ht
    rw [hlocales]
    exact he.resolved_locales
  case fits =>
    intro t ht
    obtain ⟨e, _, he⟩ := hentry t ht
    exact he.fits
  case args_ne_nil => exact hargs
  case type_ne_undefined =>
    intro t ht hk
    exact Registry.render_builtin_ne_undefined (hargs t ht hk)
  case bucket_sublist => exact c.bucket_sublist
  case bucket_disjoint => exact fun b b' hb => c.disjoint_bucket hb
  case buckets_perm => exact c.perm_buckets
  case tokens_nodup => exact List.Nodup.of_map _ hnodup
  case counts_eq => exact c.counts_eq
  case total_counts =>
    rw [c.total_counts]
    exact htokens.length_eq.symm

/-- The other locale gets the plural message wrong and leaves a simple one empty. -/
theorem LocaleSet.exists_isComplete_compile :
    ∃ c, (ofList [.sample, .ofPairs "fr" [("items", "\x7bcount, plural, uno [un]\x7d"), ("bye", ""),
        ("other", "Autre")]]).compile "en" = .ok c ∧ c.IsComplete .sample ["en", "fr"] := by
  refine (exists_compile_sample rfl).imp fun c hc => ⟨hc, ?_⟩
  obtain ⟨d, hd, hcomplete⟩ := isComplete_of_compile hc
  cases hd
  exact hcomplete

end Phrasebook
