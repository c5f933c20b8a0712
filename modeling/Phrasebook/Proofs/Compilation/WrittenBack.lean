import Phrasebook.Module
import Phrasebook.Proofs.Compilation.Accounting
import Phrasebook.Proofs.Plural.Written

/-!
# Compilations that are written back

The values of a compilation can be written as messages again: a text as it is, the branches of a
plural message as a block. A locale set with just these messages compiles to the same tokens with
the same values (`compile_writtenBack`), so a fallback that has been taken once is not taken again.
The only findings left are about texts that are empty in the source locale itself.
-/

namespace Phrasebook

/-! ## Values as they are written -/

/-- The message as it is written in a locale file. -/
def Message.written : Message → String
  | simple text => text
  | plural branches => Plural.render branches

/-- The value in a locale as it is written. -/
def Resolved.written? (r : Resolved) (locale : String) : Option String :=
  (r.message? locale).map Message.written

namespace Message

variable {m own : Message} {text token source : String} {o : Dictionary}

theorem read_written (h : m.read text = .ok own) : m.read own.written = .ok own := by
  cases m with
  | simple s => cases h; rfl
  | plural bs =>
    obtain ⟨branches, hb, rfl⟩ := Traversal.exists_ok_of_map h
    show (Plural.parse (Plural.render branches)).map plural = _
    rw [Plural.parse_render (Plural.ne_nil_of_parse hb) (Plural.isWritable_of_parse hb)]
    rfl

/-- A source message that is written back is read as before: a text that is not plural is left as it
is, and a block begins with the marker. -/
theorem ofText_written (h : ofText text = .ok m) : ofText m.written = .ok m := by
  have hread := read_written (read_of_ofText h)
  cases hp : Plural.isPlural text with
  | false =>
    rw [ofText_simple hp] at h
    cases h
    exact ofText_simple hp
  | true =>
    rw [ofText_plural hp] at h
    obtain ⟨branches, _, rfl⟩ := Traversal.exists_ok_of_map h
    show ofText (Plural.render branches) = _
    rw [ofText_plural (Plural.isPlural_render branches)]
    exact hread

/-- The value in a locale can be written and read back. -/
theorem read_written_inLocale (h : ofText text = .ok m) :
    m.read (m.inLocale token source o).1.written = .ok (m.inLocale token source o).1 := by
  rcases Resolution.choose_fst_cases m.read token source m o with hv | ⟨own, _, hr⟩
  · rw [inLocale, hv]
    exact read_written (read_of_ofText h)
  · exact read_written hr

theorem written_ne_empty_of_read (h : m.read text = .ok own) (ht : text ≠ "") :
    own.written ≠ "" := by
  cases m with
  | simple s => cases h; exact ht
  | plural bs =>
    obtain ⟨branches, _, rfl⟩ := Traversal.exists_ok_of_map h
    exact Plural.render_ne_empty branches

/-- Only the source message may be written as an empty text. -/
theorem inLocale_eq_of_written_empty (h : (m.inLocale token source o).1.written = "") :
    (m.inLocale token source o).1 = m := by
  rcases Resolution.choose_fst_cases m.read token source m o with hv | ⟨own, hne, hr⟩
  · exact hv
  · exact absurd h (written_ne_empty_of_read hr hne)

/-- **A value that is written back is chosen again**, and the only finding there may be is that it
is empty. -/
theorem inLocale_of_written {o' : Dictionary} {entry : Entry} (hm : ofText text = .ok m)
    (hl : o'.locale = o.locale) (he : o'.entry? token = some entry)
    (hvalue : (m.inLocale token source o).1.written = entry.value) :
    (m.inLocale token source o').1 = (m.inLocale token source o).1 ∧
      ∀ f, (m.inLocale token source o').2 = some f →
        f = .fallback token o'.locale source .empty o'.file := by
  by_cases hs : o'.locale = source
  · have hown : m.inLocale token source o = (m, none) := Resolution.choose_source (hl ▸ hs)
    have hagain : m.inLocale token source o' = (m, none) := Resolution.choose_source hs
    rw [hown, hagain]
    exact ⟨rfl, nofun⟩
  by_cases hempty : entry.value = ""
  · have hagain : m.inLocale token source o' =
        (m, some (.fallback token o'.locale source .empty o'.file)) :=
      Resolution.choose_empty hs he hempty
    rw [hagain, inLocale_eq_of_written_empty (hvalue.trans hempty)]
    exact ⟨rfl, fun f hf => (Option.some.inj hf).symm⟩
  · have hread : m.read entry.value = .ok (m.inLocale token source o).1 := by
      rw [← hvalue]
      exact read_written_inLocale hm
    have hagain : m.inLocale token source o' = ((m.inLocale token source o).1, none) :=
      Resolution.choose_own hs he hempty hread
    rw [hagain]
    exact ⟨rfl, nofun⟩

/-- Two locale sets with the same locales and the same choices give the same values. -/
theorem resolve_eq_of_message? {s s' : LocaleSet} (hl : s'.locales = s.locales)
    (h : ∀ locale ∈ s'.locales, (m.resolve token source s').1.message? locale =
      (m.resolve token source s).1.message? locale) :
    (m.resolve token source s').1 = (m.resolve token source s).1 := by
  have hkeys : (m.resolve token source s').1.locales = (m.resolve token source s).1.locales := by
    rw [locales_resolve, locales_resolve, hl]
  have hlocales : (m.resolve token source s').1.locales = s'.locales := locales_resolve
  rw [← hlocales] at h
  cases m with
  | simple text =>
    refine congrArg Resolved.simple (OrderedMap.ext_of_get? hkeys fun locale hmem => ?_)
    exact Option.map_injective (fun _ _ => Message.simple.inj) (h locale hmem)
  | plural branches =>
    refine congrArg Resolved.plural (OrderedMap.ext_of_get? hkeys fun locale hmem => ?_)
    exact Option.map_injective (fun _ _ => Message.plural.inj) (h locale hmem)

end Message

/-! ## The merged module does not show how a source message was written -/

def CompiledToken.withoutRaw (t : CompiledToken) : CompiledToken := { t with raw := "" }

namespace Module

variable (ts : List CompiledToken)

theorem unionSection_withoutRaw (name : String) :
    unionSection name (ts.map (·.withoutRaw)) = unionSection name ts := by
  unfold unionSection
  rw [List.isEmpty_map, List.map_map]
  rfl

theorem argumentSection_withoutRaw (name : String) (r : Registry) :
    argumentSection name r (ts.map (·.withoutRaw)) = argumentSection name r ts := by
  unfold argumentSection
  rw [List.map_map]
  rfl

theorem tableSection_withoutRaw (header : Section) (withArgs : Bool) :
    tableSection header withArgs (ts.map (·.withoutRaw)) = tableSection header withArgs ts := by
  unfold tableSection
  rw [List.flatMap_map]
  rfl

variable {c c' : Compilation}

theorem bucket_withoutRaw (h : c'.tokens.map (·.withoutRaw) = c.tokens.map (·.withoutRaw))
    (b : Bucket) : (c'.bucket b).map (·.withoutRaw) = (c.bucket b).map (·.withoutRaw) := by
  have hb := congrArg (List.filter (·.kind.bucket = b)) h
  rw [List.filter_map, List.filter_map] at hb
  exact hb

theorem mergedSections_eq_of_withoutRaw
    (h : c'.tokens.map (·.withoutRaw) = c.tokens.map (·.withoutRaw)) (o : ModuleOptions) :
    mergedSections c' o = mergedSections c o := by
  have hunion : ∀ name b, unionSection name (c'.bucket b) = unionSection name (c.bucket b) := by
    intro name b
    rw [← unionSection_withoutRaw, bucket_withoutRaw h, unionSection_withoutRaw]
  have harguments : ∀ name r b,
      argumentSection name r (c'.bucket b) = argumentSection name r (c.bucket b) := by
    intro name r b
    rw [← argumentSection_withoutRaw, bucket_withoutRaw h, argumentSection_withoutRaw]
  have htable : ∀ header withArgs b,
      tableSection header withArgs (c'.bucket b) = tableSection header withArgs (c.bucket b) := by
    intro header withArgs b
    rw [← tableSection_withoutRaw, bucket_withoutRaw h, tableSection_withoutRaw]
  simp only [mergedSections, hunion, harguments, htable]

end Module

/-! ## Locale sets that hold what was compiled -/

namespace Compilation

/-- The locale set has the locales of the compilation, and in each of them the values of the tokens
in their order, as they are written. -/
structure IsWrittenTo (c : Compilation) (s : LocaleSet) : Prop where
  locales_eq : s.locales = c.locales
  entries_eq : ∀ o ∈ s.dictionaries, o.entries.entries.map (fun e => (e.1, some e.2.value)) =
    c.tokens.map fun t => (t.name, t.resolved.written? o.locale)

/-- The dictionary with the values in a locale. -/
def writtenIn (c : Compilation) (locale : String) : Dictionary :=
  .ofPairs locale (c.tokens.filterMap fun t => (t.resolved.written? locale).map (t.name, ·))

/-- A locale set that holds what was compiled, and no places in files. -/
def writtenBack (c : Compilation) : LocaleSet := .ofList (c.locales.map c.writtenIn)

/-- Nothing was lost: the tokens have the values that they had, the merged modules are the same, and
all that is reported are messages that are empty in the source. -/
structure IsRestoredBy (c c' : Compilation) : Prop where
  locales : c'.locales = c.locales
  tokens : List.Forall₂ (fun t t' => t'.name = t.name ∧ t'.kind = t.kind ∧
    t'.resolved = t.resolved) c.tokens c'.tokens
  render : ∀ o, o.mode = .merged → c'.render o = c.render o
  findings : ∀ f ∈ c'.diagnostics, ∃ token locale file,
    f = .fallback token locale c.source .empty file

end Compilation

open Compilation

variable {locales s : LocaleSet} {source : String} {c : Compilation} {d : Dictionary}

/-- A compiled token has a value in every locale. -/
theorem LocaleSet.exists_written? (h : locales.compile source = .ok c) {t : CompiledToken}
    (ht : t ∈ c.tokens) {locale : String} (hl : locale ∈ c.locales) :
    ∃ text, t.resolved.written? locale = some text := by
  obtain ⟨d, hd, _⟩ := compile_eq_ok_iff.1 h
  rw [locales_of_compile h, ← map_locale_dictionaries] at hl
  obtain ⟨o, ho, rfl⟩ := List.mem_map.1 hl
  obtain ⟨_, m, _, _, _, _, hresolved⟩ := exists_message_of_mem h hd ht
  refine ⟨(m.inLocale t.name source o).1.written, ?_⟩
  rw [Resolved.written?, hresolved, Message.message?_resolve ho]
  rfl

theorem LocaleSet.nodup_name_tokens (h : locales.compile source = .ok c) :
    (c.tokens.map (·.name)).Nodup := by
  obtain ⟨d, _, _, _, htokens, _⟩ := compile_eq_ok_iff.1 h
  rw [map_name_tokens htokens]
  exact d.tokens_nodup

/-- Pairs that are all there are none the fewer for being filtered. -/
theorem map_filterMap_pair {α β κ : Type} (key : α → κ) {f : α → Option β} {xs : List α}
    (h : ∀ x ∈ xs, ∃ y, f x = some y) :
    (xs.filterMap fun x => (f x).map (key x, ·)).map (fun p => (p.1, some p.2)) =
      xs.map fun x => (key x, f x) := by
  induction xs with
  | nil => rfl
  | cons x xs ih =>
    obtain ⟨hx, hxs⟩ := List.forall_mem_cons.1 h
    obtain ⟨y, hy⟩ := hx
    simp [hy, ih hxs]

/-- A compilation can be written back. -/
theorem LocaleSet.isWrittenTo_writtenBack (h : locales.compile source = .ok c) :
    c.IsWrittenTo c.writtenBack := by
  have hlocale : (c.locales.map c.writtenIn).map (·.locale) = c.locales := by
    rw [List.map_map]
    exact (List.map_congr_left fun l _ => Dictionary.locale_ofPairs l _).trans (List.map_id _)
  have hdictionaries : c.writtenBack.dictionaries = c.locales.map c.writtenIn := by
    apply dictionaries_ofList
    rw [hlocale, locales_of_compile h]
    exact locales.locales_nodup
  constructor
  case locales_eq => rw [← map_locale_dictionaries, hdictionaries, hlocale]
  case entries_eq =>
    rw [hdictionaries]
    intro o ho
    obtain ⟨l, hl, rfl⟩ := List.mem_map.1 ho
    have hpairs := map_filterMap_pair CompiledToken.name fun t ht => exists_written? h ht hl
    have hnames := congrArg (List.map Prod.fst) hpairs
    rw [List.map_map, List.map_map] at hnames
    have hnodup := nodup_name_tokens h
    rw [← show List.map _ _ = c.tokens.map (·.name) from hnames] at hnodup
    unfold writtenIn
    rw [Dictionary.entries_ofPairs hnodup, Dictionary.locale_ofPairs, ← hpairs, List.map_map]
    rfl

/-! ## Compiling what was written back -/

/-- Every locale has just the tokens of the source. -/
theorem Compilation.IsWrittenTo.tokens_eq (hs : c.IsWrittenTo s) {o' : Dictionary}
    (ho' : o' ∈ s.dictionaries) : o'.tokens = c.tokens.map (·.name) := by
  have hnames := congrArg (List.map Prod.fst) (hs.entries_eq o' ho')
  rw [List.map_map, List.map_map] at hnames
  exact hnames

/-- What is written for a token in the source locale is read as the token's source message. -/
theorem LocaleSet.ofText_of_written? (h : locales.compile source = .ok c) {t : CompiledToken}
    (ht : t ∈ c.tokens) {text : String} (hwritten : t.resolved.written? source = some text) :
    Message.ofText text = Message.ofText t.raw := by
  obtain ⟨d, hd, _⟩ := compile_eq_ok_iff.1 h
  obtain ⟨hmem, hlocale⟩ := get?_eq_some_iff.1 hd
  obtain ⟨_, m, _, hraw, hm, _, hresolved⟩ := exists_message_of_mem h hd ht
  have hown : m.inLocale t.name source d = (m, none) := Resolution.choose_source hlocale
  have hvalue : t.resolved.written? source = some m.written := by
    rw [Resolved.written?, hresolved, ← hlocale, Message.message?_resolve hmem, hlocale, hown]
    rfl
  cases hvalue.symm.trans hwritten
  rw [hraw, hm]
  exact Message.ofText_written hm

section Compile

variable (hs : c.IsWrittenTo s) (h : locales.compile source = .ok c)

include hs h

/-- What is written for a token in a locale. -/
theorem Compilation.IsWrittenTo.exists_entry {t : CompiledToken} (ht : t ∈ c.tokens)
    {m : Message} (hresolved : t.resolved = (m.resolve t.name source locales).1) {o' : Dictionary}
    (ho' : o' ∈ s.dictionaries) :
    ∃ o ∈ locales.dictionaries, o'.locale = o.locale ∧
      ∃ entry, o'.entry? t.name = some entry ∧
        (m.inLocale t.name source o).1.written = entry.value := by
  have hl : o'.locale ∈ locales.locales := by
    rw [← LocaleSet.locales_of_compile h, ← hs.locales_eq, ← LocaleSet.map_locale_dictionaries]
    exact List.mem_map_of_mem ho'
  rw [← LocaleSet.map_locale_dictionaries] at hl
  obtain ⟨o, ho, hlocale⟩ := List.mem_map.1 hl
  have hmem : (t.name, t.resolved.written? o'.locale) ∈
      o'.entries.entries.map fun e => (e.1, some e.2.value) := by
    rw [hs.entries_eq o' ho']
    exact List.mem_map_of_mem (f := fun t => (t.name, t.resolved.written? o'.locale)) ht
  obtain ⟨⟨name, entry⟩, he, heq⟩ := List.mem_map.1 hmem
  obtain ⟨rfl, hwritten⟩ := Prod.mk.inj heq
  rw [Resolved.written?, hresolved, ← hlocale, Message.message?_resolve ho] at hwritten
  exact ⟨o, ho, hlocale.symm, entry, Dictionary.entry?_eq_some_iff.2 he,
    (Option.some.inj hwritten).symm⟩

/-- **The value of a token in a locale is chosen again.** -/
theorem Compilation.IsWrittenTo.inLocale {t : CompiledToken} (ht : t ∈ c.tokens) {m : Message}
    {text : String} (hm : Message.ofText text = .ok m)
    (hresolved : t.resolved = (m.resolve t.name source locales).1) {o' : Dictionary}
    (ho' : o' ∈ s.dictionaries) :
    t.resolved.message? o'.locale = some (m.inLocale t.name source o').1 ∧
      ∀ f, (m.inLocale t.name source o').2 = some f →
        f = .fallback t.name o'.locale source .empty o'.file := by
  obtain ⟨o, ho, hl, entry, he, hvalue⟩ := hs.exists_entry h ht hresolved ho'
  obtain ⟨hagain, hfindings⟩ := Message.inLocale_of_written hm hl he hvalue
  refine ⟨?_, hfindings⟩
  rw [hresolved, hl, hagain, Message.message?_resolve ho]

/-- The values of a token are resolved again. -/
theorem Compilation.IsWrittenTo.resolve {t : CompiledToken} (ht : t ∈ c.tokens) {m : Message}
    {text : String} (hm : Message.ofText text = .ok m)
    (hresolved : t.resolved = (m.resolve t.name source locales).1) :
    (m.resolve t.name source s).1 = t.resolved := by
  rw [hresolved]
  apply Message.resolve_eq_of_message? (hs.locales_eq.trans (LocaleSet.locales_of_compile h))
  intro locale hmem
  rw [← LocaleSet.map_locale_dictionaries] at hmem
  obtain ⟨o', ho', rfl⟩ := List.mem_map.1 hmem
  rw [Message.message?_resolve ho', ← hresolved]
  exact (hs.inLocale h ht hm hresolved ho').1.symm

/-- The entries of the source locale stand for the tokens, one by one. -/
theorem Compilation.IsWrittenTo.forall₂_entries {d' : Dictionary} (hd' : s.get? source = some d') :
    List.Forall₂ (fun e t => t ∈ c.tokens ∧ t.name = e.1 ∧
      Message.ofText e.2.value = Message.ofText t.raw) d'.entries.entries c.tokens := by
  obtain ⟨hmem', hlocale'⟩ := LocaleSet.get?_eq_some_iff.1 hd'
  have hentries := hs.entries_eq d' hmem'
  rw [← List.forall₂_eq_eq_eq, List.forall₂_map_left_iff, List.forall₂_map_right_iff] at hentries
  apply (Traversal.forall₂_mem_right hentries).imp
  rintro ⟨name, entry⟩ t ⟨heq, ht⟩
  obtain ⟨rfl, hwritten⟩ := Prod.mk.inj heq
  rw [hlocale'] at hwritten
  exact ⟨ht, rfl, LocaleSet.ofText_of_written? h ht hwritten.symm⟩

/-- **What was written back compiles**, to the same tokens with the same values. -/
theorem Compilation.IsWrittenTo.exists_compile :
    ∃ c', s.compile source = .ok c' ∧
      List.Forall₂ (fun t t' => t'.name = t.name ∧ t'.kind = t.kind ∧ t'.resolved = t.resolved)
        c.tokens c'.tokens := by
  obtain ⟨d, hd, _⟩ := LocaleSet.compile_eq_ok_iff.1 h
  obtain ⟨hmem, hlocale⟩ := LocaleSet.get?_eq_some_iff.1 hd
  have hsource : source ∈ s.locales := by
    rw [hs.locales_eq, LocaleSet.locales_of_compile h, ← LocaleSet.map_locale_dictionaries,
      ← hlocale]
    exact List.mem_map_of_mem hmem
  obtain ⟨d', hd'⟩ := LocaleSet.exists_get?_of_mem hsource
  have hentries := hs.forall₂_entries h hd'
  have hread : ∀ e ∈ d'.entries.entries, ∃ m, Message.ofText e.2.value = .ok m := by
    intro e he
    obtain ⟨t, _, ht, _, htext⟩ := Traversal.exists_right_of_forall₂ hentries he
    obtain ⟨_, m, _, hraw, hm, _⟩ := LocaleSet.exists_message_of_mem h hd ht
    exact ⟨m, by rw [htext, hraw, hm]⟩
  obtain ⟨c', hc'⟩ := LocaleSet.exists_compile_iff.2 ⟨d', hd', hread⟩
  obtain ⟨_, _, htokens, _⟩ := (LocaleSet.compile_eq_ok_iff_of_get? hd').1 hc'
  refine ⟨c', hc', (Traversal.forall₂_of_common hentries htokens).imp ?_⟩
  rintro t t' ⟨e, ⟨ht, hname, htext⟩, m, hm, rfl⟩
  obtain ⟨_, m', _, hraw, hm', hkind, hresolved⟩ := LocaleSet.exists_message_of_mem h hd ht
  rw [htext, hraw, hm'] at hm
  cases hm
  rw [← hname]
  exact ⟨rfl, hkind.symm, hs.resolve h ht hm' hresolved⟩

/-- Only messages that are empty in the source are reported. -/
theorem Compilation.IsWrittenTo.findings {c' : Compilation} (h' : s.compile source = .ok c') :
    ∀ f ∈ c'.diagnostics, ∃ token locale file, f = .fallback token locale source .empty file := by
  obtain ⟨d, hd, _⟩ := LocaleSet.compile_eq_ok_iff.1 h
  obtain ⟨d', hd', _, _, _, hdiagnostics⟩ := LocaleSet.compile_eq_ok_iff.1 h'
  obtain ⟨hmem', _⟩ := LocaleSet.get?_eq_some_iff.1 hd'
  intro f hf
  rw [hdiagnostics, List.mem_append] at hf
  rcases hf with hf | hf
  · obtain ⟨e, he, hf⟩ := List.mem_flatMap.1 hf
    obtain ⟨m, hm, o', ho', hf⟩ := mem_valueFindings_iff.1 hf
    obtain ⟨t, _, ht, hname, htext⟩ :=
      Traversal.exists_right_of_forall₂ (hs.forall₂_entries h hd') he
    obtain ⟨_, m', _, hraw, hm', _, hresolved⟩ := LocaleSet.exists_message_of_mem h hd ht
    rw [htext, hraw, hm'] at hm
    cases hm
    rw [← hname] at hf
    exact ⟨_, _, _, (hs.inLocale h ht hm' hresolved ho').2 f hf⟩
  · -- A token that is unknown would be a token of one locale and not of the source.
    obtain ⟨o', ho', hf⟩ := List.mem_flatMap.1 hf
    obtain ⟨_, token, entry, he, hunknown, _⟩ := mem_unknownTokens_iff.1 hf
    have hknown : token ∈ d'.tokens := by
      rw [hs.tokens_eq hmem', ← hs.tokens_eq ho']
      exact List.mem_map_of_mem he
    rw [Dictionary.contains_iff.2 hknown] at hunknown
    cases hunknown

theorem Compilation.IsWrittenTo.exists_isRestoredBy :
    ∃ c', s.compile source = .ok c' ∧ c.IsRestoredBy c' := by
  obtain ⟨c', hc', htokens⟩ := hs.exists_compile h
  obtain ⟨_, _, hsource, _⟩ := LocaleSet.compile_eq_ok_iff.1 h
  refine ⟨c', hc', ?_⟩
  constructor
  case locales => rw [LocaleSet.locales_of_compile hc', hs.locales_eq]
  case tokens => exact htokens
  case render =>
    have hraw : c'.tokens.map (·.withoutRaw) = c.tokens.map (·.withoutRaw) := by
      apply Traversal.map_eq_of_forall₂ htokens
      rintro t t' ⟨hname, hkind, hresolved⟩
      simp [CompiledToken.withoutRaw, hname, hkind, hresolved]
    intro o ho
    unfold Compilation.render Compilation.sections
    rw [ho]
    dsimp only
    rw [Module.mergedSections_eq_of_withoutRaw hraw]
  case findings =>
    rw [hsource]
    exact hs.findings h hc'

end Compile

/-- **Compiling what was compiled changes nothing.** A compilation can be written back, and whatever
locale set holds its values, it compiles to the same tokens, the same values and the same merged
module; all that is reported are messages that are empty in the source. -/
theorem LocaleSet.compile_writtenBack (h : locales.compile source = .ok c) :
    c.IsWrittenTo c.writtenBack ∧
      ∀ s, c.IsWrittenTo s → ∃ c', s.compile source = .ok c' ∧ c.IsRestoredBy c' :=
  ⟨isWrittenTo_writtenBack h, fun _ hs => hs.exists_isRestoredBy h⟩

/-- French falls back for two of the tokens, and takes a text that looks plural for the third. -/
theorem LocaleSet.exists_compile_writtenBack :
    ∃ c c', (ofList [.sample, .ofPairs "fr" [("hi", "\x7bcount, plural, "), ("bye", ""),
        ("items", "\x7bcount, plural, uno [un]\x7d"), ("other", "Autre")]]).compile "en" = .ok c ∧
      c.IsWrittenTo c.writtenBack ∧ c.writtenBack.compile "en" = .ok c' ∧ c.IsRestoredBy c' := by
  have hsource : (ofList [.sample, .ofPairs "fr" [("hi", "\x7bcount, plural, "), ("bye", ""),
      ("items", "\x7bcount, plural, uno [un]\x7d"), ("other", "Autre")]]).get? "en" =
      some .sample := rfl
  obtain ⟨c, hc⟩ := exists_compile_sample hsource
  obtain ⟨hwritten, hagain⟩ := compile_writtenBack hc
  obtain ⟨c', hc', hrestored⟩ := hagain _ hwritten
  exact ⟨c, c', hc, hwritten, hc', hrestored⟩

end Phrasebook
