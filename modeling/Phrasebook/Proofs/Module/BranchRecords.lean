import Mathlib.Data.List.Count
import Mathlib.Data.List.Nodup
import Phrasebook.Module
import Phrasebook.Proofs.Compilation.Accounting
import Phrasebook.Proofs.Compilation.Complete
import Phrasebook.Proofs.Plural.Layout

/-!
# The keys of a branch record

A plural token is written with a record of its branches for every locale. The categories are the
keys, and a message may name a category more than once: what is read has it as often as it is
written with a text, and so has the record. The keys of a record are distinct exactly if the message
that serves for the locale repeats no category (`LocaleSet.branchKeys_nodup_iff`).
-/

namespace Phrasebook

namespace Plural

/-- How often a category is written with a text. -/
def Layout.times (l : Layout) (k : Category) : Nat :=
  l.items.countP fun i => i.category = k ∧ i.body ≠ []

/-- No category is written twice with a text. -/
def RepeatsNone (text : String) : Prop := ∀ l : Layout, l.text = text → ∀ k, l.times k ≤ 1

/-- A category is among the branches as often as it is written with a text. -/
theorem Layout.count_category_branches (l : Layout) (k : Category) :
    (l.branches.map (·.category)).count k = l.times k := by
  rw [Layout.branches, List.filter_map, List.map_map, List.count, List.countP_map,
    List.countP_filter, Layout.times]
  refine List.countP_congr fun i _ => ?_
  simp only [Function.comp_apply, Bool.and_eq_true, decide_eq_true_eq, beq_iff_eq,
    i.text_branch_ne_iff]
  rfl

/-- The categories that are read are distinct exactly if none is repeated. -/
theorem nodup_categories_iff {text : String} {bs : List Branch} (h : parse text = .ok bs) :
    (bs.map (·.category)).Nodup ↔ RepeatsNone text := by
  obtain ⟨l, rfl, rfl⟩ := exists_layout_of_parse h
  rw [List.nodup_iff_count_le_one]
  constructor
  · intro hcount l' hl' k
    rw [Layout.text_injective hl', ← l.count_category_branches]
    exact hcount k
  · intro hnone k
    rw [l.count_category_branches]
    exact hnone l rfl k

theorem Category.keyword_injective : Function.Injective Category.keyword := by
  intro k k' h
  apply Option.some.inj
  rw [← ofKeyword?_keyword k, h, ofKeyword?_keyword]

end Plural

namespace Module

open Literal

/-- A record of branches: the locale it is for, and the key and the literal of each field. -/
structure BranchRecord where
  locale : String
  fields : List (String × String)

def BranchRecord.keys (r : BranchRecord) : List String := r.fields.map Prod.fst

def BranchRecord.lines (r : BranchRecord) : List String :=
  ["    " ++ localeKey r.locale ++ ": \x7b"] ++
    (r.fields.map fun f => "      " ++ f.1 ++ ": " ++ f.2 ++ ",") ++ ["    \x7d,"]

/-- The record that is written for the branches of a locale. -/
def branchRecord (locale : String) (branches : List Plural.Branch) : BranchRecord :=
  ⟨locale, branches.map fun b => (b.category.keyword, doubleQuoted b.text)⟩

theorem nodup_keys_branchRecord (locale : String) (branches : List Plural.Branch) :
    (branchRecord locale branches).keys.Nodup ↔ (branches.map (·.category)).Nodup := by
  have hkeys : (branchRecord locale branches).keys =
      (branches.map (·.category)).map Plural.Category.keyword := by
    rw [BranchRecord.keys, branchRecord, List.map_map, List.map_map]
    rfl
  rw [hkeys, List.nodup_map_iff Plural.Category.keyword_injective]

/-- The value of a plural token is written as records, one for each locale. -/
theorem valueLines_plural (values : OrderedMap String (List Plural.Branch)) :
    valueLines (.plural values) =
      (values.entries.map fun e => branchRecord e.1 e.2).flatMap BranchRecord.lines := by
  rw [List.flatMap_map]
  refine List.flatMap_congr fun e _ => ?_
  rw [BranchRecord.lines, branchRecord, List.map_map]
  rfl

end Module

open Compilation Module Literal

namespace LocaleSet

variable {locales : LocaleSet} {source : String} {c : Compilation}

/-- The value of a token in a locale is read from the source message or from the locale's own. -/
theorem exists_readsAs (h : locales.compile source = .ok c) {t : CompiledToken} (ht : t ∈ c.tokens)
    {o : Dictionary} (ho : o ∈ locales.dictionaries) :
    ∃ text, (text = t.raw ∨ ∃ entry, o.entry? t.name = some entry ∧ text = entry.value) ∧
      t.resolved.ReadsAs o.locale text := by
  obtain ⟨d, hd, -⟩ := compile_eq_ok_iff.1 h
  by_cases hl : o.locale = source
  · obtain ⟨entry, m, -, hraw, hm, -, hresolved⟩ := exists_message_of_mem h hd ht
    have hchoice : m.inLocale t.name source o = (m, none) := Resolution.choose_source hl
    refine ⟨t.raw, .inl rfl, ?_⟩
    rw [hresolved, hraw]
    apply Message.readsAs_resolve ho (Message.read_of_ofText hm)
    rw [hchoice]
  · obtain ⟨x, hx⟩ := exists_isFrom h hd ht ho hl
    cases hx with
    | own hentry _ hvalue _ => exact ⟨_, .inr ⟨_, hentry, rfl⟩, hvalue⟩
    | missing _ hvalue _ => exact ⟨_, .inl rfl, hvalue⟩
    | empty _ _ hvalue _ => exact ⟨_, .inl rfl, hvalue⟩
    | malformed _ _ _ _ hvalue _ => exact ⟨_, .inl rfl, hvalue⟩

/-- The values of a plural token are branches. -/
theorem exists_plural_of_mem_bucket (h : locales.compile source = .ok c) {t : CompiledToken}
    (ht : t ∈ c.bucket .pluralWithArgs) : ∃ values, t.resolved = .plural values := by
  obtain ⟨hmem, hbucket⟩ := mem_bucket_iff.1 ht
  obtain ⟨d, hd, -, -, htokens, -⟩ := compile_eq_ok_iff.1 h
  obtain ⟨e, -, he⟩ := Traversal.exists_left_of_forall₂ htokens hmem
  have hfits := he.fits
  obtain ⟨name, kind, resolved, raw⟩ := t
  cases resolved with
  | plural values => exact ⟨values, rfl⟩
  | simple texts =>
    cases kind with
    | simpleNoArgs => cases hbucket
    | simpleWithArgs args => cases hbucket
    | pluralWithArgs args => exact hfits.elim

/-- **The keys of a branch record.** What is read of a plural message has each category as often as
it is written with a text. The last table of a merged module has an entry for each plural token,
with a record for each locale; and the keys of the record are distinct exactly if the message that
serves for the locale, the source's or the locale's own, repeats no category. -/
theorem branchKeys_nodup_iff (h : locales.compile source = .ok c) :
    (∀ text branches, Plural.parse text = .ok branches →
      (∃ l : Plural.Layout, l.text = text ∧
        ∀ k, (branches.map (·.category)).count k = l.times k) ∧
      ((branches.map (·.category)).Nodup ↔ Plural.RepeatsNone text)) ∧
    (∀ o : ModuleOptions, o.mode = .merged → ∃ sections, c.sections o = sections ++
      [tableSection (plainHeader "pluralsDictionaryWithArgs") (o.schema = .nested)
        (c.bucket .pluralWithArgs)]) ∧
    ∀ t ∈ c.bucket .pluralWithArgs, ∃ records : List BranchRecord,
      (∀ withArgs, tokenLines withArgs t = ["  " ++ quoteKey t.name ++ ": \x7b"] ++
        records.flatMap BranchRecord.lines ++ (if withArgs then [argumentLine t] else []) ++
        ["  \x7d,"]) ∧
      records.map (·.locale) = c.locales ∧
      ∀ r ∈ records, ∀ o ∈ locales.dictionaries, o.locale = r.locale →
        ∃ text branches,
          (text = t.raw ∨ ∃ entry, o.entry? t.name = some entry ∧ text = entry.value) ∧
          Plural.parse text = .ok branches ∧ r = branchRecord o.locale branches ∧
          (r.keys.Nodup ↔ Plural.RepeatsNone text) := by
  refine ⟨fun text branches hparse => ⟨?_, Plural.nodup_categories_iff hparse⟩, ?_, ?_⟩
  · obtain ⟨l, hl, rfl⟩ := Plural.exists_layout_of_parse hparse
    exact ⟨l, hl, l.count_category_branches⟩
  · intro o ho
    refine ⟨(mergedSections c o).take 10, ?_⟩
    rw [Compilation.sections, ho]
    rfl
  · intro t ht
    obtain ⟨hmem, -⟩ := mem_bucket_iff.1 ht
    obtain ⟨values, hvalues⟩ := exists_plural_of_mem_bucket h ht
    have hlocales : t.resolved.locales = c.locales := by
      obtain ⟨d, hd, -, hlocales, htokens, -⟩ := compile_eq_ok_iff.1 h
      obtain ⟨e, -, he⟩ := Traversal.exists_left_of_forall₂ htokens hmem
      rw [he.resolved_locales, hlocales]
    refine ⟨values.entries.map fun e => branchRecord e.1 e.2, fun withArgs => ?_, ?_, ?_⟩
    · rw [tokenLines, hvalues, valueLines_plural]
    · rw [← hlocales, hvalues, List.map_map]
      rfl
    · intro r hr o ho hlocale
      obtain ⟨⟨locale, branches⟩, he, rfl⟩ := List.mem_map.1 hr
      obtain ⟨text, htext, hreads⟩ := exists_readsAs h hmem ho
      rw [hvalues] at hreads
      obtain ⟨own, hparse, hget⟩ := hreads
      have hown : own = branches := by
        obtain rfl : o.locale = locale := hlocale
        rw [OrderedMap.get?_eq_some_iff.2 he] at hget
        exact (Option.some.inj hget).symm
      subst hown
      refine ⟨text, own, htext, hparse, ?_, ?_⟩
      · rw [hlocale]
        rfl
      · rw [nodup_keys_branchRecord]
        exact Plural.nodup_categories_iff hparse

/-- A category is named twice, once without a text: the record has it once. -/
theorem exists_branchKeys_nodup :
    let raw := "\x7bcount, plural, one [] one [a] other [b]\x7d"
    ∃ c, (ofList [.ofPairs "en" [("items", raw)]]).compile "en" = .ok c ∧
      Plural.RepeatsNone raw ∧ ∃ t ∈ c.bucket .pluralWithArgs, ∃ records : List BranchRecord,
        valueLines t.resolved = records.flatMap BranchRecord.lines ∧
        records.map (·.locale) = ["en"] ∧ ∀ r ∈ records, r.keys.Nodup := by
  intro raw
  let branches : List Plural.Branch := [⟨.one, "a"⟩, ⟨.other, "b"⟩]
  let t : CompiledToken := ⟨"items", .pluralWithArgs [⟨"count", .number⟩],
    .plural (.ofList [("en", branches)]), raw⟩
  let c : Compilation := ⟨"en", ["en"], [t], []⟩
  have hc : (ofList [.ofPairs "en" [("items", raw)]]).compile "en" = .ok c := by decide +kernel
  have hparse : Plural.parse raw = .ok branches := by decide +kernel
  obtain ⟨hread, -, hrecords⟩ := branchKeys_nodup_iff hc
  have hnone : Plural.RepeatsNone raw := (hread raw branches hparse).2.1 (by decide)
  obtain ⟨records, hlines, hlocales, hkeys⟩ := hrecords t List.mem_cons_self
  have hvalue : valueLines t.resolved = records.flatMap BranchRecord.lines := by
    have hflat := hlines false
    simpa [tokenLines] using hflat
  refine ⟨c, hc, hnone, t, List.mem_cons_self, records, hvalue, hlocales, fun r hr => ?_⟩
  have hlocale : r.locale ∈ c.locales := hlocales ▸ List.mem_map_of_mem hr
  obtain ⟨text, own, htext, -, -, hiff⟩ :=
    hkeys r hr _ List.mem_cons_self (List.mem_singleton.1 hlocale).symm
  have hraw : text = raw := by
    rcases htext with rfl | ⟨entry, hentry, rfl⟩
    · rfl
    · cases hentry
      rfl
  exact hiff.2 (hraw ▸ hnone)

/-- A category that is written twice is a key twice. -/
theorem exists_branchKeys_not_nodup :
    let raw := "\x7bcount, plural, one [a] one [b]\x7d"
    Plural.parse raw = .ok [⟨.one, "a"⟩, ⟨.one, "b"⟩] ∧
    ∃ c, (ofList [.ofPairs "en" [("items", raw)]]).compile "en" = .ok c ∧
      ∃ t ∈ c.bucket .pluralWithArgs, ∃ r : BranchRecord,
        tokenLines false t = ["  items: \x7b"] ++ r.lines ++ ["  \x7d,"] ∧
        r.keys = ["one", "one"] := by
  intro raw
  let branches : List Plural.Branch := [⟨.one, "a"⟩, ⟨.one, "b"⟩]
  let t : CompiledToken := ⟨"items", .pluralWithArgs [⟨"count", .number⟩],
    .plural (.ofList [("en", branches)]), raw⟩
  refine ⟨by decide +kernel, ⟨"en", ["en"], [t], []⟩, by decide +kernel, t, List.mem_cons_self,
    branchRecord "en" branches, ?_, ?_⟩
  · decide +kernel
  · decide +kernel

end LocaleSet

end Phrasebook
