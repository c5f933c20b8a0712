import Phrasebook.Proofs.Compilation.Complete
import Phrasebook.Proofs.Compilation.Contract
import Phrasebook.Proofs.Literal.PropertyName

/-!
# The keys of an entry

The entry of a token in a table is a record with a field for each locale and, in a table that
records arguments, one for these. Nothing keeps two fields from having the same key: locales that
differ only in hyphens and underscores are written alike, and a locale may be named as the field of
the arguments is. These are the only ways (`entryKeys_nodup_iff`), as far as locales have no
backslash in them: a backslash is not escaped in a key.
-/

namespace Phrasebook

namespace Literal

variable {key other locale : String}

/-- Keys without backslashes are told apart by how they are written. -/
theorem quoteKey_inj (hk : '\\' ∉ key.toList) (ho : '\\' ∉ other.toList)
    (h : quoteKey key = quoteKey other) : key = other := by
  unfold quoteKey at h
  split at h <;> split at h
  · exact h
  · rename_i hbare _
    refine absurd (head?_singleQuoted other) ?_
    rw [← h]
    exact head?_of_isBareKey hbare
  · rename_i _ hbare
    refine absurd (head?_singleQuoted key) ?_
    rw [h]
    exact head?_of_isBareKey hbare
  · have hquoted := congrArg String.toList h
    rw [toList_singleQuoted, toList_singleQuoted] at hquoted
    exact eq_of_quoted_eq (by decide) hk ho hquoted

theorem toList_outputLocale (locale : String) :
    (outputLocale locale).toList = locale.toList.map fun c => if c = '_' then '-' else c := by
  simp [outputLocale]

theorem backslash_not_mem_outputLocale (h : '\\' ∉ locale.toList) :
    '\\' ∉ (outputLocale locale).toList := by
  rw [toList_outputLocale, List.mem_map]
  rintro ⟨c, hc, heq⟩
  split at heq
  · exact absurd heq (by decide)
  · exact h (heq ▸ hc)

/-- A locale is written as it is if what is written for it has no hyphen. -/
theorem outputLocale_eq_self (h : '-' ∉ (outputLocale locale).toList) :
    outputLocale locale = locale := by
  rw [toList_outputLocale] at h
  apply String.toList_inj.1
  rw [toList_outputLocale]
  refine (List.map_congr_left fun c hc => if_neg fun hu => h ?_).trans (List.map_id _)
  exact List.mem_map.2 ⟨c, hc, if_pos hu⟩

end Literal

namespace Module

open Literal

/-! ## The fields of an entry -/

/-- A field of the entry of a token: its key, what stands behind the key on the same line, and the
lines that follow. -/
structure EntryField where
  key : String
  value : String
  further : List String := []

def EntryField.lines (f : EntryField) : List String :=
  ("    " ++ f.key ++ ": " ++ f.value) :: f.further

/-- The fields for the locales. -/
def valueFields : Resolved → List EntryField
  | .simple texts => texts.entries.map fun (locale, text) =>
    ⟨localeKey locale, doubleQuoted text ++ ",", []⟩
  | .plural values => values.entries.map fun (locale, branches) =>
    ⟨localeKey locale, "\x7b",
      (branches.map fun b =>
        "      " ++ b.category.keyword ++ ": " ++ doubleQuoted b.text ++ ",") ++ ["    \x7d,"]⟩

/-- The field of the arguments. -/
def argumentField (t : CompiledToken) : EntryField :=
  ⟨"args", argumentRecord t.kind.args ++ ",", []⟩

/-- The fields of the entry of a token. -/
def entryFields (withArgs : Bool) (t : CompiledToken) : List EntryField :=
  valueFields t.resolved ++ if withArgs then [argumentField t] else []

/-- The keys in the entry of a token. -/
def entryKeys (withArgs : Bool) (t : CompiledToken) : List String :=
  (entryFields withArgs t).map (·.key)

theorem flatMap_lines_valueFields (r : Resolved) :
    (valueFields r).flatMap (·.lines) = valueLines r := by
  cases r with
  | simple texts =>
    show (texts.entries.map _).flatMap _ = texts.entries.map _
    rw [List.flatMap_map, List.map_eq_flatMap]
    apply List.flatMap_congr
    intro e _
    simp [EntryField.lines, String.append_assoc]
  | plural values =>
    show (values.entries.map _).flatMap _ = values.entries.flatMap _
    rw [List.flatMap_map]
    apply List.flatMap_congr
    intro e _
    simp [EntryField.lines, String.append_assoc]

theorem lines_argumentField (t : CompiledToken) : (argumentField t).lines = [argumentLine t] := by
  have hkey : "    " ++ "args" ++ ": " = "    args: " := by decide
  show ["    " ++ "args" ++ ": " ++ (argumentRecord t.kind.args ++ ",")] = [argumentLine t]
  rw [hkey, argumentLine, String.append_assoc]

/-- An entry is its fields, one after another. -/
theorem tokenLines_eq (withArgs : Bool) (t : CompiledToken) :
    tokenLines withArgs t = ["  " ++ quoteKey t.name ++ ": \x7b"] ++
      (entryFields withArgs t).flatMap (·.lines) ++ ["  \x7d,"] := by
  unfold tokenLines entryFields
  rw [List.flatMap_append, flatMap_lines_valueFields, List.append_assoc]
  cases withArgs with
  | false => simp
  | true => simp [lines_argumentField]

/-- The keys are those of the locales in their order, and then that of the arguments. -/
theorem entryKeys_eq (withArgs : Bool) (t : CompiledToken) :
    entryKeys withArgs t =
      t.resolved.locales.map localeKey ++ if withArgs then ["args"] else [] := by
  have hvalues : (valueFields t.resolved).map (·.key) = t.resolved.locales.map localeKey := by
    cases t.resolved <;> simp [valueFields, Resolved.locales, OrderedMap.keys]
  unfold entryKeys entryFields
  rw [List.map_append, hvalues]
  cases withArgs <;> rfl

/-! ## The tables of the module -/

structure Table where
  header : Section
  withArgs : Bool
  tokens : List CompiledToken

def Table.toSection (t : Table) : Section := tableSection t.header t.withArgs t.tokens

/-- The tables of the merged module. -/
def mergedTables (c : Compilation) (o : ModuleOptions) : List Table :=
  [⟨typedHeader o "simpleDictionaryNoArgs" "TokenSimpleNoArgs", false, c.bucket .simpleNoArgs⟩,
   ⟨if o.schema = .nested then plainHeader "simpleDictionaryWithArgs"
      else typedHeader o "simpleDictionaryWithArgs" "TokenSimpleWithArgs",
    o.schema = .nested, c.bucket .simpleWithArgs⟩,
   ⟨plainHeader "pluralsDictionaryWithArgs", o.schema = .nested, c.bucket .pluralWithArgs⟩]

/-- The merged module is its types and its tables. -/
theorem mergedSections_eq (c : Compilation) (o : ModuleOptions) :
    mergedSections c o = typeSections c o ++ (mergedTables c o).map (·.toSection) := rfl

theorem mem_tokens_of_mem_table {c : Compilation} {o : ModuleOptions} {table : Table}
    (h : table ∈ mergedTables c o) : ∀ t ∈ table.tokens, t ∈ c.tokens := by
  simp only [mergedTables, List.mem_cons, List.not_mem_nil, or_false] at h
  rcases h with rfl | rfl | rfl <;> exact fun t ht => (Compilation.mem_bucket_iff.1 ht).1

/-! ## Keys that are distinct -/

theorem nodup_map_localeKey_iff {locales : List String} (h : ∀ l ∈ locales, '\\' ∉ l.toList) :
    (locales.map localeKey).Nodup ↔ (locales.map outputLocale).Nodup := by
  have hkeys : locales.map localeKey = (locales.map outputLocale).map quoteKey := by
    rw [List.map_map]
    rfl
  have hout : ∀ key ∈ locales.map outputLocale, '\\' ∉ key.toList := by
    intro key hkey
    obtain ⟨l, hl, rfl⟩ := List.mem_map.1 hkey
    exact backslash_not_mem_outputLocale (h l hl)
  rw [hkeys]
  refine ⟨List.Nodup.of_map _, List.Nodup.map_on fun key hkey other hother => ?_⟩
  exact quoteKey_inj (hout key hkey) (hout other hother)

/-- The key of the arguments is that of the locale of this name alone. -/
theorem args_mem_map_localeKey_iff {locales : List String} (h : ∀ l ∈ locales, '\\' ∉ l.toList) :
    "args" ∈ locales.map localeKey ↔ "args" ∈ locales := by
  have hargs : localeKey "args" = "args" := by decide +kernel
  constructor
  · intro hmem
    obtain ⟨l, hl, hkey⟩ := List.mem_map.1 hmem
    have hout : outputLocale l = "args" :=
      quoteKey_inj (backslash_not_mem_outputLocale (h l hl)) (by decide) hkey
    have hself : outputLocale l = l := outputLocale_eq_self (by rw [hout]; decide)
    rw [← hout, hself]
    exact hl
  · intro hmem
    exact List.mem_map.2 ⟨"args", hmem, hargs⟩

theorem nodup_entryKeys_iff {t : CompiledToken} (withArgs : Bool)
    (h : ∀ l ∈ t.resolved.locales, '\\' ∉ l.toList) :
    (entryKeys withArgs t).Nodup ↔ (t.resolved.locales.map outputLocale).Nodup ∧
      (withArgs = true → "args" ∉ t.resolved.locales) := by
  rw [entryKeys_eq, ← nodup_map_localeKey_iff h, ← args_mem_map_localeKey_iff h]
  cases withArgs <;> simp [List.nodup_append]

end Module

open Literal

/-- **The keys of an entry.** A merged module is its types and its tables. In every entry of a table
there is a field for each locale, and one for the arguments if the table records them; and the keys
of the fields are distinct exactly if no two locales differ only in hyphens and underscores and, in
a table that records arguments, no locale is named `args`. -/
theorem LocaleSet.entryKeys_nodup_iff {locales : LocaleSet} {source : String} {c : Compilation}
    (h : locales.compile source = .ok c) (hlocales : ∀ l ∈ c.locales, '\\' ∉ l.toList)
    {o : ModuleOptions} (ho : o.mode = .merged) :
    c.sections o = Module.typeSections c o ++ (Module.mergedTables c o).map (·.toSection) ∧
      ∀ table ∈ Module.mergedTables c o, ∀ t ∈ table.tokens,
        Module.tokenLines table.withArgs t = ["  " ++ quoteKey t.name ++ ": \x7b"] ++
          (Module.entryFields table.withArgs t).flatMap (·.lines) ++ ["  \x7d,"] ∧
        Module.entryKeys table.withArgs t =
          c.locales.map localeKey ++ (if table.withArgs then ["args"] else []) ∧
        ((Module.entryKeys table.withArgs t).Nodup ↔ (c.locales.map outputLocale).Nodup ∧
          (table.withArgs = true → "args" ∉ c.locales)) := by
  obtain ⟨d, _, hcomplete⟩ := isComplete_of_compile h
  refine ⟨?_, ?_⟩
  · unfold Compilation.sections
    rw [ho]
    exact Module.mergedSections_eq c o
  · intro table htable t ht
    have hresolved := hcomplete.resolved_locales t (Module.mem_tokens_of_mem_table htable t ht)
    rw [← hresolved] at hlocales ⊢
    exact ⟨Module.tokenLines_eq _ t, Module.entryKeys_eq _ t, Module.nodup_entryKeys_iff _ hlocales⟩

/-- The tables record arguments, and one of the locales is written with a hyphen. -/
theorem LocaleSet.exists_entryKeys_nodup :
    ∃ c, (ofList [.sample, .ofPairs "zh_CN" [("hi", "")]]).compile "en" = .ok c ∧
      ∀ table ∈ Module.mergedTables c { schema := .nested }, ∀ t ∈ table.tokens,
        (Module.entryKeys table.withArgs t).Nodup := by
  obtain ⟨c, hc⟩ := exists_compile_sample
    (show (ofList [.sample, .ofPairs "zh_CN" [("hi", "")]]).get? "en" = some .sample from rfl)
  have hlist : c.locales = ["en", "zh_CN"] := locales_of_compile hc
  have hbackslash : ∀ l ∈ c.locales, '\\' ∉ l.toList := by
    rw [hlist]
    decide
  obtain ⟨_, hkeys⟩ := entryKeys_nodup_iff hc hbackslash
    (show ({ schema := .nested } : ModuleOptions).mode = .merged from rfl)
  refine ⟨c, hc, fun table htable t ht => ?_⟩
  obtain ⟨_, _, hiff⟩ := hkeys table htable t ht
  rw [hlist] at hiff
  exact hiff.2 ⟨by decide +kernel, fun _ => by decide⟩

/-- Two locales with the same key, and a locale with the key of the arguments. -/
theorem LocaleSet.exists_entryKeys_not_nodup :
    (∃ c, (ofList [.ofPairs "en" [("hi", "Hello")], .ofPairs "zh_CN" [],
        .ofPairs "zh-CN" []]).compile "en" = .ok c ∧
      ∃ table ∈ Module.mergedTables c {}, ∃ t ∈ table.tokens,
        Module.entryKeys table.withArgs t = ["en", "'zh-CN'", "'zh-CN'"] ∧
        ¬ (Module.entryKeys table.withArgs t).Nodup) ∧
    ∃ c, (ofList [.ofPairs "en" [("bye", "Bye \x7bname\x7d")],
        .ofPairs "args" []]).compile "en" = .ok c ∧
      ∃ table ∈ Module.mergedTables c { schema := .nested }, ∃ t ∈ table.tokens,
        Module.entryKeys table.withArgs t = ["en", "args", "args"] ∧
        ¬ (Module.entryKeys table.withArgs t).Nodup := by
  constructor
  · refine ⟨_, rfl, _, List.mem_cons_self, _, List.mem_cons_self, ?_⟩
    decide +kernel
  · refine ⟨_, rfl, _, List.mem_cons_of_mem _ List.mem_cons_self, _, List.mem_cons_self, ?_⟩
    decide +kernel

end Phrasebook
