import Phrasebook.Dictionary
import Phrasebook.Proofs.OrderedMap

/-!
# Looking up tokens and locales

A token has an entry in a dictionary exactly if the entry stands in its list, and a locale has a
dictionary in a locale set exactly if one of the dictionaries is for it. Messages with distinct
tokens make a dictionary of just these messages (`entries_ofPairs`), and dictionaries with distinct
locales a locale set of just these dictionaries (`dictionaries_ofList`).
-/

namespace Phrasebook

namespace Dictionary

theorem entry?_eq_some_iff {d : Dictionary} {token : String} {entry : Entry} :
    d.entry? token = some entry ↔ (token, entry) ∈ d.entries.entries :=
  OrderedMap.get?_eq_some_iff

theorem contains_iff {d : Dictionary} {token : String} :
    d.contains token = true ↔ token ∈ d.tokens := OrderedMap.contains_iff

theorem tokens_nodup (d : Dictionary) : d.tokens.Nodup := d.entries.keys_nodup

theorem contains_of_entry? {d : Dictionary} {token : String} {entry : Entry}
    (h : d.entry? token = some entry) : d.contains token = true := by
  rw [contains, OrderedMap.contains, show d.entries.get? token = some entry from h]
  rfl

/-- Storing messages one after another is inserting them into the map of entries. -/
theorem foldl_insert (d : Dictionary) (pairs : List (String × String)) :
    pairs.foldl (fun d p => d.insert p.1 p.2) d =
      { d with entries := d.entries.insertMany (pairs.map fun p => (p.1, { value := p.2 })) } := by
  induction pairs generalizing d with
  | nil => rfl
  | cons p pairs ih =>
    rw [List.foldl_cons, ih]
    rfl

theorem ofPairs_eq (locale : String) (pairs : List (String × String)) :
    ofPairs locale pairs =
      { locale, entries := .ofList (pairs.map fun p => (p.1, { value := p.2 })) } :=
  foldl_insert { locale } pairs

theorem locale_ofPairs (locale : String) (pairs : List (String × String)) :
    (ofPairs locale pairs).locale = locale := by
  rw [ofPairs_eq]

theorem entries_ofPairs {locale : String} {pairs : List (String × String)}
    (h : (pairs.map Prod.fst).Nodup) :
    (ofPairs locale pairs).entries.entries = pairs.map fun p => (p.1, { value := p.2 }) := by
  rw [ofPairs_eq]
  apply OrderedMap.entries_ofList
  rw [List.map_map]
  exact h

end Dictionary

namespace LocaleSet

theorem locales_nodup (s : LocaleSet) : s.locales.Nodup := s.byLocale.keys_nodup

theorem nodup_map_locale (s : LocaleSet) : (s.dictionaries.map (·.locale)).Nodup := by
  rw [map_locale_dictionaries]
  exact s.locales_nodup

theorem get?_eq_some_iff {s : LocaleSet} {locale : String} {d : Dictionary} :
    s.get? locale = some d ↔ d ∈ s.dictionaries ∧ d.locale = locale := by
  rw [get?, OrderedMap.get?_eq_some_iff, dictionaries, OrderedMap.values, List.mem_map]
  constructor
  · intro h
    exact ⟨⟨_, h, rfl⟩, s.locale_eq _ h⟩
  · rintro ⟨⟨e, he, rfl⟩, rfl⟩
    rw [s.locale_eq e he]
    exact he

theorem isEmpty_of_get? {s : LocaleSet} {locale : String} {d : Dictionary}
    (h : s.get? locale = some d) : s.isEmpty = false := by
  have hmem := OrderedMap.get?_eq_some_iff.1 h
  rw [isEmpty, OrderedMap.isEmpty, List.isEmpty_eq_false_iff_exists_mem]
  exact ⟨_, hmem⟩

theorem exists_get?_of_mem {s : LocaleSet} {locale : String} (h : locale ∈ s.locales) :
    ∃ d, s.get? locale = some d := by
  rw [← map_locale_dictionaries] at h
  obtain ⟨d, hd, rfl⟩ := List.mem_map.1 h
  exact ⟨d, get?_eq_some_iff.2 ⟨hd, rfl⟩⟩

theorem byLocale_foldl_insert (s : LocaleSet) (ds : List Dictionary) :
    (ds.foldl insert s).byLocale = s.byLocale.insertMany (ds.map fun d => (d.locale, d)) := by
  induction ds generalizing s with
  | nil => rfl
  | cons d ds ih =>
    rw [List.foldl_cons, ih]
    rfl

theorem dictionaries_ofList {ds : List Dictionary} (h : (ds.map (·.locale)).Nodup) :
    (ofList ds).dictionaries = ds := by
  have hentries : (ofList ds).byLocale.entries = ds.map fun d => (d.locale, d) := by
    unfold ofList
    rw [byLocale_foldl_insert]
    apply OrderedMap.entries_ofList
    rw [List.map_map]
    exact h
  show (ofList ds).byLocale.entries.map Prod.snd = ds
  rw [hentries, List.map_map]
  exact List.map_id ds

end LocaleSet

end Phrasebook
