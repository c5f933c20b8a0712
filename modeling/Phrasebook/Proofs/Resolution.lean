import Phrasebook.Proofs.Dictionary
import Phrasebook.Proofs.Token
import Phrasebook.Resolution

/-!
# Values in every locale

The value of a token in a locale is a message of the form of its source message, chosen for that
locale alone (`message?_resolve`), and the findings are those of the choices, one at most for each
locale (`findings_resolve`).
-/

namespace Phrasebook

/-- The value in a locale. -/
def Resolved.message? : Resolved → String → Option Message
  | simple texts, locale => (texts.get? locale).map .simple
  | plural values, locale => (values.get? locale).map .plural

/-- The values, with the locales that they are for. -/
def Resolved.messages : Resolved → List (String × Message)
  | simple texts => texts.entries.map fun e => (e.1, .simple e.2)
  | plural values => values.entries.map fun e => (e.1, .plural e.2)

namespace Resolution

variable {α β : Type} {read : String → Except Plural.Error α} {token source : String} {value : α}
  {d : Dictionary}

/-! ## The choice for one locale -/

theorem choose_source (h : d.locale = source) : choose read token source value d = (value, none) :=
  if_pos h

theorem choose_missing (hl : d.locale ≠ source) (h : d.entry? token = none) :
    choose read token source value d =
      (value, some (.fallback token d.locale source .missing d.file)) := by
  rw [choose, if_neg hl, h]

theorem choose_empty {entry : Entry} (hl : d.locale ≠ source) (h : d.entry? token = some entry)
    (he : entry.value = "") :
    choose read token source value d =
      (value, some (.fallback token d.locale source .empty d.file)) := by
  rw [choose, if_neg hl, h]
  exact if_pos he

theorem choose_own {entry : Entry} {own : α} (hl : d.locale ≠ source)
    (h : d.entry? token = some entry) (he : entry.value ≠ "") (hr : read entry.value = .ok own) :
    choose read token source value d = (own, none) := by
  rw [choose, if_neg hl, h]
  dsimp only
  rw [if_neg he, hr]

theorem choose_malformed {entry : Entry} {e : Plural.Error} (hl : d.locale ≠ source)
    (h : d.entry? token = some entry) (he : entry.value ≠ "") (hr : read entry.value = .error e) :
    choose read token source value d =
      (value, some (.malformedPlural token d.locale source e entry.position)) := by
  rw [choose, if_neg hl, h]
  dsimp only
  rw [if_neg he, hr]

/-- The value is that of the source locale unless the locale's own message, which is not empty, has
been read. -/
theorem choose_fst_cases (read : String → Except Plural.Error α) (token source : String) (value : α)
    (d : Dictionary) :
    (choose read token source value d).1 = value ∨
      ∃ text, text ≠ "" ∧ read text = .ok (choose read token source value d).1 := by
  by_cases hl : d.locale = source
  · exact Or.inl (by rw [choose_source hl])
  cases h : d.entry? token with
  | none => exact Or.inl (by rw [choose_missing hl h])
  | some entry =>
    by_cases he : entry.value = ""
    · exact Or.inl (by rw [choose_empty hl h he])
    cases hr : read entry.value with
    | error e => exact Or.inl (by rw [choose_malformed hl h he hr])
    | ok own => exact Or.inr ⟨entry.value, he, by rw [choose_own hl h he hr]; exact hr⟩

/-- Choosing commutes with a change of the form of values. -/
theorem choose_map (read : String → Except Plural.Error α) (f : α → β) :
    choose (fun text => (read text).map f) token source (f value) d =
      (f (choose read token source value d).1, (choose read token source value d).2) := by
  by_cases hl : d.locale = source
  · rw [choose_source hl, choose_source hl]
  cases h : d.entry? token with
  | none => rw [choose_missing hl h, choose_missing hl h]
  | some entry =>
    by_cases he : entry.value = ""
    · rw [choose_empty hl h he, choose_empty hl h he]
    cases hr : read entry.value with
    | error e =>
      rw [choose_malformed hl h he hr, choose_malformed (e := e) hl h he (by rw [hr]; rfl)]
    | ok own => rw [choose_own hl h he hr, choose_own hl h he (by rw [hr]; rfl)]

/-! ## All locales -/

theorem entries_chooseAll (locales : LocaleSet) :
    (chooseAll read token source value locales).1.entries =
      locales.dictionaries.map fun d => (d.locale, (choose read token source value d).1) := by
  apply OrderedMap.entries_ofList
  rw [List.map_map]
  exact locales.nodup_map_locale

end Resolution

namespace Message

open Resolution

variable (m : Message) (token source : String) (locales : LocaleSet)

/-- What the message gives in the locale of a dictionary, with the finding. -/
def inLocale (d : Dictionary) : Message × Option Diagnostic := choose m.read token source m d

theorem choose_simple (text : String) (d : Dictionary) :
    (simple text).inLocale token source d =
      (simple (choose .ok token source text d).1, (choose .ok token source text d).2) :=
  choose_map .ok simple

theorem choose_plural (branches : List Plural.Branch) (d : Dictionary) :
    (plural branches).inLocale token source d =
      (plural (choose Plural.parse token source branches d).1,
        (choose Plural.parse token source branches d).2) :=
  choose_map Plural.parse plural

/-- The values of a message, by the locales of the set in their order. -/
theorem messages_resolve :
    (m.resolve token source locales).1.messages =
      locales.dictionaries.map fun d => (d.locale, (m.inLocale token source d).1) := by
  cases m with
  | simple text =>
    show ((chooseAll .ok token source text locales).1.entries.map _) = _
    rw [entries_chooseAll, List.map_map]
    apply List.map_congr_left
    intro d _
    rw [choose_simple]
    rfl
  | plural branches =>
    show ((chooseAll Plural.parse token source branches locales).1.entries.map _) = _
    rw [entries_chooseAll, List.map_map]
    apply List.map_congr_left
    intro d _
    rw [choose_plural]
    rfl

/-- The findings of a message, one at most for each locale. -/
theorem findings_resolve :
    (m.resolve token source locales).2 =
      locales.dictionaries.filterMap fun d => (m.inLocale token source d).2 := by
  cases m with
  | simple text =>
    refine congrArg (locales.dictionaries.filterMap ·) (funext fun d => ?_)
    rw [choose_simple]
  | plural branches =>
    refine congrArg (locales.dictionaries.filterMap ·) (funext fun d => ?_)
    rw [choose_plural]

end Message

namespace Resolved

theorem map_fst_messages (r : Resolved) : r.messages.map Prod.fst = r.locales := by
  cases r <;> exact List.map_map ..

theorem message?_eq_some_iff {r : Resolved} {locale : String} {m : Message} :
    r.message? locale = some m ↔ (locale, m) ∈ r.messages := by
  cases r with
  | simple texts => exact OrderedMap.map_get?_eq_some_iff
  | plural values => exact OrderedMap.map_get?_eq_some_iff

end Resolved

namespace Message

variable {m : Message} {token source : String} {locales : LocaleSet}

theorem locales_resolve : (m.resolve token source locales).1.locales = locales.locales := by
  rw [← Resolved.map_fst_messages, messages_resolve, List.map_map, ← locales.map_locale_dictionaries]
  rfl

/-- The value in a locale is the one chosen for its dictionary. -/
theorem message?_resolve {d : Dictionary} (hd : d ∈ locales.dictionaries) :
    (m.resolve token source locales).1.message? d.locale = some (m.inLocale token source d).1 := by
  rw [Resolved.message?_eq_some_iff, messages_resolve]
  exact List.mem_map_of_mem (f := fun d => (d.locale, (m.inLocale token source d).1)) hd

theorem hasWording_inLocale (h : m.HasWording) (d : Dictionary) :
    (m.inLocale token source d).1.HasWording := by
  rcases Resolution.choose_fst_cases m.read token source m d with hv | ⟨text, _, hr⟩
  · rw [inLocale, hv]
    exact h
  · exact hasWording_of_read hr

end Message

end Phrasebook
