import Mathlib.Data.Finset.Card
import Phrasebook.Proofs.Dictionary
import Phrasebook.Proofs.Firsts

/-!
# What has been stored

Dictionaries are made by storing messages in them, and locale sets by storing dictionaries. Whatever
has been stored and in whatever order, a key is there once, in the place of the first time and with
the value of the last time (`Workbench.keeps_run`): of a token also the position goes with the last
message, and of a locale the dictionary as a whole, as it was when it was stored.
-/

namespace Phrasebook

/-! ## Maps -/

section Map

variable {κ α : Type}

/-- The value has been stored under the key, and no other after it. -/
def StoredLast (history : List (κ × α)) (key : κ) (value : α) : Prop :=
  ∃ before after, history = before ++ (key, value) :: after ∧ key ∉ after.map Prod.fst

variable {history : List (κ × α)} {key k : κ} {value v : α}

theorem not_storedLast_nil : ¬ StoredLast ([] : List (κ × α)) key value := by
  rintro ⟨before, after, heq, -⟩
  exact List.append_ne_nil_of_right_ne_nil before (List.cons_ne_nil _ _) heq.symm

variable [DecidableEq κ]

/-- What is stored next is the last of its key, and leaves the other keys as they are. -/
theorem storedLast_concat :
    StoredLast (history ++ [(key, value)]) k v ↔
      if k = key then value = v else StoredLast history k v := by
  constructor
  · rintro ⟨before, after, heq, hnot⟩
    rcases List.eq_nil_or_concat' after with rfl | ⟨after, last, rfl⟩
    · obtain ⟨-, hlast⟩ := List.append_inj' heq rfl
      obtain ⟨rfl, rfl⟩ := Prod.mk.inj (List.cons.inj hlast).1
      rw [if_pos rfl]
    · rw [← List.cons_append, ← List.append_assoc] at heq
      obtain ⟨hhistory, hlast⟩ := List.append_inj' heq rfl
      rw [← (List.cons.inj hlast).1, List.map_append, List.mem_append, not_or] at hnot
      rw [if_neg fun he => hnot.2 (List.mem_singleton.2 he)]
      exact ⟨before, after, hhistory, hnot.1⟩
  · split
    · rename_i hk
      rintro rfl
      exact ⟨history, [], by rw [hk], List.not_mem_nil⟩
    · rename_i hk
      rintro ⟨before, after, rfl, hnot⟩
      refine ⟨before, after ++ [(key, value)], by simp, ?_⟩
      rw [List.map_append, List.mem_append, not_or]
      exact ⟨hnot, fun hmem => hk (List.mem_singleton.1 hmem)⟩

theorem Firsts.length_eq_card {xs ys : List κ} (h : Firsts xs ys) :
    ys.length = xs.toFinset.card := by
  rw [← List.toFinset_card_of_nodup h.nodup]
  congr 1
  ext a
  rw [List.mem_toFinset, List.mem_toFinset, h.mem_iff]

namespace OrderedMap

/-- The map has the keys of a history in the order in which they first came, each with the value
that it was given last. -/
structure Keeps (m : OrderedMap κ α) (history : List (κ × α)) : Prop where
  firsts_keys : Firsts (history.map Prod.fst) m.keys
  get?_iff : ∀ key value, m.get? key = some value ↔ StoredLast history key value

variable {m : OrderedMap κ α}

theorem keeps_empty : (∅ : OrderedMap κ α).Keeps [] where
  firsts_keys := Firsts.nil
  get?_iff _ _ := ⟨nofun, fun h => absurd h not_storedLast_nil⟩

/-- **Storing one more value.** -/
theorem Keeps.insert (h : m.Keeps history) (key : κ) (value : α) :
    (m.insert key value).Keeps (history ++ [(key, value)]) where
  firsts_keys := by
    rw [List.map_append]
    exact firsts_keys_insert h.firsts_keys key value
  get?_iff k v := by
    rw [get?_insert, storedLast_concat]
    split
    · exact Option.some_inj
    · exact h.get?_iff k v

theorem Keeps.insertMany (h : m.Keeps history) (pairs : List (κ × α)) :
    (m.insertMany pairs).Keeps (history ++ pairs) := by
  induction pairs generalizing m history with
  | nil =>
    rw [List.append_nil]
    exact h
  | cons p pairs ih =>
    rw [List.append_cons]
    exact ih (h.insert p.1 p.2)

theorem Keeps.contains_iff (h : m.Keeps history) :
    m.contains key = true ↔ key ∈ history.map Prod.fst :=
  OrderedMap.contains_iff.trans (h.firsts_keys.mem_iff key)

theorem Keeps.size_eq (h : m.Keeps history) : m.size = (history.map Prod.fst).toFinset.card := by
  rw [← h.firsts_keys.length_eq_card, keys, List.length_map]
  rfl

end OrderedMap

end Map

/-! ## Dictionaries and locale sets -/

/-- The dictionary has the tokens of a history, each once and in the order in which they first came,
with the message and the position that were stored last. -/
structure Dictionary.Keeps (d : Dictionary) (history : List (String × Entry)) : Prop where
  nodup_tokens : d.tokens.Nodup
  firsts_tokens : Firsts (history.map Prod.fst) d.tokens
  entry?_iff : ∀ token entry, d.entry? token = some entry ↔ StoredLast history token entry
  get?_iff : ∀ token value,
    d.get? token = some value ↔ ∃ position, StoredLast history token ⟨value, position⟩
  contains_iff : ∀ token, d.contains token = true ↔ token ∈ history.map Prod.fst
  size_eq : d.size = (history.map Prod.fst).toFinset.card

theorem Dictionary.keeps_of_entries {d : Dictionary} {history : List (String × Entry)}
    (h : d.entries.Keeps history) : d.Keeps history where
  nodup_tokens := d.tokens_nodup
  firsts_tokens := h.firsts_keys
  entry?_iff := h.get?_iff
  get?_iff token value := by
    rw [Dictionary.get?, Option.map_eq_some_iff]
    constructor
    · rintro ⟨⟨_, position⟩, hentry, rfl⟩
      exact ⟨position, (h.get?_iff _ _).1 hentry⟩
    · rintro ⟨position, hlast⟩
      exact ⟨⟨value, position⟩, (h.get?_iff _ _).2 hlast, rfl⟩
  contains_iff _ := h.contains_iff
  size_eq := h.size_eq

/-- The locale set has the locales of some dictionaries, each once and in the order in which they
first came, with the dictionary for it that was stored last. -/
structure LocaleSet.Keeps (s : LocaleSet) (ds : List Dictionary) : Prop where
  nodup_locales : s.locales.Nodup
  firsts_locales : Firsts (ds.map (·.locale)) s.locales
  get?_iff : ∀ locale d,
    s.get? locale = some d ↔ StoredLast (ds.map fun d => (d.locale, d)) locale d
  locale_of_get? : ∀ locale d, s.get? locale = some d → d.locale = locale
  dictionaries_eq : s.dictionaries.map (·.locale) = s.locales
  contains_iff : ∀ locale, s.contains locale = true ↔ locale ∈ ds.map (·.locale)
  size_eq : s.size = (ds.map (·.locale)).toFinset.card

theorem LocaleSet.keeps_of_byLocale {s : LocaleSet} {ds : List Dictionary}
    (h : s.byLocale.Keeps (ds.map fun d => (d.locale, d))) : s.Keeps ds := by
  have hlocales : (ds.map fun d => (d.locale, d)).map Prod.fst = ds.map (·.locale) :=
    List.map_map ..
  have hfirsts := h.firsts_keys
  have hsize := h.size_eq
  rw [hlocales] at hfirsts hsize
  refine ⟨s.locales_nodup, hfirsts, h.get?_iff, ?_, s.map_locale_dictionaries, ?_, hsize⟩
  · intro locale d hd
    exact (LocaleSet.get?_eq_some_iff.1 hd).2
  · intro locale
    rw [← hlocales]
    exact h.contains_iff

/-! ## Operations -/

/-- Dictionaries in the making, each at a place of its own, and the locale set that they are put
into. -/
structure Workbench where
  dictionaries : Nat → Dictionary := fun _ => { locale := "" }
  locales : LocaleSet := ∅

/-- What can be done on a workbench, and at which place. -/
inductive Operation where
  /-- Begins a dictionary with nothing in it. -/
  | new (place : Nat) (locale : String) (file : Option String)
  /-- Begins a dictionary of some messages. -/
  | ofPairs (place : Nat) (locale : String) (pairs : List (String × String))
  | insert (place : Nat) (token value : String)
  | insertEntry (place : Nat) (token : String) (entry : Entry)
  /-- Puts the dictionary, as it is now, into the locale set. -/
  | store (place : Nat)

namespace Workbench

/-- The workbench with another dictionary at a place. -/
def lay (b : Workbench) (place : Nat) (d : Dictionary) : Workbench :=
  { b with dictionaries := Function.update b.dictionaries place d }

@[simp] theorem dictionaries_lay_self (b : Workbench) (place : Nat) (d : Dictionary) :
    (b.lay place d).dictionaries place = d := Function.update_self ..

theorem dictionaries_lay_of_ne {place i : Nat} (h : i ≠ place) (b : Workbench) (d : Dictionary) :
    (b.lay place d).dictionaries i = b.dictionaries i := Function.update_of_ne h ..

def apply (b : Workbench) : Operation → Workbench
  | .new place locale file => b.lay place { locale, file }
  | .ofPairs place locale pairs => b.lay place (.ofPairs locale pairs)
  | .insert place token value => b.lay place ((b.dictionaries place).insert token value)
  | .insertEntry place token entry => b.lay place ((b.dictionaries place).insertEntry token entry)
  | .store place => { b with locales := b.locales.insert (b.dictionaries place) }

/-- The workbench after some operations. -/
def run (ops : List Operation) : Workbench := ops.foldl apply {}

/-- What has been stored in the dictionary at a place since it was begun, with one operation more. A
message without an entry of its own comes with no position. -/
def record (place : Nat) (history : List (String × Entry)) : Operation → List (String × Entry)
  | .new i _ _ => if i = place then [] else history
  | .ofPairs i _ pairs =>
    if i = place then pairs.map fun p => (p.1, { value := p.2, position := none }) else history
  | .insert i token value =>
    if i = place then history ++ [(token, { value, position := none })] else history
  | .insertEntry i token entry => if i = place then history ++ [(token, entry)] else history
  | .store _ => history

/-- What has been stored in the dictionary at a place since it was begun. -/
def written (place : Nat) (ops : List Operation) : List (String × Entry) :=
  ops.foldl (record place) []

/-- The dictionary that an operation puts into the locale set. -/
def stored? (b : Workbench) : Operation → Option Dictionary
  | .store place => some (b.dictionaries place)
  | _ => none

/-- The dictionaries that operations put into the locale set, as they are at that time. -/
def stored (b : Workbench) : List Operation → List Dictionary
  | [] => []
  | op :: ops => (b.stored? op).toList ++ (b.apply op).stored ops

/-- All is kept that has been stored. -/
structure Holds (b : Workbench) (history : Nat → List (String × Entry)) (ds : List Dictionary) :
    Prop where
  dictionaries : ∀ i, (b.dictionaries i).entries.Keeps (history i)
  locales : b.locales.byLocale.Keeps (ds.map fun d => (d.locale, d))

variable {b : Workbench} {history : Nat → List (String × Entry)} {ds : List Dictionary}

theorem holds_start : Holds {} (fun _ => []) [] :=
  ⟨fun _ => OrderedMap.keeps_empty, OrderedMap.keeps_empty⟩

/-- A dictionary is laid at a place and the others stay. -/
theorem keeps_lay {place : Nat} {d : Dictionary} (new : Nat → List (String × Entry))
    (h : ∀ i, (b.dictionaries i).entries.Keeps (history i)) (hd : d.entries.Keeps (new place))
    (i : Nat) :
    ((b.lay place d).dictionaries i).entries.Keeps (if place = i then new i else history i) := by
  by_cases hi : place = i
  · subst hi
    rw [dictionaries_lay_self, if_pos rfl]
    exact hd
  · rw [dictionaries_lay_of_ne (Ne.symm hi), if_neg hi]
    exact h i

/-- **What an operation keeps.** -/
theorem Holds.apply (h : Holds b history ds) (op : Operation) :
    Holds (b.apply op) (fun i => record i (history i) op) (ds ++ (b.stored? op).toList) := by
  obtain ⟨hdictionaries, hlocales⟩ := h
  have hsame : ds ++ (none : Option Dictionary).toList = ds := List.append_nil ds
  cases op with
  | new place locale file =>
    exact ⟨keeps_lay (fun _ => []) hdictionaries OrderedMap.keeps_empty, hsame.symm ▸ hlocales⟩
  | ofPairs place locale pairs =>
    refine ⟨keeps_lay (fun _ => pairs.map _) hdictionaries ?_, hsame.symm ▸ hlocales⟩
    rw [Dictionary.ofPairs_eq]
    exact OrderedMap.keeps_empty.insertMany _
  | insert place token value =>
    refine ⟨?_, hsame.symm ▸ hlocales⟩
    exact keeps_lay (fun i => history i ++ _) hdictionaries ((hdictionaries place).insert _ _)
  | insertEntry place token entry =>
    refine ⟨?_, hsame.symm ▸ hlocales⟩
    exact keeps_lay (fun i => history i ++ _) hdictionaries ((hdictionaries place).insert _ _)
  | store place =>
    refine ⟨hdictionaries, ?_⟩
    rw [List.map_append]
    exact hlocales.insert _ _

/-- **What any operations keep.** -/
theorem Holds.foldl (h : Holds b history ds) (ops : List Operation) :
    Holds (ops.foldl Workbench.apply b) (fun i => ops.foldl (record i) (history i))
      (ds ++ b.stored ops) := by
  induction ops generalizing b history ds with
  | nil => exact (List.append_nil ds).symm ▸ h
  | cons op ops ih =>
    have hrest := ih (h.apply op)
    rwa [List.append_assoc] at hrest

/-- **After any operations** every dictionary keeps what has been stored in it and the locale set
the dictionaries that have been put into it. A message that is stored without a position has none,
wherever an earlier one came from. -/
theorem keeps_run (ops : List Operation) :
    (∀ place, ((run ops).dictionaries place).Keeps (written place ops)) ∧
      (∀ place token value,
        Dictionary.entry? (((run ops).apply (.insert place token value)).dictionaries place) token =
          some { value, position := none }) ∧
      (run ops).locales.Keeps (stored {} ops) := by
  have hholds := holds_start.foldl ops
  refine ⟨fun place => Dictionary.keeps_of_entries (hholds.dictionaries place), ?_,
    LocaleSet.keeps_of_byLocale hholds.locales⟩
  intro place token value
  rw [apply, dictionaries_lay_self]
  exact (OrderedMap.get?_insert _ _ _ _).trans (if_pos rfl)

/-- A message that is stored again without a position, in a dictionary whose earlier state is in the
locale set already. -/
example :
    let b := run [.new 0 "en" none, .insertEntry 0 "a" ⟨"1", some ⟨"en.json", 2, 1⟩⟩,
      .insert 0 "b" "2", .store 0, .insert 0 "a" "3"]
    (b.dictionaries 0).tokens = ["a", "b"] ∧
      Dictionary.entry? (b.dictionaries 0) "a" = some ⟨"3", none⟩ ∧
      (b.locales.get? "en").map (·.get? "a") = some (some "1") := by
  decide

end Workbench

end Phrasebook
