import Phrasebook.OrderedMap

/-!
# Dictionaries

The messages of one locale by token, and the dictionaries of all locales of a run. Both keep the
order in which their keys first came: the order of tokens and of locales in the generated module.
-/

namespace Phrasebook

/-- A place in a locale file, for reports only. Lines and columns are counted from one. -/
structure Position where
  file : String
  line : Nat
  column : Nat := 1
  deriving DecidableEq

/-- A message as it was written, and where. -/
structure Entry where
  value : String
  position : Option Position := none
  deriving DecidableEq

/-- The messages of one locale. -/
structure Dictionary where
  locale : String
  /-- The file that the dictionary was loaded from. -/
  file : Option String := none
  entries : OrderedMap String Entry := ∅
  deriving DecidableEq

namespace Dictionary

/-- Stores an entry under a token; a token that is already there keeps its place. -/
def insertEntry (d : Dictionary) (token : String) (entry : Entry) : Dictionary :=
  { d with entries := d.entries.insert token entry }

/-- Stores a message that comes from no file. -/
def insert (d : Dictionary) (token value : String) : Dictionary :=
  d.insertEntry token { value }

/-- The dictionary of a list of tokens and messages. -/
def ofPairs (locale : String) (pairs : List (String × String)) : Dictionary :=
  pairs.foldl (fun d p => d.insert p.1 p.2) { locale }

def entry? (d : Dictionary) (token : String) : Option Entry := d.entries.get? token

def get? (d : Dictionary) (token : String) : Option String := (d.entry? token).map Entry.value

def contains (d : Dictionary) (token : String) : Bool := d.entries.contains token

def tokens (d : Dictionary) : List String := d.entries.keys

/-- How many tokens there are. -/
def size (d : Dictionary) : Nat := d.entries.size

end Dictionary

/-- The dictionaries of a run by their locales. -/
structure LocaleSet where
  byLocale : OrderedMap String Dictionary
  locale_eq : ∀ e ∈ byLocale.entries, e.2.locale = e.1
  deriving DecidableEq

namespace LocaleSet

def empty : LocaleSet := ⟨∅, by simp⟩

instance : EmptyCollection LocaleSet := ⟨empty⟩
instance : Inhabited LocaleSet := ⟨empty⟩

/-- Adds a dictionary in place of an earlier one for its locale. -/
def insert (s : LocaleSet) (d : Dictionary) : LocaleSet where
  byLocale := s.byLocale.insert d.locale d
  locale_eq e he := by
    rcases OrderedMap.mem_put he with h | h
    · subst h; rfl
    · exact s.locale_eq e h

def ofList (ds : List Dictionary) : LocaleSet := ds.foldl insert ∅

def get? (s : LocaleSet) (locale : String) : Option Dictionary := s.byLocale.get? locale

def contains (s : LocaleSet) (locale : String) : Bool := s.byLocale.contains locale

/-- The locales, in the order in which they first came. -/
def locales (s : LocaleSet) : List String := s.byLocale.keys

def dictionaries (s : LocaleSet) : List Dictionary := s.byLocale.values

def size (s : LocaleSet) : Nat := s.byLocale.size

def isEmpty (s : LocaleSet) : Bool := s.byLocale.isEmpty

theorem map_locale_dictionaries (s : LocaleSet) : s.dictionaries.map (·.locale) = s.locales := by
  simp only [dictionaries, OrderedMap.values, locales, OrderedMap.keys, List.map_map]
  exact List.map_congr_left fun e he => s.locale_eq e he

end LocaleSet

end Phrasebook
