import Phrasebook.Diagnostic.Basic
import Phrasebook.Token

/-!
# Resolution

Every locale gets a value for every token. Its own message serves if there is one, if it is not
empty and, for a plural token, if it can be read; otherwise the source message serves as a whole,
and a finding tells why. The source locale always keeps its own message.
-/

namespace Phrasebook

/-- The value of a token in each locale. -/
inductive Resolved where
  | simple (texts : OrderedMap String String)
  | plural (branches : OrderedMap String (List Plural.Branch))
  deriving DecidableEq

namespace Resolved

def locales : Resolved → List String
  | simple texts => texts.keys
  | plural branches => branches.keys

end Resolved

namespace Resolution

variable {α : Type}

/-- The value of a token in the locale of a dictionary, and the finding if it is not the locale's
own. `read` takes the locale's message, `value` is that of the source locale `source`. -/
def choose (read : String → Except Plural.Error α) (token source : String) (value : α)
    (d : Dictionary) : α × Option Diagnostic :=
  if d.locale = source then (value, none)
  else
    match d.entry? token with
    | none => (value, some (.fallback token d.locale source .missing d.file))
    | some entry =>
      if entry.value = "" then (value, some (.fallback token d.locale source .empty d.file))
      else
        match read entry.value with
        | .ok own => (own, none)
        | .error e => (value, some (.malformedPlural token d.locale source e entry.position))

/-- The values of a token in all locales, and the findings, both in the order of the locales. -/
def chooseAll (read : String → Except Plural.Error α) (token source : String) (value : α)
    (locales : LocaleSet) : OrderedMap String α × List Diagnostic :=
  (.ofList (locales.dictionaries.map fun d => (d.locale, (choose read token source value d).1)),
   locales.dictionaries.filterMap fun d => (choose read token source value d).2)

end Resolution

/-- The value of a message of the source locale in every locale. -/
def Message.resolve (message : Message) (token source : String) (locales : LocaleSet) :
    Resolved × List Diagnostic :=
  match message with
  | .simple text =>
    let (texts, findings) := Resolution.chooseAll .ok token source text locales
    (.simple texts, findings)
  | .plural branches =>
    let (values, findings) := Resolution.chooseAll Plural.parse token source branches locales
    (.plural values, findings)

end Phrasebook
