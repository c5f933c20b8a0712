import Phrasebook.Argument.Basic
import Phrasebook.OrderedMap

/-!
# Fragments of argument types

Arguments that recur have a record type of their own, declared once as
`type WithName = {name: string};`. The argument type of a message is the intersection of the
fragments of its registered arguments and of one record for the rest.
-/

namespace Phrasebook

/-- A named record type with one field. -/
structure Fragment where
  name : String
  argument : Variable
  deriving DecidableEq

/-- The declaration of the fragment. The field is written as it is, without quotes. -/
def Fragment.declaration (f : Fragment) : String :=
  "type " ++ f.name ++ " = \x7b" ++ f.argument.name ++ ": " ++ f.argument.type.name ++ "\x7d;"

/-- The argument type of a message: names of fragments, and fields that no fragment has. -/
structure Shape where
  fragments : List String
  inlined : List Variable
  deriving DecidableEq

namespace Shape

def isEmpty (s : Shape) : Bool := s.fragments.isEmpty && s.inlined.isEmpty

/-- The type as it is written: `WithName & WithCount & { extra: string }`. -/
def render (s : Shape) : String :=
  if s.isEmpty then "undefined"
  else
    let inlined :=
      if s.inlined.isEmpty then []
      else ["\x7b " ++ ", ".intercalate (s.inlined.map Variable.field) ++ " \x7d"]
    " & ".intercalate (s.fragments ++ inlined)

end Shape

/-- The fragments in use, by the name of their argument. -/
abbrev Registry := OrderedMap String Fragment

namespace Registry

def ofFragments (fragments : List Fragment) : Registry :=
  .ofList (fragments.map fun f => (f.argument.name, f))

/-- The fragment of a variable, if one is registered for its name and has its type. -/
def fragmentFor? (r : Registry) (v : Variable) : Option Fragment :=
  (r.get? v.name).filter (·.argument.type = v.type)

/-- The argument type of a message with the given variables. -/
def shapeOf (r : Registry) (vs : List Variable) : Shape where
  fragments := vs.filterMap fun v => (r.fragmentFor? v).map Fragment.name
  inlined := vs.filter fun v => (r.fragmentFor? v).isNone

/-- The well-known arguments. -/
def builtin : Registry := ofFragments
  [⟨"WithName", "name", .string⟩,
   ⟨"WithGroupName", "group_name", .string⟩,
   ⟨"WithCommunityName", "community_name", .string⟩,
   ⟨"WithOtherName", "other_name", .string⟩,
   ⟨"WithAuthor", "author", .string⟩,
   ⟨"WithEmoji", "emoji", .string⟩,
   ⟨"WithEmojiName", "emoji_name", .string⟩,
   ⟨"WithAdminName", "admin_name", .string⟩,
   ⟨"WithTime", "time", .string⟩,
   ⟨"WithTimeLarge", "time_large", .string⟩,
   ⟨"WithTimeSmall", "time_small", .string⟩,
   ⟨"WithDisappearingMessagesType", "disappearing_messages_type", .string⟩,
   ⟨"WithConversationName", "conversation_name", .string⟩,
   ⟨"WithFileType", "file_type", .string⟩,
   ⟨"WithDate", "date", .string⟩,
   ⟨"WithDateTime", "date_time", .string⟩,
   ⟨"WithMessageSnippet", "message_snippet", .string⟩,
   ⟨"WithQuery", "query", .string⟩,
   ⟨"WithVersion", "version", .string⟩,
   ⟨"WithInformation", "information", .string⟩,
   ⟨"WithDevice", "device", .string⟩,
   ⟨"WithPercentLoader", "percent_loader", .string⟩,
   ⟨"WithMessageCount", "message_count", .string⟩,
   ⟨"WithConversationCount", "conversation_count", .string⟩,
   ⟨"WithFoundCount", "found_count", .number⟩,
   ⟨"WithHash", "hash", .string⟩,
   ⟨"WithUrl", "url", .string⟩,
   ⟨"WithAccountId", "account_id", .string⟩,
   ⟨"WithCount", "count", .number⟩,
   ⟨"WithServiceNodeId", "service_node_id", .string⟩,
   ⟨"WithLimit", "limit", .string⟩,
   ⟨"WithRelativeTime", "relative_time", .string⟩,
   ⟨"WithIcon", "icon", .string⟩,
   ⟨"WithStoreVariant", "storevariant", .string⟩,
   ⟨"WithMin", "min", .string⟩,
   ⟨"WithMax", "max", .string⟩]

end Registry

end Phrasebook
