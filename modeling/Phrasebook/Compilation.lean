import Phrasebook.Resolution

/-!
# Compilation

All that the generated module is written from: the tokens of the source locale in their order, each
with its kind and its value in every locale. The first source message that cannot be read stops the
compilation; nothing in another locale does.
-/

namespace Phrasebook

/-- A token with its value in every locale. -/
structure CompiledToken where
  name : String
  kind : TokenKind
  resolved : Resolved
  /-- The source message as it was written. -/
  raw : String
  deriving DecidableEq

/-- The number of tokens in each bucket. -/
structure TokenCounts where
  simpleNoArgs : Nat := 0
  simpleWithArgs : Nat := 0
  pluralWithArgs : Nat := 0
  deriving DecidableEq

/-- The counts with one more token of a bucket. -/
def TokenCounts.add (c : TokenCounts) : Bucket → TokenCounts
  | .simpleNoArgs => { c with simpleNoArgs := c.simpleNoArgs + 1 }
  | .simpleWithArgs => { c with simpleWithArgs := c.simpleWithArgs + 1 }
  | .pluralWithArgs => { c with pluralWithArgs := c.pluralWithArgs + 1 }

def TokenCounts.total (c : TokenCounts) : Nat :=
  c.simpleNoArgs + c.simpleWithArgs + c.pluralWithArgs

structure Compilation where
  source : String
  /-- The locales in the order of the module. -/
  locales : List String
  tokens : List CompiledToken
  diagnostics : List Diagnostic
  deriving DecidableEq

namespace Compilation

/-- The tokens of a bucket, in the order of the source. -/
def bucket (c : Compilation) (b : Bucket) : List CompiledToken :=
  c.tokens.filter (·.kind.bucket = b)

/-- The tokens counted one after another, each in its bucket. -/
def counts (c : Compilation) : TokenCounts :=
  c.tokens.foldl (fun n t => n.add t.kind.bucket) {}

/-- How many fallbacks were reported. -/
def fallbackCount (c : Compilation) : Nat := c.diagnostics.countP (·.rule = .fallback)

/-- A token of the source locale with its value in every locale, and the findings. -/
def compileToken (locales : LocaleSet) (source name : String) (entry : Entry) :
    Except CompileError (CompiledToken × List Diagnostic) :=
  (Token.ofEntry name entry).map fun token =>
    let (resolved, findings) := token.source.resolve name source locales
    (⟨name, token.kind, resolved, entry.value⟩, findings)

/-- The findings about tokens of a dictionary that the source does not have. -/
def unknownTokens (source d : Dictionary) : List Diagnostic :=
  if d.locale = source.locale then []
  else
    d.entries.entries.filterMap fun (token, entry) =>
      if source.contains token then none
      else some (.unknownToken token d.locale source.locale entry.position)

end Compilation

/-- Compiles the locales with the messages of the source locale as the standard. -/
def LocaleSet.compile (locales : LocaleSet) (source : String) : Except CompileError Compilation :=
  if locales.isEmpty then .error .noLocales
  else
    match locales.get? source with
    | none => .error (.missingSource source locales.locales)
    | some dictionary => do
      let compiled ← dictionary.entries.entries.mapM fun (name, entry) =>
        Compilation.compileToken locales source name entry
      return {
        source
        locales := locales.locales
        tokens := compiled.map Prod.fst
        diagnostics := compiled.flatMap Prod.snd ++
          locales.dictionaries.flatMap (Compilation.unknownTokens dictionary) }

end Phrasebook
