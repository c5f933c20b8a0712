import Mathlib.Algebra.GroupWithZero.Nat
import Phrasebook.Module
import Phrasebook.Proofs.Argument.Shape
import Phrasebook.Proofs.Literal.Identifier
import Phrasebook.Proofs.Literal.RoundTrip

/-!
# The line structure of the generated module

No name and no text can add a line to the generated module or take one away. Whatever stands in a
message, in a token, in a locale or in the name of an argument, a section has as many lines as its
shape dictates, each token has its line at the place that the tokens before it dictate, and no other
line terminator than the line feed stands in the text (`Compilation.render_laidOut`).

1. All that a line is put together from stands on one line (`IsOneLine`): literals by their escape
   sequences, bare keys and identifiers by their letters.
2. A section whose lines are of this kind reads as the lines it was written from
   (`Section.linesOf_render`), so that its height and its labels can be told from the list
   (`Section.Fits`).
-/

namespace Phrasebook

open Literal

/-! ## Texts on one line -/

/-- There is no line terminator in the text. -/
def IsOneLine (text : String) : Prop := ∀ c ∈ text.toList, isLineTerminator c = false

instance : DecidablePred IsOneLine := fun text =>
  decidable_of_iff (text.toList.all fun c => !isLineTerminator c) (by simp [IsOneLine])

theorem isOneLine_append {s t : String} : IsOneLine (s ++ t) ↔ IsOneLine s ∧ IsOneLine t := by
  unfold IsOneLine
  rw [String.toList_append]
  exact List.forall_mem_append

theorem isOneLine_intercalate {separator : String} (hs : IsOneLine separator) {parts : List String}
    (h : ∀ part ∈ parts, IsOneLine part) : IsOneLine (separator.intercalate parts) := by
  induction parts with
  | nil => exact List.forall_mem_nil _
  | cons part parts ih =>
    obtain ⟨hpart, hparts⟩ := List.forall_mem_cons.1 h
    cases parts with
    | nil => rwa [String.intercalate_singleton]
    | cons next parts =>
      rw [String.intercalate_cons_cons, isOneLine_append, isOneLine_append]
      exact ⟨⟨hpart, hs⟩, ih hparts⟩

/-- Letters, digits, underscores and dollar signs stay on their line. -/
theorem not_lineTerminator_of_word {c : Char}
    (h : isAlphanumeric c = true ∨ c = '_' ∨ c = '$') : isLineTerminator c = false := by
  by_contra hc
  rw [Bool.not_eq_false] at hc
  rcases isLineTerminator_iff.1 hc with rfl | rfl | rfl | rfl <;> revert h <;> decide

theorem isOneLine_doubleQuoted (text : String) : IsOneLine (doubleQuoted text) := by
  intro c hc
  rw [toList_doubleQuoted] at hc
  exact not_lineTerminator_of_mem_quoted isQuote_double hc

theorem isOneLine_singleQuoted (text : String) : IsOneLine (singleQuoted text) := by
  intro c hc
  rw [toList_singleQuoted] at hc
  exact not_lineTerminator_of_mem_quoted isQuote_single hc

theorem isOneLine_quoteKey (key : String) : IsOneLine (quoteKey key) := by
  unfold quoteKey
  split
  · rename_i hbare
    intro c hc
    simp only [isBareKey, Bool.and_eq_true, List.all_eq_true, Bool.or_eq_true,
      decide_eq_true_eq] at hbare
    exact not_lineTerminator_of_word ((hbare.2 c hc).imp_right Or.inl)
  · exact isOneLine_singleQuoted key

theorem isOneLine_localeKey (locale : String) : IsOneLine (localeKey locale) :=
  isOneLine_quoteKey _

theorem isOneLine_constIdentifier (locale : String) : IsOneLine (constIdentifier locale) :=
  fun _ hc => not_lineTerminator_of_word ((mem_constIdentifier hc).imp_right Or.inl)

theorem isOneLine_of_isIdentifier {name : String} (h : Config.isIdentifier name = true) :
    IsOneLine name := by
  obtain ⟨-, hparts, -⟩ := isIdentifierName_iff.1 (isIdentifierName_of_isIdentifier h)
  intro c hc
  have hc := hparts c hc
  simp only [isIdentifierPart, Bool.or_eq_true, decide_eq_true_eq, or_assoc] at hc
  exact not_lineTerminator_of_word hc

theorem isOneLine_keyword (category : Plural.Category) : IsOneLine category.keyword := by
  cases category <;> decide

theorem ArgumentType.isOneLine_name (type : ArgumentType) : IsOneLine type.name := by
  cases type <;> decide

theorem Variable.isOneLine_field (v : Variable) : IsOneLine v.field := by
  simp only [Variable.field, isOneLine_append, isOneLine_quoteKey, ArgumentType.isOneLine_name]
  decide

theorem Variable.isOneLine_tag (v : Variable) : IsOneLine v.tag := by
  simp only [Variable.tag, isOneLine_append, isOneLine_quoteKey, ArgumentType.isOneLine_name]
  decide

theorem Fragment.isOneLine_declaration {f : Fragment} (hname : IsOneLine f.name)
    (hargument : IsOneLine f.argument.name) : IsOneLine f.declaration := by
  simp only [Fragment.declaration, isOneLine_append, hname, hargument,
    ArgumentType.isOneLine_name]
  decide

/-- The names of the well-known fragments and of their arguments. -/
theorem isOneLine_names_builtin :
    ∀ f ∈ Registry.builtin.values, IsOneLine f.name ∧ IsOneLine f.argument.name := by
  decide +kernel

theorem isOneLine_shape {s : Shape} (h : ∀ name ∈ s.fragments, IsOneLine name) :
    IsOneLine s.render := by
  unfold Shape.render
  split
  · decide
  · refine isOneLine_intercalate (by decide) fun part hpart => ?_
    rcases List.mem_append.1 hpart with hname | hinlined
    · exact h part hname
    · split at hinlined
      · cases hinlined
      · rw [List.mem_singleton] at hinlined
        rw [hinlined, isOneLine_append, isOneLine_append]
        refine ⟨⟨by decide, isOneLine_intercalate (by decide) ?_⟩, by decide⟩
        exact List.forall_mem_map.2 fun v _ => v.isOneLine_field

theorem isOneLine_shapeOf_builtin (vs : List Variable) :
    IsOneLine (Registry.builtin.shapeOf vs).render := by
  apply isOneLine_shape
  intro name hname
  obtain ⟨f, hf, rfl⟩ := Registry.mem_values_of_mem_fragments hname
  exact (isOneLine_names_builtin f hf).1

/-! ## Sections and their lines -/

/-- The lines of a text. What stands behind the last line feed counts as one. -/
def linesOf (text : String) : List (List Char) := text.toList.splitOn '\n'

/-- How the lines of a section are laid out. -/
structure SectionPlan where
  /-- The tokens that have a line of their own. -/
  tokens : List CompiledToken
  /-- What the line of a token begins with. -/
  label : CompiledToken → String
  /-- The number of lines. -/
  height : Nat
  /-- The number of lines before the one of the token at an index. -/
  position : Nat → Nat

/-- The lines of a text are as planned, and end in a line feed each. -/
structure LaidOut (text : String) (p : SectionPlan) : Prop where
  /-- A line feed is the only line terminator in the text. -/
  lineFeeds : ∀ c ∈ text.toList, isLineTerminator c = true → c = '\n'
  ended : text.toList.getLast? = some '\n'
  height : text.toList.count '\n' = p.height
  labels : ∀ k t, p.tokens[k]? = some t →
    ∃ line, (linesOf text)[p.position k]? = some line ∧ (p.label t).toList <+: line

namespace Section

/-- The lines of a section are as planned. -/
structure Fits (s : Section) (p : SectionPlan) : Prop where
  oneLine : ∀ line ∈ s, IsOneLine line
  ne_nil : s ≠ []
  height : s.length = p.height
  labels : ∀ k t, p.tokens[k]? = some t → ∃ rest, s[p.position k]? = some (p.label t ++ rest)

variable {s : Section}

theorem toList_render_cons (line : String) (s : Section) :
    (render (line :: s)).toList = line.toList ++ '\n' :: (render s).toList := by
  rw [render, List.map_cons, String.join_cons, String.toList_append, String.toList_append,
    List.append_assoc]
  rfl

theorem lineFeed_not_mem {line : String} (h : IsOneLine line) : '\n' ∉ line.toList :=
  fun hc => absurd (h '\n' hc) (by decide)

/-- A section reads as the lines it was written from. -/
theorem linesOf_render (h : ∀ line ∈ s, IsOneLine line) :
    linesOf s.render = s.map String.toList ++ [[]] := by
  induction s with
  | nil => rfl
  | cons line s ih =>
    obtain ⟨hline, hlines⟩ := List.forall_mem_cons.1 h
    have hno : ∀ c ∈ line.toList, (c == '\n') = false := fun c hc =>
      beq_eq_false_iff_ne.2 fun heq => lineFeed_not_mem hline (heq ▸ hc)
    rw [linesOf, toList_render_cons, List.splitOn_eq_splitOnP,
      List.splitOnP_append_cons_of_forall_mem hno '\n' (beq_self_eq_true _)]
    exact congrArg _ (ih hlines)

theorem count_render (h : ∀ line ∈ s, IsOneLine line) :
    s.render.toList.count '\n' = s.length := by
  induction s with
  | nil => rfl
  | cons line s ih =>
    obtain ⟨hline, hlines⟩ := List.forall_mem_cons.1 h
    rw [toList_render_cons, List.count_append, List.count_eq_zero_of_not_mem
      (lineFeed_not_mem hline), List.count_cons_self, ih hlines, List.length_cons, Nat.zero_add]

theorem eq_lineFeed_of_mem_render (h : ∀ line ∈ s, IsOneLine line) {c : Char}
    (hc : c ∈ s.render.toList) (ht : isLineTerminator c = true) : c = '\n' := by
  induction s with
  | nil => cases hc
  | cons line s ih =>
    obtain ⟨hline, hlines⟩ := List.forall_mem_cons.1 h
    rw [toList_render_cons, List.mem_append, List.mem_cons] at hc
    rcases hc with hc | rfl | hc
    · rw [hline c hc] at ht
      cases ht
    · rfl
    · exact ih hlines hc

theorem getLast?_render (h : s ≠ []) : s.render.toList.getLast? = some '\n' := by
  induction s with
  | nil => exact absurd rfl h
  | cons line s ih =>
    rw [toList_render_cons]
    cases s with
    | nil => exact List.getLast?_concat
    | cons next s => rw [List.getLast?_append, List.getLast?_cons, ih (by simp)]; rfl

theorem Fits.laidOut {p : SectionPlan} (h : s.Fits p) : LaidOut s.render p where
  lineFeeds _ := eq_lineFeed_of_mem_render h.oneLine
  ended := getLast?_render h.ne_nil
  height := (count_render h.oneLine).trans h.height
  labels k t hk := by
    obtain ⟨rest, hline⟩ := h.labels k t hk
    obtain ⟨hlt, -⟩ := List.getElem?_eq_some_iff.1 hline
    refine ⟨(p.label t ++ rest).toList, ?_, ?_⟩
    · rw [linesOf_render h.oneLine, List.getElem?_append_left (by rwa [List.length_map]),
        List.getElem?_map, hline]
      rfl
    · rw [String.toList_append]
      exact List.prefix_append _ _

/-- Several sections read as one with an empty line between two of them. -/
theorem renderAll_eq_render (ss : List Section) : renderAll ss = render ([""].intercalate ss) := by
  unfold renderAll
  induction ss with
  | nil => rfl
  | cons s ss ih =>
    cases ss with
    | nil => simp [render]
    | cons t ss =>
      rw [List.map_cons, List.map_cons, String.intercalate_cons_cons, ← List.map_cons, ih]
      simp [render, String.join_append, String.append_assoc, List.intercalate, List.intersperse]

/-! ## Closing a section -/

theorem isOneLine_of_mem_closeWith {ending : String} (he : IsOneLine ending)
    (h : ∀ line ∈ s, IsOneLine line) : ∀ line ∈ s.closeWith ending, IsOneLine line := by
  induction s with
  | nil => exact List.forall_mem_singleton.2 he
  | cons line s ih =>
    obtain ⟨hline, hlines⟩ := List.forall_mem_cons.1 h
    cases s with
    | nil => exact List.forall_mem_singleton.2 (isOneLine_append.2 ⟨hline, he⟩)
    | cons next s => exact List.forall_mem_cons.2 ⟨hline, ih hlines⟩

theorem closeWith_ne_nil (s : Section) (ending : String) : s.closeWith ending ≠ [] := by
  cases s with
  | nil => exact List.cons_ne_nil _ _
  | cons line s => cases s <;> exact List.cons_ne_nil _ _

/-- The ending is put behind a line, never in front of one. -/
theorem exists_getElem?_closeWith (ending : String) {i : Nat} {line : String}
    (h : s[i]? = some line) : ∃ rest, (s.closeWith ending)[i]? = some (line ++ rest) := by
  induction s generalizing i with
  | nil => cases h
  | cons first s ih =>
    cases s with
    | nil =>
      obtain ⟨hlt, rfl⟩ := List.getElem?_eq_some_iff.1 h
      obtain rfl : i = 0 := by simpa using hlt
      exact ⟨ending, rfl⟩
    | cons next s =>
      cases i with
      | zero => exact ⟨"", by rw [String.append_empty, ← h]; rfl⟩
      | succ i => exact ih h

/-- What is found among some lines is found among them between other lines. -/
theorem getElem?_between {before lines after : List String} {i : Nat} {line : String}
    (h : lines[i]? = some line) : (before ++ lines ++ after)[before.length + i]? = some line := by
  obtain ⟨hlt, -⟩ := List.getElem?_eq_some_iff.1 h
  rw [List.append_assoc, List.getElem?_append_right (Nat.le_add_right _ _),
    Nat.add_sub_cancel_left, List.getElem?_append_left hlt, h]

/-- A block of lines between braces is as planned if its lines are. -/
theorem fits_braces {header : Section} {body : List String} {ending : String} {p : SectionPlan}
    (hheader : ∀ line ∈ header, IsOneLine line) (hne : header ≠ [])
    (hbody : ∀ line ∈ body, IsOneLine line) (hending : IsOneLine ending)
    (height : p.height = header.length + if body.isEmpty then 0 else body.length + 1)
    (labels : ∀ k t, p.tokens[k]? = some t →
      ∃ i rest, p.position k = header.length + i ∧ body[i]? = some (p.label t ++ rest)) :
    (braces header body ending).Fits p := by
  unfold braces
  cases hb : body.isEmpty with
  | true =>
    rw [if_pos rfl]
    have hempty : body = [] := List.isEmpty_iff.1 hb
    refine ⟨?_, closeWith_ne_nil _ _, ?_, fun k t hk => ?_⟩
    · exact isOneLine_of_mem_closeWith (isOneLine_append.2 ⟨by decide, hending⟩) hheader
    · rw [length_closeWith _ hne, height, hb]
      rfl
    · obtain ⟨i, rest, -, hi⟩ := labels k t hk
      rw [hempty] at hi
      cases hi
  | false =>
    rw [if_neg Bool.false_ne_true]
    refine ⟨?_, by simp, ?_, fun k t hk => ?_⟩
    · rw [List.forall_mem_append, List.forall_mem_append]
      exact ⟨⟨isOneLine_of_mem_closeWith (by decide) hheader, hbody⟩,
        List.forall_mem_singleton.2 (isOneLine_append.2 ⟨by decide, hending⟩)⟩
    · rw [List.length_append, List.length_append, length_closeWith _ hne, height, hb,
        List.length_singleton, Nat.add_assoc]
      rfl
    · obtain ⟨i, rest, hp, hi⟩ := labels k t hk
      rw [← length_closeWith " \x7b" hne] at hp
      exact ⟨rest, hp ▸ getElem?_between hi⟩

end Section

namespace Module

/-! ## Entries of tables -/

/-- The number of lines of a value: one for a text, and for branches one each and two for the
braces. -/
def valueHeight : Resolved → Nat
  | .simple texts => texts.entries.length
  | .plural values => (values.entries.map fun e => 2 + e.2.length).sum

/-- The number of lines of an entry: those of its value, two for the braces and one for the
arguments, if these are recorded. -/
def entryHeight (withArgs : Bool) (t : CompiledToken) : Nat :=
  2 + valueHeight t.resolved + if withArgs then 1 else 0

theorem length_valueLines (r : Resolved) : (valueLines r).length = valueHeight r := by
  cases r with
  | simple texts => exact List.length_map _
  | plural values =>
    show (values.entries.flatMap _).length = (values.entries.map _).sum
    rw [List.length_flatMap]
    refine congrArg List.sum (List.map_congr_left fun e _ => ?_)
    simp only [List.length_append, List.length_map, List.length_singleton]
    omega

theorem length_tokenLines (withArgs : Bool) (t : CompiledToken) :
    (tokenLines withArgs t).length = entryHeight withArgs t := by
  unfold tokenLines entryHeight
  cases withArgs <;> simp [length_valueLines] <;> omega

theorem isOneLine_of_mem_valueLines {r : Resolved} : ∀ line ∈ valueLines r, IsOneLine line := by
  cases r with
  | simple texts =>
    refine List.forall_mem_map.2 fun e _ => ?_
    simp only [isOneLine_append, isOneLine_localeKey, isOneLine_doubleQuoted]
    decide
  | plural values =>
    refine List.forall_mem_flatMap.2 fun e _ => ?_
    rw [List.forall_mem_append, List.forall_mem_append, List.forall_mem_map]
    refine ⟨⟨List.forall_mem_singleton.2 ?_, fun b _ => ?_⟩, by decide⟩
    · simp only [isOneLine_append, isOneLine_localeKey]
      decide
    · simp only [isOneLine_append, isOneLine_keyword, isOneLine_doubleQuoted]
      decide

theorem isOneLine_argumentLine (t : CompiledToken) : IsOneLine (argumentLine t) := by
  unfold argumentLine argumentRecord
  have hargs : IsOneLine (", ".intercalate (t.kind.args.map Variable.tag)) :=
    isOneLine_intercalate (by decide) (List.forall_mem_map.2 fun v _ => v.isOneLine_tag)
  simp only [isOneLine_append, hargs]
  decide

theorem isOneLine_of_mem_tokenLines (withArgs : Bool) (t : CompiledToken) :
    ∀ line ∈ tokenLines withArgs t, IsOneLine line := by
  unfold tokenLines
  rw [List.forall_mem_append, List.forall_mem_append, List.forall_mem_append]
  refine ⟨⟨⟨List.forall_mem_singleton.2 ?_, isOneLine_of_mem_valueLines⟩, ?_⟩, by decide⟩
  · simp only [isOneLine_append, isOneLine_quoteKey]
    decide
  · cases withArgs
    · exact List.forall_mem_nil _
    · exact List.forall_mem_singleton.2 (isOneLine_argumentLine t)

/-- Where the lines that are written for the members of a list begin. -/
theorem getElem?_flatMap_of_head {α β : Type} {f : α → List β} {height : α → Nat}
    (hheight : ∀ x, (f x).length = height x) {xs : List α} {k : Nat} {x : α} {first : β}
    {rest : List β} (hx : xs[k]? = some x) (hf : f x = first :: rest) :
    (xs.flatMap f)[((xs.take k).map height).sum]? = some first := by
  induction xs generalizing k with
  | nil => cases hx
  | cons y xs ih =>
    rw [List.flatMap_cons]
    cases k with
    | zero =>
      obtain rfl : y = x := Option.some.inj hx
      rw [hf]
      rfl
    | succ k =>
      rw [List.take_succ_cons, List.map_cons, List.sum_cons, ← hheight,
        List.getElem?_append_right (Nat.le_add_right _ _), Nat.add_sub_cancel_left]
      exact ih hx

/-! ## The plan of a module -/

/-- What the line of a token begins with where it is a key. -/
def keyLabel (t : CompiledToken) : String := "  " ++ quoteKey t.name ++ ":"

/-- Some lines without tokens. -/
def linePlan (height : Nat) : SectionPlan := ⟨[], keyLabel, height, fun k => k⟩

/-- A header and one line for each token. -/
def unionPlan (ts : List CompiledToken) : SectionPlan where
  tokens := ts
  label t := "  | " ++ singleQuoted t.name
  height := 1 + ts.length
  position k := 1 + k

/-- A header, one line for each token and a closing line, which stands on the header's line if there
are no tokens. -/
def argumentPlan (ts : List CompiledToken) : SectionPlan where
  tokens := ts
  label := keyLabel
  height := if ts.isEmpty then 1 else 2 + ts.length
  position k := 1 + k

/-- A header of some lines, an entry for each token and a closing line, which stands on the header's
last line if there are no tokens. -/
def tablePlan (header : Nat) (withArgs : Bool) (ts : List CompiledToken) : SectionPlan where
  tokens := ts
  label := keyLabel
  height := if ts.isEmpty then header else header + (ts.map (entryHeight withArgs)).sum + 1
  position k := header + ((ts.take k).map (entryHeight withArgs)).sum

/-- The sections of the merged module after the import. -/
def mergedPlans (c : Compilation) (schema : Schema) : List SectionPlan :=
  let noArgs := c.bucket .simpleNoArgs
  let withArgs := c.bucket .simpleWithArgs
  let plurals := c.bucket .pluralWithArgs
  let nested := schema = .nested
  [linePlan Registry.builtin.size,
   unionPlan noArgs,
   argumentPlan withArgs,
   argumentPlan plurals,
   unionPlan withArgs,
   unionPlan plurals,
   tablePlan 4 false noArgs,
   tablePlan (if nested then 1 else 4) nested withArgs,
   tablePlan 1 nested plurals]

/-- The whole of the single module: the comment, the object, the type and two empty lines. -/
def singlePlan (c : Compilation) : SectionPlan where
  tokens := c.tokens
  label := keyLabel
  height := c.tokens.length + 7
  position k := 4 + k

/-! ## The sections are as planned -/

variable {ts : List CompiledToken} {name : String} {o : ModuleOptions}

theorem fits_fragmentSection :
    (fragmentSection .builtin).Fits (linePlan Registry.builtin.size) where
  oneLine := List.forall_mem_map.2 fun f hf =>
    Fragment.isOneLine_declaration (isOneLine_names_builtin f hf).1 (isOneLine_names_builtin f hf).2
  ne_nil := by decide
  height := by rw [fragmentSection, List.length_map, OrderedMap.values, List.length_map]; rfl
  labels _ _ hk := by cases hk

/-- A key and what stands behind it. -/
theorem keyLabel_append (t : CompiledToken) (value : String) :
    "  " ++ quoteKey t.name ++ ": " ++ value = keyLabel t ++ (" " ++ value) := by
  have hcolon : ": " = ":" ++ " " := rfl
  simp only [keyLabel, hcolon, String.append_assoc]

/-- The lines that are written for some tokens, with a key and a value each. -/
theorem getElem?_map_keyLabel {line value : CompiledToken → String}
    (h : ∀ t, line t = "  " ++ quoteKey t.name ++ ": " ++ value t) {k : Nat} {t : CompiledToken}
    (hk : ts[k]? = some t) : (ts.map line)[k]? = some (keyLabel t ++ (" " ++ value t)) := by
  rw [List.getElem?_map, hk, Option.map_some, h, keyLabel_append]

theorem fits_unionSection (hname : IsOneLine name) :
    (unionSection name ts).Fits (unionPlan ts) := by
  have hheader : IsOneLine ("export type " ++ name ++ " =") := by
    simp only [isOneLine_append, hname]
    decide
  have hlabel : ∀ t : CompiledToken, IsOneLine ("  | " ++ singleQuoted t.name) := fun t => by
    simp only [isOneLine_append, isOneLine_singleQuoted]
    decide
  unfold unionSection
  dsimp only
  split
  · rename_i hempty
    rw [List.isEmpty_iff.1 hempty]
    refine ⟨?_, List.cons_ne_nil _ _, rfl, fun k t hk => by cases hk⟩
    exact List.forall_mem_singleton.2 (isOneLine_append.2 ⟨hheader, by decide⟩)
  · refine ⟨?_, Section.closeWith_ne_nil _ _, ?_, fun k t hk => ?_⟩
    · refine Section.isOneLine_of_mem_closeWith (by decide) (List.forall_mem_cons.2 ⟨hheader, ?_⟩)
      exact List.forall_mem_map.2 fun t _ => hlabel t
    · rw [Section.length_closeWith _ (List.cons_ne_nil _ _), List.length_cons, List.length_map]
      exact Nat.add_comm _ _
    · apply Section.exists_getElem?_closeWith
      show ((_ : String) :: _)[1 + k]? = _
      have hts : ts[k]? = some t := hk
      rw [Nat.add_comm, List.getElem?_cons_succ, List.getElem?_map, hts]
      rfl

theorem fits_argumentSection (hname : IsOneLine name) :
    (argumentSection name .builtin ts).Fits (argumentPlan ts) := by
  apply Section.fits_braces _ (List.cons_ne_nil _ _)
  · refine List.forall_mem_map.2 fun t _ => ?_
    simp only [isOneLine_append, isOneLine_quoteKey, isOneLine_shapeOf_builtin]
    decide
  · decide
  · cases ts with
    | nil => rfl
    | cons t ts => simp [argumentPlan]; omega
  · intro k t hk
    exact ⟨k, _, rfl, getElem?_map_keyLabel (fun t => String.append_assoc) hk⟩
  · refine List.forall_mem_singleton.2 ?_
    simp only [isOneLine_append, hname]
    decide

theorem fits_tableSection {header : Section} (hheader : ∀ line ∈ header, IsOneLine line)
    (hne : header ≠ []) (withArgs : Bool) :
    (tableSection header withArgs ts).Fits (tablePlan header.length withArgs ts) := by
  apply Section.fits_braces hheader hne
  · exact List.forall_mem_flatMap.2 fun t _ => isOneLine_of_mem_tokenLines withArgs t
  · decide
  · cases ts with
    | nil => rfl
    | cons t ts =>
      have hbody : ((t :: ts).flatMap (tokenLines withArgs)).length =
          ((t :: ts).map (entryHeight withArgs)).sum := by
        rw [List.length_flatMap]
        exact congrArg List.sum (List.map_congr_left fun t _ => length_tokenLines withArgs t)
      rw [hbody]
      rfl
  · intro k t hk
    have hentry : tokenLines withArgs t = (keyLabel t ++ (" " ++ "\x7b")) ::
        (valueLines t.resolved ++ (if withArgs then [argumentLine t] else []) ++ ["  \x7d,"]) := by
      rw [← keyLabel_append, String.append_assoc]
      rfl
    exact ⟨_, _, rfl, getElem?_flatMap_of_head (length_tokenLines withArgs) hk hentry⟩

theorem isOneLine_typedHeader (ho : IsOneLine o.localeType) {union : String}
    (hname : IsOneLine name) (hunion : IsOneLine union) :
    ∀ line ∈ typedHeader o name union, IsOneLine line := by
  simp only [typedHeader, List.forall_mem_cons, isOneLine_append, ho, hname, hunion]
  decide

theorem isOneLine_plainHeader (hname : IsOneLine name) :
    ∀ line ∈ plainHeader name, IsOneLine line := by
  simp only [plainHeader, List.forall_mem_cons, isOneLine_append, hname]
  decide

/-- The sections of the merged module after the import, in their order, are as planned. -/
theorem forall₂_fits_mergedSections (c : Compilation) (ho : IsOneLine o.localeType) :
    List.Forall₂ Section.Fits ((mergedSections c o).drop 2) (mergedPlans c o.schema) := by
  have htyped : ∀ {name union : String}, IsOneLine name → IsOneLine union →
      ∀ line ∈ typedHeader o name union, IsOneLine line := isOneLine_typedHeader ho
  refine .cons fits_fragmentSection <| .cons (fits_unionSection (by decide)) <|
    .cons (fits_argumentSection (by decide)) <| .cons (fits_argumentSection (by decide)) <|
    .cons (fits_unionSection (by decide)) <| .cons (fits_unionSection (by decide)) <|
    .cons (fits_tableSection (htyped (by decide) (by decide)) (List.cons_ne_nil _ _) false) <|
    .cons ?_ <|
    .cons (fits_tableSection (isOneLine_plainHeader (by decide)) (List.cons_ne_nil _ _) _) .nil
  split
  · exact fits_tableSection (isOneLine_plainHeader (by decide)) (List.cons_ne_nil _ _) _
  · exact fits_tableSection (htyped (by decide) (by decide)) (List.cons_ne_nil _ _) _

theorem fits_singleSections (c : Compilation) :
    Section.Fits ([""].intercalate (singleSections c)) (singlePlan c) := by
  have hname := isOneLine_constIdentifier c.source
  have hlines : [""].intercalate (singleSections c) =
      disclaimer ++ ["", "export const " ++ constIdentifier c.source ++ " = \x7b"] ++
        c.tokens.map messageLine ++
        ["\x7d as const;", "", "export type Dictionary = typeof " ++
          constIdentifier c.source ++ ";"] := by
    simp [singleSections, List.intercalate, List.intersperse]
  rw [hlines]
  refine ⟨?_, by simp, by simp [singlePlan, disclaimer], fun k t hk => ?_⟩
  · have hmessage : ∀ t, IsOneLine (messageLine t) := fun t => by
      simp only [messageLine, isOneLine_append, isOneLine_quoteKey, isOneLine_singleQuoted]
      decide
    rw [List.forall_mem_append, List.forall_mem_append]
    refine ⟨⟨?_, List.forall_mem_map.2 fun t _ => hmessage t⟩, ?_⟩
    · simp only [disclaimer, List.forall_mem_append, List.forall_mem_cons, isOneLine_append, hname]
      decide
    · simp only [List.forall_mem_cons, isOneLine_append, hname]
      decide
  · have hline : (c.tokens.map messageLine)[k]? = _ :=
      getElem?_map_keyLabel (fun t => String.append_assoc) hk
    exact ⟨_, Section.getElem?_between hline⟩

end Module

open Module

/-- **No name and no text changes the lines of the module.** Whatever the names, locales and texts
of a compilation are, the single module has its lines as planned, a line for each token and seven
others. So does every section of the merged module after the import, if the type of locales is an
identifier. -/
theorem Compilation.render_laidOut (c : Compilation) (o : ModuleOptions)
    (ho : Config.isIdentifier o.localeType = true) :
    LaidOut (c.render { o with mode := .single }) (singlePlan c) ∧
    ∃ texts, c.render { o with mode := .merged } =
        "\n".intercalate (disclaimer.render :: (importSection o).render :: texts) ∧
      List.Forall₂ LaidOut texts (mergedPlans c o.schema) := by
  constructor
  · show LaidOut (Section.renderAll (singleSections c)) _
    rw [Section.renderAll_eq_render]
    exact (fits_singleSections c).laidOut
  · refine ⟨((mergedSections c o).drop 2).map Section.render, rfl, ?_⟩
    rw [List.forall₂_map_left_iff]
    exact (forall₂_fits_mergedSections c (isOneLine_of_isIdentifier ho)).imp
      fun _ _ h => h.laidOut

/-- Names, locales and texts that are full of line terminators, quotes and backslashes. -/
def Compilation.rugged : Compilation where
  source := "en\n"
  locales := ["en\n", "fr\u2028"]
  tokens :=
    [⟨"a\n\x7d as const;", .simpleWithArgs [⟨"x\r\n", .string⟩, ⟨"\u2029", .number⟩],
      .simple (.ofList [("en\n", "\r\n\\"), ("fr\u2028", "\"\n'")]), "\r\n\\"⟩,
     ⟨"'\\", .pluralWithArgs [⟨"count", .number⟩],
      .plural (.ofList [("en\n", [⟨.one, "\n"⟩, ⟨.other, "\u2029"⟩]), ("fr\u2028", [])]), "\n"⟩]
  diagnostics := []

theorem Compilation.render_laidOut_rugged :
    Config.isIdentifier "$Locale_1" = true ∧
    (singlePlan .rugged).height = 9 ∧
    LaidOut (rugged.render { mode := .single }) (singlePlan .rugged) ∧
    (mergedPlans .rugged .nested).map (·.height) = [36, 1, 3, 3, 2, 2, 4, 7, 11] ∧
    ∃ o : ModuleOptions, o.localeType = "$Locale_1" ∧ ∃ texts,
      rugged.render o = "\n".intercalate (disclaimer.render :: (importSection o).render :: texts) ∧
      List.Forall₂ LaidOut texts (mergedPlans .rugged .nested) := by
  have h : Config.isIdentifier "$Locale_1" = true := by decide
  let o : ModuleOptions := { schema := .nested, localeType := "$Locale_1" }
  obtain ⟨hsingle, texts, hrender, htexts⟩ := render_laidOut .rugged o h
  exact ⟨h, by decide, hsingle, by decide, o, rfl, texts, hrender, htexts⟩

end Phrasebook
