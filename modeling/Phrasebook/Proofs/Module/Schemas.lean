import Phrasebook.Proofs.Compilation.Contract
import Phrasebook.Proofs.Module.LineStructure

/-!
# Flat and nested tables

The nested schema adds the arguments to the flat one and changes nothing else: the sections before
the last two tables are the same, the table of simple tokens with arguments loses the type in its
header, and each entry of the last two tables has one line more, the record of its arguments, right
before the line that closes it (`render_nested`). The closing line is like no other line of an
entry, so the lines of a nested table can be had from those of the flat table alone and the lines to
be added (`insertBefore`).
-/

namespace Phrasebook

namespace Module

open Literal

/-- Puts the next of some new lines, as long as there are any, right before each line that is the
mark. -/
def insertBefore (mark : String) : List String → List String → List String
  | _, [] => []
  | news, line :: lines =>
    if line = mark then news.take 1 ++ line :: insertBefore mark news.tail lines
    else line :: insertBefore mark news lines

section InsertBefore

variable {mark new : String} {news first lines : List String}

theorem insertBefore_cons_mark :
    insertBefore mark (new :: news) (mark :: lines) =
      new :: mark :: insertBefore mark news lines := if_pos rfl

/-- Nothing is put before lines that are not the mark. -/
theorem insertBefore_append (h : mark ∉ first) :
    insertBefore mark news (first ++ lines) = first ++ insertBefore mark news lines := by
  induction first with
  | nil => rfl
  | cons line first ih =>
    rw [List.mem_cons, not_or] at h
    rw [List.cons_append, List.cons_append, insertBefore, if_neg (Ne.symm h.1), ih h.2]

theorem insertBefore_of_not_mem (h : mark ∉ lines) : insertBefore mark news lines = lines := by
  have happend : insertBefore mark news (lines ++ []) = lines ++ [] := insertBefore_append h
  rwa [List.append_nil] at happend

end InsertBefore

/-! ## Entries -/

/-- The line that closes the entry of a token. -/
def entryEnd : String := "  \x7d,"

/-- The lines of an entry before its arguments. -/
def entryStart (t : CompiledToken) : List String :=
  ("  " ++ quoteKey t.name ++ ": \x7b") :: valueLines t.resolved

theorem tokenLines_flat (t : CompiledToken) : tokenLines false t = entryStart t ++ [entryEnd] := by
  simp [tokenLines, entryStart, entryEnd]

theorem tokenLines_nested (t : CompiledToken) :
    tokenLines true t = entryStart t ++ [argumentLine t, entryEnd] := by
  simp [tokenLines, entryStart, entryEnd]

/-- The lines of a value are indented by four spaces. -/
theorem take_toList_of_mem_valueLines {r : Resolved} {line : String} (h : line ∈ valueLines r) :
    line.toList.take 4 = [' ', ' ', ' ', ' '] := by
  cases r with
  | simple texts =>
    obtain ⟨⟨locale, text⟩, -, rfl⟩ := List.mem_map.1 h
    simp
  | plural values =>
    obtain ⟨⟨locale, branches⟩, -, h⟩ := List.mem_flatMap.1 h
    simp only [List.mem_append, List.mem_singleton, List.mem_map] at h
    rcases h with (rfl | ⟨b, -, rfl⟩) | rfl <;> simp

/-- The closing line of an entry is none of those before it. -/
theorem entryEnd_not_mem_entryStart (t : CompiledToken) : entryEnd ∉ entryStart t := by
  unfold entryStart
  rw [List.mem_cons, not_or]
  refine ⟨fun h => ?_, fun h => ?_⟩
  · have hlast := congrArg (fun line => line.toList.getLast?) h
    rw [String.toList_append, List.getLast?_append] at hlast
    exact absurd (show some ',' = some '\x7b' from hlast) (by decide)
  · exact absurd (take_toList_of_mem_valueLines h) (by decide)

/-- The entries of tokens have one closing line each. -/
theorem count_entryEnd (ts : List CompiledToken) :
    (ts.flatMap (tokenLines false)).count entryEnd = ts.length := by
  induction ts with
  | nil => rfl
  | cons t ts ih =>
    rw [List.flatMap_cons, List.count_append, ih, tokenLines_flat, List.count_append,
      List.count_eq_zero_of_not_mem (entryEnd_not_mem_entryStart t), List.count_singleton_self,
      List.length_cons]
    omega

theorem insertBefore_entries (ts : List CompiledToken) {rest : List String}
    (h : entryEnd ∉ rest) :
    insertBefore entryEnd (ts.map argumentLine) (ts.flatMap (tokenLines false) ++ rest) =
      ts.flatMap (tokenLines true) ++ rest := by
  induction ts with
  | nil => exact insertBefore_of_not_mem h
  | cons t ts ih =>
    rw [List.flatMap_cons, List.flatMap_cons, tokenLines_flat, tokenLines_nested, List.map_cons,
      List.append_assoc, List.append_assoc, List.append_assoc,
      insertBefore_append (entryEnd_not_mem_entryStart t), List.singleton_append,
      insertBefore_cons_mark, ih]
    simp

/-! ## Tables -/

/-- What stands behind the header of a table on its last line. -/
def tableOpening (ts : List CompiledToken) : String :=
  if ts.isEmpty then " \x7b\x7d as const;" else " \x7b"

/-- The lines of a table after its header. -/
def tableLines (withArgs : Bool) (ts : List CompiledToken) : List String :=
  if ts.isEmpty then [] else ts.flatMap (tokenLines withArgs) ++ ["\x7d as const;"]

theorem tableSection_eq (header : Section) (withArgs : Bool) (ts : List CompiledToken) :
    tableSection header withArgs ts =
      header.closeWith (tableOpening ts) ++ tableLines withArgs ts := by
  unfold tableSection Section.braces tableOpening tableLines
  cases ts with
  | nil => simp
  | cons t ts => simp [tokenLines, List.append_assoc]

/-- The lines of a nested table are those of the flat table and the arguments of each token. -/
theorem tableLines_nested (ts : List CompiledToken) :
    tableLines true ts = insertBefore entryEnd (ts.map argumentLine) (tableLines false ts) := by
  unfold tableLines
  split
  · rfl
  · rw [insertBefore_entries ts (by decide)]

theorem count_tableLines (ts : List CompiledToken) :
    (tableLines false ts).count entryEnd = ts.length := by
  unfold tableLines
  cases ts with
  | nil => rfl
  | cons t ts =>
    rw [List.isEmpty_cons, if_neg Bool.false_ne_true, List.count_append, count_entryEnd,
      List.count_eq_zero_of_not_mem (by decide), Nat.add_zero]

/-- The sections that do not depend on the schema: the types and the table of tokens without
arguments. -/
def sharedSections (c : Compilation) (o : ModuleOptions) : List Section :=
  typeSections c o ++
    [tableSection (typedHeader o "simpleDictionaryNoArgs" "TokenSimpleNoArgs") false
      (c.bucket .simpleNoArgs)]

theorem mergedSections_flat (c : Compilation) (o : ModuleOptions) :
    mergedSections c { o with mode := .merged, schema := .flat } = sharedSections c o ++
      [tableSection (typedHeader o "simpleDictionaryWithArgs" "TokenSimpleWithArgs") false
        (c.bucket .simpleWithArgs),
       tableSection (plainHeader "pluralsDictionaryWithArgs") false (c.bucket .pluralWithArgs)] :=
  rfl

theorem mergedSections_nested (c : Compilation) (o : ModuleOptions) :
    mergedSections c { o with mode := .merged, schema := .nested } = sharedSections c o ++
      [tableSection (plainHeader "simpleDictionaryWithArgs") true (c.bucket .simpleWithArgs),
       tableSection (plainHeader "pluralsDictionaryWithArgs") true (c.bucket .pluralWithArgs)] :=
  rfl

end Module

open Module

/-- **The nested schema only adds.** The modules of both schemas begin with the same sections. The
table of simple tokens with arguments loses the type in its header; the lines after the headers are
the same but for one line for each token, which names its arguments with their types and stands
right before the closing line of the token's entry. -/
theorem Compilation.render_nested (c : Compilation) (o : ModuleOptions) :
    let flat := { o with mode := .merged, schema := .flat }
    let nested := { o with mode := .merged, schema := .nested }
    let simple := c.bucket .simpleWithArgs
    let plural := c.bucket .pluralWithArgs
    let added (t : CompiledToken) : String := "    args: " ++ ("\x7b" ++ ", ".intercalate
      (t.kind.args.map fun v => Literal.quoteKey v.name ++ ": \"" ++ v.type.name ++ "\"") ++
        "\x7d") ++ ","
    c.render flat = Section.renderAll (sharedSections c o ++
      [["export const simpleDictionaryWithArgs: Record<",
        "  TokenSimpleWithArgs,",
        "  Record<" ++ o.localeType ++ ", string>",
        "> =" ++ tableOpening simple] ++ tableLines false simple,
       ["export const pluralsDictionaryWithArgs =" ++ tableOpening plural] ++
        tableLines false plural]) ∧
    c.render nested = Section.renderAll (sharedSections c o ++
      [["export const simpleDictionaryWithArgs =" ++ tableOpening simple] ++
        insertBefore entryEnd (simple.map added) (tableLines false simple),
       ["export const pluralsDictionaryWithArgs =" ++ tableOpening plural] ++
        insertBefore entryEnd (plural.map added) (tableLines false plural)]) ∧
    (tableLines false simple).count entryEnd = simple.length ∧
    (tableLines false plural).count entryEnd = plural.length ∧
    ∀ t, IsOneLine (added t) ∧ ∃ lines, entryEnd ∉ lines ∧
      tokenLines false t = lines ++ [entryEnd] ∧
      tokenLines true t = lines ++ [added t, entryEnd] := by
  dsimp only
  refine ⟨?_, ?_, count_tableLines _, count_tableLines _, fun t => ⟨isOneLine_argumentLine t,
    entryStart t, entryEnd_not_mem_entryStart t, tokenLines_flat t, tokenLines_nested t⟩⟩
  · show Section.renderAll (mergedSections c _) = _
    rw [mergedSections_flat, tableSection_eq, tableSection_eq]
    rfl
  · show Section.renderAll (mergedSections c _) = _
    rw [mergedSections_nested, tableSection_eq, tableSection_eq, tableLines_nested,
      tableLines_nested]
    rfl

end Phrasebook
