import Mathlib.Algebra.Order.BigOperators.Group.List
import Mathlib.Algebra.Order.Group.Nat
import Phrasebook.LocaleFile.Basic
import Phrasebook.Proofs.Dictionary
import Phrasebook.Proofs.LocaleFile.Paths

/-!
# Strings that are kept

A document is loaded leaf by leaf: a string becomes the message of its token, and any other leaf is
reported (`foldl_addLeaf`). A string is lost if a later one has the same token, and nothing is
reported then; its token is not its path if an empty key at the top has been dropped. These are the
only ways to lose a string (`keepsStrings_iff`).
-/

namespace Phrasebook.LocaleFile

open Json (Value)

/-- A string in a document, and the keys on the way to it. -/
structure StringLeaf where
  path : List String
  text : String

/-- The text of a value, if it is a string. -/
def text? : Value String → Option String
  | .string text => some text
  | _ => none

/-- The strings among some leaves. -/
def strings (ls : List PlacedLeaf) : List StringLeaf :=
  ls.filterMap fun l => (text? l.value).map (⟨l.path, ·⟩)

/-- The leaves among some that are no strings. -/
def others (ls : List PlacedLeaf) : List PlacedLeaf := ls.filter fun l => text? l.value = none

/-- The strings of a document, in its order. -/
def stringLeaves (document : Value String) : List StringLeaf := strings (placedLeaves document)

/-- The leaves of a document that are no strings, in its order. -/
def otherLeaves (document : Value String) : List PlacedLeaf := others (placedLeaves document)

def StringLeaf.token (l : StringLeaf) : String := tokenOf l.path

theorem length_strings_add_others (ls : List PlacedLeaf) :
    (strings ls).length + (others ls).length = ls.length := by
  induction ls with
  | nil => rfl
  | cons l ls ih =>
    unfold strings others at *
    rw [List.filterMap_cons, List.filter_cons, List.length_cons, ← ih]
    cases text? l.value <;> simp <;> omega

section Load

variable (positionOf : String → Position)

/-- The entry of a string, with its token. -/
def StringLeaf.entry (l : StringLeaf) : String × Entry :=
  (l.token, { value := l.text, position := positionOf l.token })

/-- The finding about a leaf that is no string. -/
def findingOf (locale : String) (l : PlacedLeaf) : Diagnostic :=
  .nonStringValue (tokenOf l.path) locale l.value.kind (positionOf (tokenOf l.path))

variable {positionOf} {loaded : Loaded} {l : PlacedLeaf}

theorem addLeaf_string {text : String} (h : text? l.value = some text) :
    addLeaf positionOf loaded (l.toLeaf "") =
      { loaded with
        dictionary := loaded.dictionary.insertEntry (tokenOf l.path)
          { value := text, position := positionOf (tokenOf l.path) } } := by
  obtain ⟨path, v⟩ := l
  cases v with
  | string s => cases h; rfl
  | _ => cases h

theorem addLeaf_other (h : text? l.value = none) :
    addLeaf positionOf loaded (l.toLeaf "") =
      { loaded with
        diagnostics :=
          loaded.diagnostics ++ [findingOf positionOf loaded.dictionary.locale l] } := by
  obtain ⟨path, v⟩ := l
  cases v with
  | string s => cases h
  | _ => rfl

/-- **Loading leaf by leaf**: the strings are put into the dictionary one after another, and every
other leaf is reported. -/
theorem foldl_addLeaf (ls : List PlacedLeaf) :
    (ls.map (·.toLeaf "")).foldl (addLeaf positionOf) loaded =
      { dictionary :=
          { loaded.dictionary with
            entries :=
              loaded.dictionary.entries.insertMany ((strings ls).map (·.entry positionOf)) }
        diagnostics := loaded.diagnostics ++
          (others ls).map (findingOf positionOf loaded.dictionary.locale) } := by
  induction ls generalizing loaded with
  | nil => simp [strings, others, OrderedMap.insertMany]
  | cons l ls ih =>
    rw [List.map_cons, List.foldl_cons, ih]
    cases h : text? l.value with
    | some text =>
      rw [addLeaf_string h]
      simp [strings, others, h, OrderedMap.insertMany, Dictionary.insertEntry, StringLeaf.entry,
        StringLeaf.token]
    | none =>
      rw [addLeaf_other h]
      simp [strings, others, h]

theorem ofDocument_eq (file locale : String) (document : Value String) :
    ofDocument file locale positionOf document =
      { dictionary :=
          { locale
            file := some file
            entries := .ofList ((stringLeaves document).map (·.entry positionOf)) }
        diagnostics := (otherLeaves document).map (findingOf positionOf locale) } := by
  unfold ofDocument
  rw [leaves_eq, foldl_addLeaf, List.nil_append]
  rfl

end Load

/-! ## Strings that are found again -/

/-- The tokens of the strings of a document, in its order. -/
def stringTokens (document : Value String) : List String := (stringLeaves document).map (·.token)

/-- No string of the document is lost: each is found under its own path, joined with dots, and
different strings have different tokens. -/
structure KeepsStrings (document : Value String) (d : Dictionary) : Prop where
  found : ∀ l ∈ stringLeaves document, d.get? (dotted l.path) = some l.text
  apart : ∀ l ∈ stringLeaves document, ∀ l' ∈ stringLeaves document,
    dotted l.path = dotted l'.path → l.path = l'.path

theorem map_path_strings_sublist (ls : List PlacedLeaf) :
    ((strings ls).map (·.path)).Sublist (ls.map (·.path)) := by
  induction ls with
  | nil => exact List.Sublist.slnil
  | cons l ls ih =>
    unfold strings at *
    rw [List.filterMap_cons]
    cases text? l.value with
    | none => exact ih.cons _
    | some text => exact ih.cons_cons _

section Strings

variable {ls : List StringLeaf}

/-- Where every key is kept, the tokens are the dotted paths. -/
theorem map_token_eq (h : ∀ l ∈ ls, KeepsKeys l.path) :
    ls.map (·.token) = ls.map fun l => dotted l.path :=
  List.map_congr_left fun l hl => tokenOf_eq_dotted (h l hl)

/-- **Tokens that are the dotted paths in some order are the dotted paths**: a key that is dropped
makes a token shorter, and nothing makes one longer. -/
theorem keepsKeys_of_perm (h : (ls.map fun l => dotted l.path).Perm (ls.map (·.token))) :
    ∀ l ∈ ls, KeepsKeys l.path := by
  by_contra hnot
  obtain ⟨l, hl, hdropped⟩ : ∃ l ∈ ls, ¬ KeepsKeys l.path := by simpa using hnot
  have hsum := (h.map String.length).sum_eq
  rw [List.map_map, List.map_map] at hsum
  refine absurd hsum (Nat.ne_of_gt ?_)
  apply List.sum_lt_sum
  · exact fun l _ => length_tokenOf_le l.path
  · exact ⟨l, hl, length_tokenOf_lt hdropped⟩

/-- Where keys have no dots, different paths have different tokens. -/
theorem nodup_map_token (hpaths : (ls.map (·.path)).Nodup) (hne : ∀ l ∈ ls, l.path ≠ [])
    (hkeeps : ∀ l ∈ ls, KeepsKeys l.path) (hdots : ∀ l ∈ ls, ∀ key ∈ l.path, '.' ∉ key.toList) :
    (ls.map (·.token)).Nodup := by
  have htokens : ls.map (·.token) = (ls.map (·.path)).map dotted := by
    rw [map_token_eq hkeeps, List.map_map]
    rfl
  rw [htokens]
  apply hpaths.map_on
  intro path hpath other hother h
  obtain ⟨l, hl, rfl⟩ := List.mem_map.1 hpath
  obtain ⟨l', hl', rfl⟩ := List.mem_map.1 hother
  exact dotted_inj (hne l hl) (hne l' hl') (hdots l hl) (hdots l' hl') h

end Strings

section Document

variable {file locale : String} {positionOf : String → Position} {document : Value String}

theorem entries_ofDocument :
    (ofDocument file locale positionOf document).dictionary.entries =
      .ofList ((stringLeaves document).map (·.entry positionOf)) := by
  rw [ofDocument_eq]

theorem map_fst_entries (positionOf : String → Position) (document : Value String) :
    ((stringLeaves document).map (·.entry positionOf)).map Prod.fst = stringTokens document := by
  rw [List.map_map]
  rfl

/-- The tokens of the dictionary are those of the strings. -/
theorem mem_tokens_ofDocument_iff {token : String} :
    token ∈ (ofDocument file locale positionOf document).dictionary.tokens ↔
      token ∈ stringTokens document := by
  rw [Dictionary.tokens, entries_ofDocument, OrderedMap.mem_keys_ofList_iff, map_fst_entries]

/-- **The message of a token** is the last string with this token. -/
theorem get?_ofDocument (token : String) :
    (ofDocument file locale positionOf document).dictionary.get? token =
      OrderedMap.lookup token ((stringLeaves document).map fun l => (l.token, l.text)).reverse := by
  have hvalues : ((stringLeaves document).map (·.entry positionOf)).map
      (fun e => (e.1, e.2.value)) = (stringLeaves document).map fun l => (l.token, l.text) := by
    rw [List.map_map]
    rfl
  rw [Dictionary.get?, Dictionary.entry?, entries_ofDocument, OrderedMap.get?_ofList,
    ← OrderedMap.lookup_map, List.map_reverse, hvalues]

/-- Where tokens are distinct, every string is found under its token. -/
theorem get?_token (h : (stringTokens document).Nodup) {l : StringLeaf}
    (hl : l ∈ stringLeaves document) :
    (ofDocument file locale positionOf document).dictionary.get? l.token = some l.text := by
  rw [get?_ofDocument]
  apply OrderedMap.lookup_of_mem
  · rw [List.map_reverse, List.nodup_reverse, List.map_map]
    exact h
  · exact List.mem_reverse.2 (List.mem_map_of_mem (f := fun l => (l.token, l.text)) hl)

theorem nodup_paths_strings (h : document.DistinctKeys) :
    ((stringLeaves document).map (·.path)).Nodup :=
  (nodup_paths h).sublist (map_path_strings_sublist _)

/-- Strings that are found under their dotted paths keep their keys: as many dotted paths are among
the tokens as there are strings, so they are the tokens in some order. -/
theorem KeepsStrings.keepsKeys (h : document.DistinctKeys)
    (hkept : KeepsStrings document (ofDocument file locale positionOf document).dictionary) :
    (∀ l ∈ stringLeaves document, KeepsKeys l.path) ∧ (stringTokens document).Nodup := by
  have hnodup : ((stringLeaves document).map fun l => dotted l.path).Nodup := by
    have hpaths := nodup_paths_strings h
    refine (hpaths.of_map _).map_on fun l hl l' hl' heq => ?_
    exact List.inj_on_of_nodup_map hpaths hl hl' (hkept.apart l hl l' hl' heq)
  have hsub : ((stringLeaves document).map fun l => dotted l.path).Subperm
      (stringTokens document) := by
    refine hnodup.subperm fun token htoken => ?_
    obtain ⟨l, hl, rfl⟩ := List.mem_map.1 htoken
    obtain ⟨entry, hentry, _⟩ := Option.map_eq_some_iff.1 (hkept.found l hl)
    apply mem_tokens_ofDocument_iff.1
    exact Dictionary.contains_iff.1 (Dictionary.contains_of_entry? hentry)
  have hkeeps := keepsKeys_of_perm (hsub.perm_of_length_le (by simp [stringTokens]))
  refine ⟨hkeeps, ?_⟩
  rw [stringTokens, map_token_eq hkeeps]
  exact hnodup

/-- **When the strings of a document are kept**: if none lies below an empty key at the top of the
document, and their tokens are distinct. -/
theorem keepsStrings_iff (h : document.DistinctKeys) :
    KeepsStrings document (ofDocument file locale positionOf document).dictionary ↔
      (∀ l ∈ stringLeaves document, KeepsKeys l.path) ∧ (stringTokens document).Nodup := by
  refine ⟨fun hkept => hkept.keepsKeys h, ?_⟩
  rintro ⟨hkeeps, hnodup⟩
  constructor
  case found =>
    intro l hl
    rw [← tokenOf_eq_dotted (hkeeps l hl)]
    exact get?_token hnodup hl
  case apart =>
    intro l hl l' hl' heq
    rw [stringTokens, map_token_eq hkeeps] at hnodup
    rw [List.inj_on_of_nodup_map hnodup hl hl' heq]

/-- **When every leaf is accounted for**: if the tokens of the strings are distinct. -/
theorem length_tokens_add_iff :
    (ofDocument file locale positionOf document).dictionary.tokens.length +
        (ofDocument file locale positionOf document).diagnostics.length =
          (placedLeaves document).length ↔ (stringTokens document).Nodup := by
  have hleaves : (stringLeaves document).length + (otherLeaves document).length =
      (placedLeaves document).length := length_strings_add_others _
  rw [← hleaves, ← map_fst_entries positionOf, ← OrderedMap.length_keys_ofList_iff,
    Dictionary.tokens, entries_ofDocument, ofDocument_eq, List.length_map, List.length_map]
  omega

/-- The strings are kept where no key on the way to one has a dot in it. -/
theorem keepsStrings_of_plain {members : List (String × Value String)}
    (h : (Value.object members).DistinctKeys)
    (hplain : ∀ l ∈ stringLeaves (.object members),
      KeepsKeys l.path ∧ ∀ key ∈ l.path, '.' ∉ key.toList) :
    KeepsStrings (.object members)
      (ofDocument file locale positionOf (.object members)).dictionary := by
  have hne : ∀ l ∈ stringLeaves (.object members), l.path ≠ [] := by
    intro l hl
    obtain ⟨placed, hplaced, hpath⟩ := List.mem_map.1
      ((map_path_strings_sublist _).subset (List.mem_map_of_mem hl))
    rw [← hpath]
    exact path_ne_nil placed hplaced
  refine (keepsStrings_iff h).2 ⟨fun l hl => (hplain l hl).1, ?_⟩
  exact nodup_map_token (nodup_paths_strings h) hne (fun l hl => (hplain l hl).1)
    fun l hl => (hplain l hl).2

end Document

/-! ## Texts of files -/

variable {file : Path} {locale text : String} {loaded : Loaded}

theorem exists_ofDocument_of_parse (h : parse file locale text = .ok loaded) :
    ∃ members positionOf, Json.parse? text = some (.object members) ∧
      loaded = ofDocument file.text locale positionOf (.object members) := by
  unfold parse at h
  split at h
  · cases h
  · rename_i members hparse
    cases h
    exact ⟨members, _, hparse, rfl⟩
  · cases h

theorem exists_parse_of_object {members : List (String × Value String)}
    (h : Json.parse? text = some (.object members)) :
    ∃ positionOf, parse file locale text =
      .ok (ofDocument file.text locale positionOf (.object members)) := by
  unfold parse
  rw [h]
  exact ⟨_, rfl⟩

/-- Of two strings with the same token one is lost, and nothing is reported. -/
theorem exists_parse_of_not_nodup {members : List (String × Value String)}
    (h : Json.parse? text = some (.object members))
    (hn : ¬ (stringTokens (.object members)).Nodup) :
    ∃ loaded, parse file locale text = .ok loaded ∧
      ¬ KeepsStrings (.object members) loaded.dictionary ∧
      loaded.dictionary.tokens.length + loaded.diagnostics.length ≠
        (placedLeaves (.object members)).length := by
  obtain ⟨positionOf, hparse⟩ := exists_parse_of_object h
  refine ⟨_, hparse, fun hkept => ?_, fun hlength => ?_⟩
  · exact hn (hkept.keepsKeys (Json.distinctKeys_of_parse h)).2
  · exact hn (length_tokens_add_iff.1 hlength)

/-- **What becomes of the leaves of a locale file.** The document is an object. Every leaf that is
no string is reported, and a token has the text of the last string with this token. So no string is
lost exactly if none lies below an empty key at the top of the document and no two strings have the
same token; and every leaf is accounted for exactly if no two strings have the same token. Both are
so where none lies below an empty key at the top and no key has a dot in it. -/
theorem parse_keepsStrings_iff (h : parse file locale text = .ok loaded) :
    ∃ members, Json.parse? text = some (.object members) ∧
      (∃ positionOf, loaded.diagnostics =
        (otherLeaves (.object members)).map (findingOf positionOf locale)) ∧
      (∀ token, loaded.dictionary.get? token = OrderedMap.lookup token
        ((stringLeaves (.object members)).map fun l => (l.token, l.text)).reverse) ∧
      (KeepsStrings (.object members) loaded.dictionary ↔
        (∀ l ∈ stringLeaves (.object members), KeepsKeys l.path) ∧
          (stringTokens (.object members)).Nodup) ∧
      (loaded.dictionary.tokens.length + loaded.diagnostics.length =
        (placedLeaves (.object members)).length ↔ (stringTokens (.object members)).Nodup) ∧
      ((∀ l ∈ stringLeaves (.object members),
          KeepsKeys l.path ∧ ∀ key ∈ l.path, '.' ∉ key.toList) →
        KeepsStrings (.object members) loaded.dictionary) := by
  obtain ⟨members, positionOf, hparse, rfl⟩ := exists_ofDocument_of_parse h
  have hdistinct := Json.distinctKeys_of_parse hparse
  refine ⟨members, hparse, ⟨positionOf, ?_⟩, get?_ofDocument, keepsStrings_iff hdistinct,
    length_tokens_add_iff, keepsStrings_of_plain hdistinct⟩
  rw [ofDocument_eq]

/-- A string, and a string and an array in a group. -/
theorem exists_parse_keepsStrings :
    ∃ members loaded,
      Json.parse? "\x7b\"a\":\"1\",\"b\":\x7b\"a\":\"2\",\"c\":[]\x7d\x7d" =
        some (.object members) ∧
      parse ⟨"en.json"⟩ "en" "\x7b\"a\":\"1\",\"b\":\x7b\"a\":\"2\",\"c\":[]\x7d\x7d" = .ok loaded ∧
      stringLeaves (.object members) = [⟨["a"], "1"⟩, ⟨["b", "a"], "2"⟩] ∧
      KeepsStrings (.object members) loaded.dictionary ∧
      loaded.dictionary.tokens.length + loaded.diagnostics.length = 3 := by
  have hdocument : Json.parse? "\x7b\"a\":\"1\",\"b\":\x7b\"a\":\"2\",\"c\":[]\x7d\x7d" =
      some (.object [("a", .string "1"),
        ("b", .object [("a", .string "2"), ("c", .array [])])]) := by cbv
  obtain ⟨positionOf, hloaded⟩ : ∃ positionOf, parse ⟨"en.json"⟩ "en" _ = _ :=
    exists_parse_of_object hdocument
  obtain ⟨members, hparse, _, _, _, hlength, hkept⟩ := parse_keepsStrings_iff hloaded
  cases hdocument.symm.trans hparse
  refine ⟨_, _, hdocument, hloaded, rfl, hkept ?_, hlength.2 ?_⟩
  · decide
  · decide

/-- Two strings with the same token, and nothing is reported: one in a group whose key is empty, and
one whose key has a dot in it. -/
theorem exists_parse_loses_string :
    (∃ members loaded,
      Json.parse? "\x7b\"a\":\"1\",\"\":\x7b\"a\":\"2\"\x7d\x7d" = some (.object members) ∧
      stringLeaves (.object members) = [⟨["a"], "1"⟩, ⟨["", "a"], "2"⟩] ∧
      parse ⟨"en.json"⟩ "en" "\x7b\"a\":\"1\",\"\":\x7b\"a\":\"2\"\x7d\x7d" = .ok loaded ∧
      ¬ KeepsStrings (.object members) loaded.dictionary ∧
      loaded.dictionary.tokens.length + loaded.diagnostics.length ≠ 2) ∧
    ∃ members loaded,
      Json.parse? "\x7b\"a.b\":\"1\",\"a\":\x7b\"b\":\"2\"\x7d\x7d" = some (.object members) ∧
      stringLeaves (.object members) = [⟨["a.b"], "1"⟩, ⟨["a", "b"], "2"⟩] ∧
      parse ⟨"en.json"⟩ "en" "\x7b\"a.b\":\"1\",\"a\":\x7b\"b\":\"2\"\x7d\x7d" = .ok loaded ∧
      ¬ KeepsStrings (.object members) loaded.dictionary ∧
      loaded.dictionary.tokens.length + loaded.diagnostics.length ≠ 2 := by
  have hgroup : Json.parse? "\x7b\"a\":\"1\",\"\":\x7b\"a\":\"2\"\x7d\x7d" =
      some (.object [("a", .string "1"), ("", .object [("a", .string "2")])]) := by cbv
  have hdot : Json.parse? "\x7b\"a.b\":\"1\",\"a\":\x7b\"b\":\"2\"\x7d\x7d" =
      some (.object [("a.b", .string "1"), ("a", .object [("b", .string "2")])]) := by cbv
  obtain ⟨loaded, hloaded, hlost⟩ := exists_parse_of_not_nodup hgroup (by decide)
  obtain ⟨loaded', hloaded', hlost'⟩ := exists_parse_of_not_nodup hdot (by decide)
  exact ⟨⟨_, loaded, hgroup, rfl, hloaded, hlost⟩, ⟨_, loaded', hdot, rfl, hloaded', hlost'⟩⟩

end Phrasebook.LocaleFile
