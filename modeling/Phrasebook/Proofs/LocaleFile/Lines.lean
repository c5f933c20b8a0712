import Phrasebook.Proofs.Json.Located
import Phrasebook.Proofs.LocaleFile.KeyLine
import Phrasebook.Proofs.LocaleFile.Positions

/-!
# The lines of leaves

A leaf has its own line, on which its key is written, and the line that is found for it by searching
the text for the parts of its dotted key. Every leaf is loaded with the line that is found
(`ofDocument_eq_loadedWith`). Where the keys on the way to a leaf are written as they are read and
have no dots in them, the line that is found is never below the leaf's own, and it is above just if
the parts of the dotted key already stand one after another, as keys do, on the lines above
(`parse_lines`). Short documents show that this happens, and that keys with dots or escapes in them
are missed too (`missesLine_of_keys`).
-/

namespace Phrasebook.LocaleFile

open Json (Value Located)
open Text (lineOf)

/-! ## Leaves and their keys -/

/-- A value that is no object, and the keys on the way to it, with their places in the text. -/
structure LocatedLeaf where
  path : List Located
  value : Value Located

namespace LocatedLeaf

/-- The leaf below one more key. -/
def below (key : Located) (l : LocatedLeaf) : LocatedLeaf := { l with path := key :: l.path }

/-- The leaf without the places. -/
def toPlaced (l : LocatedLeaf) : PlacedLeaf := ⟨l.path.map (·.text), l.value.map Located.text⟩

def token (l : LocatedLeaf) : String := tokenOf (l.path.map (·.text))

/-- The line on which the key of the leaf is written. -/
def line (text : List Char) (l : LocatedLeaf) : Nat :=
  match l.path.getLast? with
  | none => 1
  | some key => lineOf text (key.written ++ key.rest)

/-- The line that is found for the leaf. -/
def foundLine (text : List Char) (l : LocatedLeaf) : Nat := keyLine (.ofText text) text l.token

end LocatedLeaf

mutual

/-- The leaves of a value with the places of their keys, in the order of the document. -/
def locatedLeaves : Value Located → List LocatedLeaf
  | .object members => locatedLeavesOfMembers members
  | v => [⟨[], v⟩]

def locatedLeavesOfMembers : List (Located × Value Located) → List LocatedLeaf
  | [] => []
  | m :: ms => locatedLeavesOfMember m ++ locatedLeavesOfMembers ms

def locatedLeavesOfMember : Located × Value Located → List LocatedLeaf
  | (key, v) => (locatedLeaves v).map (.below key)

end

mutual

theorem placedLeaves_map (v : Value Located) :
    placedLeaves (v.map Located.text) = (locatedLeaves v).map (·.toPlaced) := by
  match v with
  | .object members => exact placedLeavesOfMembers_map members
  | .null | .boolean _ | .number _ | .string _ | .array _ => rfl

theorem placedLeavesOfMembers_map (ms : List (Located × Value Located)) :
    placedLeavesOfMembers (Value.mapMembers Located.text ms) =
      (locatedLeavesOfMembers ms).map (·.toPlaced) := by
  match ms with
  | [] => rfl
  | m :: ms =>
    rw [locatedLeavesOfMembers, List.map_append, ← placedLeavesOfMember_map,
      ← placedLeavesOfMembers_map]
    rfl

theorem placedLeavesOfMember_map (m : Located × Value Located) :
    placedLeavesOfMember (Value.mapMember Located.text m) =
      (locatedLeavesOfMember m).map (·.toPlaced) := by
  match m with
  | (key, v) =>
    rw [locatedLeavesOfMember, Value.mapMember, placedLeavesOfMember, placedLeaves_map,
      List.map_map, List.map_map]
    rfl

end

theorem locatedLeavesOfMembers_eq (ms : List (Located × Value Located)) :
    locatedLeavesOfMembers ms = ms.flatMap fun m => (locatedLeaves m.2).map (.below m.1) := by
  induction ms with
  | nil => rfl
  | cons m ms ih =>
    obtain ⟨key, v⟩ := m
    rw [locatedLeavesOfMembers, List.flatMap_cons, ih, locatedLeavesOfMember]

theorem locatedLeaves_of_kind {v : Value Located} (h : v.kind ≠ .object) :
    locatedLeaves v = [⟨[], v⟩] := by
  cases v with
  | object members => exact absurd rfl h
  | _ => rfl

/-- Each key of a path stands behind the one before it. -/
def PathFollows : List Char → List Located → Prop
  | _, [] => True
  | base, key :: keys => key.IsKeyIn base ∧ PathFollows key.rest keys

theorem pathFollows_of_mem {base : List Char} {v : Value Located} (h : v.KeysFollow base) :
    ∀ l ∈ locatedLeaves v, PathFollows base l.path := by
  induction h with
  | leaf hkind =>
    rw [locatedLeaves_of_kind hkind]
    intro l hl
    rw [List.mem_singleton.1 hl]
    exact trivial
  | @object base members hkeys _ ih =>
    intro l hl
    rw [locatedLeaves, locatedLeavesOfMembers_eq] at hl
    obtain ⟨m, hm, hl⟩ := List.mem_flatMap.1 hl
    obtain ⟨l', hl', rfl⟩ := List.mem_map.1 hl
    exact ⟨hkeys m hm, ih m hm l' hl'⟩

theorem exists_path_eq {members : List (Located × Value Located)} :
    ∀ l ∈ locatedLeaves (.object members), ∃ keys key, l.path = keys ++ [key] := by
  intro l hl
  rw [locatedLeaves, locatedLeavesOfMembers_eq] at hl
  obtain ⟨m, -, hl⟩ := List.mem_flatMap.1 hl
  obtain ⟨l', -, rfl⟩ := List.mem_map.1 hl
  exact ⟨_, _, (List.dropLast_concat_getLast (List.cons_ne_nil m.1 l'.path)).symm⟩

/-- The last key of a path stands in the text. -/
theorem standsIn_of_pathFollows {base : List Char} {keys : List Located} {key : Located}
    (h : PathFollows base (keys ++ [key])) : key.StandsIn base := by
  induction keys generalizing base with
  | nil => exact h.1.toStandsIn
  | cons k keys ih =>
    have hbase : k.rest <:+ base := (List.suffix_append _ _).trans h.1.suffix
    exact (ih h.2).of_suffix hbase

/-! ## What is loaded -/

/-- What is loaded if each leaf has the line that is given for it. -/
def loadedWith (file locale : String) (line : LocatedLeaf → Nat) (ls : List LocatedLeaf) : Loaded :=
  ls.foldl (fun loaded l =>
    addLeaf (fun _ => { file, line := line l }) loaded ⟨l.token, l.value.map Located.text⟩)
    ⟨{ locale, file := some file }, []⟩

/-- **Each leaf is loaded with the line that is found for it.** -/
theorem ofDocument_eq_loadedWith (file : Path) (locale text : String) (document : Value Located) :
    ofDocument file.text locale (positionIn file text) (document.map Located.text) =
      loadedWith file.text locale (·.foundLine text.toList) (locatedLeaves document) := by
  unfold ofDocument loadedWith
  rw [leaves_eq, placedLeaves_map, List.map_map, List.foldl_map]
  rfl

theorem loadedWith_congr {file locale : String} {line line' : LocatedLeaf → Nat}
    {ls : List LocatedLeaf} (h : ∀ l ∈ ls, line l = line' l) :
    loadedWith file locale line ls = loadedWith file locale line' ls := by
  unfold loadedWith
  apply List.foldl_ext
  intro loaded l hl
  rw [h l hl]

/-! ## Keys that are written as they are read -/

/-- The key is written as it is read, and has no dot in it. -/
def IsPlain (key : Located) : Prop :=
  '.' ∉ key.text.toList ∧ key.written = between key.text.toList

instance (key : Located) : Decidable (IsPlain key) := inferInstanceAs (Decidable (_ ∧ _))

theorem isBlank_of_isSpace {c : Char} (h : Json.isSpace c = true) : Text.isBlank c = true := by
  simp only [Json.isSpace, Bool.or_eq_true, decide_eq_true_iff] at h
  rcases h with ((rfl | rfl) | rfl) | rfl <;> decide

/-- What JSON skips in front of a colon, the search for keys skips too. -/
theorem colonFollows_of_dropWhile {cs : List Char}
    (h : (cs.dropWhile Json.isSpace).head? = some ':') : colonFollows cs = true := by
  induction cs with
  | nil => cases h
  | cons c cs ih =>
    unfold colonFollows Text.skipBlanks
    rw [List.dropWhile_cons] at h ⊢
    split at h
    · rename_i hspace
      rw [if_pos (isBlank_of_isSpace hspace)]
      exact ih h
    · obtain rfl := Option.some.inj h
      rfl

theorem occurs_of_isKeyIn {base : List Char} {key : Located} (hplain : IsPlain key)
    (h : key.IsKeyIn base) : Occurs key.text.toList base key.rest := by
  obtain ⟨pre, hpre⟩ := h.suffix
  refine ⟨pre, ?_, colonFollows_of_dropWhile h.colon⟩
  rw [← hpre, hplain.2, List.append_assoc]

theorem inOrder_of_pathFollows {base : List Char} {keys : List Located} {key : Located}
    (h : PathFollows base (keys ++ [key])) (hplain : ∀ k ∈ keys ++ [key], IsPlain k) :
    InOrder ((keys ++ [key]).map fun k => k.text.toList) base key.rest := by
  induction keys generalizing base with
  | nil => exact ⟨key.rest, occurs_of_isKeyIn (hplain key List.mem_cons_self) h.1, rfl⟩
  | cons k keys ih =>
    rw [List.cons_append, List.forall_mem_cons] at hplain
    exact ⟨k.rest, occurs_of_isKeyIn hplain.1 h.1, ih h.2 hplain.2⟩

/-- The parts of the dotted key are the last keys of the path: all of them, or all but empty ones at
the beginning. -/
theorem partsOf_tokenOf {path : List String} (hne : path ≠ [])
    (h : ∀ key ∈ path, '.' ∉ key.toList) :
    partsOf (tokenOf path) ≠ [] ∧ partsOf (tokenOf path) <:+ path.map String.toList := by
  induction path with
  | nil => exact absurd rfl hne
  | cons key path ih =>
    by_cases hkey : key = ""
    · subst hkey
      cases path with
      | nil => exact ⟨List.cons_ne_nil _ _, List.suffix_rfl⟩
      | cons next path =>
        obtain ⟨hparts, hsuffix⟩ := ih (List.cons_ne_nil _ _) (List.forall_mem_cons.1 h).2
        rw [tokenOf_empty_cons]
        exact ⟨hparts, hsuffix.trans (List.suffix_cons _ _)⟩
    · have hparts : partsOf (tokenOf (key :: path)) = (key :: path).map String.toList := by
        rw [tokenOf_cons hkey]
        exact splitOn_dotted hne h
      rw [hparts]
      exact ⟨List.cons_ne_nil _ _, List.suffix_rfl⟩

/-- The parts of the dotted key stand in the text, the last of them where the key of the leaf
does. -/
theorem inOrder_partsOf_token {text : List Char} {l : LocatedLeaf} {keys : List Located}
    {key : Located} (hpath : l.path = keys ++ [key]) (h : PathFollows text l.path)
    (hplain : ∀ k ∈ l.path, IsPlain k) : InOrder (partsOf l.token) text key.rest := by
  have hdots : ∀ k ∈ l.path.map (·.text), '.' ∉ k.toList := by
    intro k hk
    obtain ⟨k', hk', rfl⟩ := List.mem_map.1 hk
    exact (hplain k' hk').1
  have hne : l.path.map (·.text) ≠ [] := by
    rw [hpath]
    simp
  obtain ⟨hparts, before, hbefore⟩ := partsOf_tokenOf hne hdots
  have hall := inOrder_of_pathFollows (hpath ▸ h) (hpath ▸ hplain)
  rw [← hpath, show l.path.map (fun k => k.text.toList) =
    (l.path.map (·.text)).map String.toList by rw [List.map_map]; rfl, ← hbefore] at hall
  obtain ⟨mid, hfirst, hlast⟩ := inOrder_append_iff.1 hall
  exact hlast.of_suffix hparts hfirst.suffix

/-! ## Texts of files -/

variable {file : Path} {locale text : String} {loaded : Loaded}

/-- A text is loaded if it is an object, and what is loaded has the lines that are found. -/
theorem parse_eq_ok_iff_located : parse file locale text = .ok loaded ↔
    ∃ members, Json.locate? text = some (.object members) ∧
      loaded = loadedWith file.text locale (·.foundLine text.toList)
        (locatedLeaves (.object members)) := by
  rw [parse_eq_ok_iff, Json.parse?_eq_map_locate?]
  constructor
  · rintro ⟨strict, hparse, rfl⟩
    obtain ⟨document, hlocate, hdocument⟩ := Option.map_eq_some_iff.1 hparse
    cases document with
    | object members =>
      refine ⟨members, hlocate, ?_⟩
      rw [← hdocument, ofDocument_eq_loadedWith]
    | _ => cases hdocument
  · rintro ⟨members, hlocate, rfl⟩
    refine ⟨Value.mapMembers Located.text members, ?_, ?_⟩
    · rw [hlocate]
      rfl
    · exact (ofDocument_eq_loadedWith file locale text (.object members)).symm

/-- What is known of the line that is found for a leaf. -/
structure LineSpec (text : List Char) (l : LocatedLeaf) : Prop where
  /-- The keys on the way to the leaf stand in the text one behind the other. -/
  follows : PathFollows text l.path
  /-- The line is that of the first place behind as many parts of the dotted key as can be found. -/
  leads : ∃ found missing rest, partsOf l.token = found ++ missing ∧
    Leads found missing text rest ∧ l.foundLine text = lineOf text rest
  /-- For plain keys it is not below the leaf's own line. -/
  le_line : (∀ key ∈ l.path, IsPlain key) → l.foundLine text ≤ l.line text
  /-- For plain keys it is the leaf's own line unless the parts of its dotted key already stand one
  after another on the lines above. -/
  eq_line_iff : (∀ key ∈ l.path, IsPlain key) → (l.foundLine text = l.line text ↔
    ¬ ∃ rest, InOrder (partsOf l.token) text rest ∧ lineOf text rest < l.line text)

theorem lineSpec_of_mem {text : List Char} {members : List (Located × Value Located)}
    (h : (Value.object members).KeysFollow text) {l : LocatedLeaf}
    (hl : l ∈ locatedLeaves (.object members)) : LineSpec text l := by
  have hfollows := pathFollows_of_mem h l hl
  obtain ⟨keys, key, hpath⟩ := exists_path_eq l hl
  have hstands : key.StandsIn text := standsIn_of_pathFollows (hpath ▸ hfollows)
  have hline : l.line text = lineOf text key.rest := by
    obtain ⟨raw, hwritten, hraw⟩ := hstands.quoted
    have hfeed : '\n' ∉ key.written := by
      rw [hwritten]
      simp [hraw]
    unfold LocatedLeaf.line
    rw [hpath, List.getLast?_concat]
    exact Text.lineOf_eq_of_not_mem hfeed hstands.suffix
  have hplainLine (hplain : ∀ k ∈ l.path, IsPlain k) :=
    keyLine_le_and_eq_iff (inOrder_partsOf_token hpath hfollows hplain)
  exact ⟨hfollows, keyLine_eq text l.token, fun hplain => hline ▸ (hplainLine hplain).1,
    fun hplain => hline ▸ (hplainLine hplain).2⟩

/-- **The lines of a locale file.** Each leaf is loaded with the line that is found for it. That is
the line of the first place behind as many parts of its dotted key as can be found one after
another, each between quotes and with a colon behind it. Where the keys on the way to the leaf are
written as they are read and have no dots, it is at most the leaf's own line, and it is the leaf's
own line unless the parts already stand like that on the lines above. -/
theorem parse_lines (h : parse file locale text = .ok loaded) :
    ∃ members, Json.locate? text = some (.object members) ∧
      Json.parse? text = some ((Value.object members).map Located.text) ∧
      loaded = loadedWith file.text locale (·.foundLine text.toList)
        (locatedLeaves (.object members)) ∧
      (∀ l ∈ locatedLeaves (.object members), LineSpec text.toList l) ∧
      ((∀ l ∈ locatedLeaves (.object members), (∀ key ∈ l.path, IsPlain key) ∧
          ¬ ∃ rest, InOrder (partsOf l.token) text.toList rest ∧
            lineOf text.toList rest < l.line text.toList) →
        loaded = loadedWith file.text locale (·.line text.toList)
          (locatedLeaves (.object members))) := by
  obtain ⟨members, hlocate, rfl⟩ := parse_eq_ok_iff_located.1 h
  have hlines : ∀ l ∈ locatedLeaves (.object members), LineSpec text.toList l :=
    fun l hl => lineSpec_of_mem (Json.keysFollow_of_locate? hlocate) hl
  refine ⟨members, hlocate, ?_, rfl, hlines, fun hplain => loadedWith_congr fun l hl => ?_⟩
  · rw [Json.parse?_eq_map_locate?, hlocate]
    rfl
  · exact ((hlines l hl).eq_line_iff (hplain l hl).1).2 (hplain l hl).2

/-- The tokens of the leaves of a text, each with the line that is found for it and its own line. -/
def linesOf? (text : String) : Option (List (String × Nat × Nat)) :=
  (Json.locate? text).map fun document =>
    (locatedLeaves document).map fun l => (l.token, l.foundLine text.toList, l.line text.toList)

/-- Two strings in a group; the text of the first has the name of the group in it. -/
def greetings : String :=
  "\x7b\n \"Auth\": \x7b\n  \"message\": \"Welcome to Auth page\",\n" ++
    "  \"title\": \"Auth Login\"\n \x7d\n\x7d"

/-- Both strings of the group are loaded with their own lines. -/
theorem parse_greetings :
    ∃ members loaded, Json.locate? greetings = some (.object members) ∧
      parse ⟨"en.json"⟩ "en" greetings = .ok loaded ∧
      loaded = loadedWith "en.json" "en" (·.line greetings.toList)
        (locatedLeaves (.object members)) ∧
      linesOf? greetings = some [("Auth.message", 3, 3), ("Auth.title", 4, 4)] := by
  have hread : (Json.locate? greetings).map (fun v => (v.kind, decide (∀ l ∈ locatedLeaves v,
      (∀ key ∈ l.path, IsPlain key) ∧ l.foundLine greetings.toList = l.line greetings.toList))) =
      some (.object, true) := by decide +kernel
  obtain ⟨document, hlocate, hdocument⟩ := Option.map_eq_some_iff.1 hread
  obtain ⟨hkind, hown⟩ := Prod.mk.inj hdocument
  cases document with
  | object members =>
    obtain ⟨loaded, hloaded⟩ : ∃ loaded, parse ⟨"en.json"⟩ "en" greetings = .ok loaded :=
      ⟨_, parse_eq_ok_iff_located.2 ⟨members, hlocate, rfl⟩⟩
    obtain ⟨members', hlocate', -, -, hlines, heq⟩ := parse_lines hloaded
    cases hlocate.symm.trans hlocate'
    refine ⟨members, loaded, hlocate, hloaded, heq fun l hl => ?_, by decide +kernel⟩
    obtain ⟨hplain, hline⟩ := of_decide_eq_true hown l hl
    exact ⟨hplain, ((hlines l hl).eq_line_iff hplain).1 hline⟩
  | _ => cases hkind

/-- A text is loaded, and not each leaf of it with its own line. -/
def MissesLine (file : Path) (locale text : String) : Prop :=
  ∃ members loaded, Json.locate? text = some (.object members) ∧
    parse file locale text = .ok loaded ∧
    loaded ≠ loadedWith file.text locale (·.line text.toList) (locatedLeaves (.object members))

theorem missesLine_iff : MissesLine file locale text ↔
    ∃ members, Json.locate? text = some (.object members) ∧
      loadedWith file.text locale (·.foundLine text.toList) (locatedLeaves (.object members)) ≠
        loadedWith file.text locale (·.line text.toList) (locatedLeaves (.object members)) := by
  constructor
  · rintro ⟨members, loaded, hlocate, hloaded, hne⟩
    obtain ⟨members', hlocate', rfl⟩ := parse_eq_ok_iff_located.1 hloaded
    cases hlocate.symm.trans hlocate'
    exact ⟨members, hlocate, hne⟩
  · rintro ⟨members, hlocate, hne⟩
    exact ⟨members, _, hlocate, parse_eq_ok_iff_located.2 ⟨members, hlocate, rfl⟩, hne⟩

instance : Decidable (MissesLine file locale text) :=
  match hlocate : Json.locate? text with
  | some (.object members) =>
    decidable_of_iff
      (loadedWith file.text locale (·.foundLine text.toList) (locatedLeaves (.object members)) ≠
        loadedWith file.text locale (·.line text.toList) (locatedLeaves (.object members)))
      (by simp [missesLine_iff, hlocate])
  | none => isFalse (by simp [missesLine_iff, hlocate])
  | some .null | some (.boolean _) | some (.number _) | some (.string _) | some (.array _) =>
    isFalse (by simp [missesLine_iff, hlocate])

/-- The key of another group is found, a key with a dot in it or an escape is not, and a text is
taken for a key. -/
theorem missesLine_of_keys :
    (MissesLine ⟨"en.json"⟩ "en" "\x7b\"a\":\x7b\"b\":\"1\"\x7d,\n\"b\":\"2\"\x7d" ∧
      linesOf? "\x7b\"a\":\x7b\"b\":\"1\"\x7d,\n\"b\":\"2\"\x7d" =
        some [("a.b", 1, 1), ("b", 1, 2)]) ∧
    (MissesLine ⟨"en.json"⟩ "en" "\x7b\"a\":\"1\",\n\"a.b\":\"2\"\x7d" ∧
      linesOf? "\x7b\"a\":\"1\",\n\"a.b\":\"2\"\x7d" = some [("a", 1, 1), ("a.b", 1, 2)]) ∧
    (MissesLine ⟨"en.json"⟩ "en" "\x7b\"a\":\"1\",\n\"\\u0062\":\"2\"\x7d" ∧
      linesOf? "\x7b\"a\":\"1\",\n\"\\u0062\":\"2\"\x7d" = some [("a", 1, 1), ("b", 1, 2)]) ∧
    MissesLine ⟨"en.json"⟩ "en" "\x7b\"a\":\"\\\"b\\\": 1\",\n\"b\\\\\":\"2\"\x7d" ∧
      linesOf? "\x7b\"a\":\"\\\"b\\\": 1\",\n\"b\\\\\":\"2\"\x7d" =
        some [("a", 1, 1), ("b\\", 1, 2)] := by
  decide +kernel

end Phrasebook.LocaleFile
