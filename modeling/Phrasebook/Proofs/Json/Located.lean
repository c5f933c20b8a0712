import Phrasebook.Proofs.Json.Lexemes
import Phrasebook.Proofs.Json.Mapped

/-!
# Where the keys of a document are written

The strict reading of a text, on texts that know how they are written and what follows them
(`locate?`); without that knowledge it is the strict reading (`parse?_eq_map_locate?`). In the value
that is read every key stands in what follows the key of the object that it is in, with a colon
behind it (`keysFollow_of_locate?`). Of a repeated key it is the last one that is kept, as is its
value.
-/

namespace Phrasebook.Json

/-- A text in a document: how it is written, quotes and all, and what follows it. -/
structure Located where
  text : String
  written : List Char
  rest : List Char
  deriving DecidableEq

/-- The tokens of a text, with the places of the texts among them. -/
def locatedTokens (cs : List Char) : Option (List (Token (Option Located))) :=
  match _hs : cs.dropWhile isSpace with
  | [] => some []
  | c :: cs' =>
    match _ht : readToken c cs' with
    | none => none
    | some (t, rest) =>
      let written := (c :: cs').take ((c :: cs').length - rest.length)
      (locatedTokens rest).map (t.map (Option.map fun text => ⟨text, written, rest⟩) :: ·)
  termination_by cs.length
  decreasing_by
    have h₁ := (List.dropWhile_suffix (l := cs) isSpace).length_le
    have h₂ := length_le_of_readToken _ht
    rw [_hs, List.length_cons] at h₁
    omega

/-- Keeps one member for each key, in the place of the first with the key and value of the last. -/
def AddMember.keepLastLocated : AddMember Located
  | key, value, [] => [(key, value)]
  | key, value, m :: ms =>
    if m.1.text = key.text then (key, value) :: ms else m :: keepLastLocated key value ms

/-- The strict reading of a text, with the places of texts. -/
def locate? (text : String) : Option (Value Located) := do
  let ts ← locatedTokens text.toList
  if withinDepth depthLimit 0 ts then
    ofTokens? .keepLastLocated (← ts.mapM Token.strict?)
  else none

/-! ## Forgetting places -/

theorem map_locatedTokens (cs : List Char) :
    (locatedTokens cs).map (List.map (Token.map (Option.map Located.text))) = tokens cs := by
  fun_induction locatedTokens cs with
  | case1 cs hs =>
    rw [tokens, hs]
    rfl
  | case2 cs c cs' hs ht =>
    rw [tokens, hs]
    dsimp only
    rw [ht]
    rfl
  | case3 cs c cs' hs t rest ht written ih =>
    rw [tokens, hs]
    dsimp only
    rw [ht]
    dsimp only
    have hsame : (t.map (Option.map fun text => Located.mk text written rest)).map
        (Option.map Located.text) = t := by
      cases t with
      | text s => cases s <;> rfl
      | _ => rfl
    rw [← ih]
    cases locatedTokens rest with
    | none => rfl
    | some ts => exact congrArg some (congrArg (· :: _) hsame)

theorem respects_keepLast : AddMember.keepLastLocated.Respects Located.text .keepLast := by
  intro key v members
  induction members with
  | nil => rfl
  | cons m ms ih =>
    obtain ⟨k, value⟩ := m
    have hput : AddMember.keepLast key.text (v.map Located.text)
          (Value.mapMembers Located.text ((k, value) :: ms)) =
        if k.text = key.text then
          (key.text, v.map Located.text) :: Value.mapMembers Located.text ms
        else (k.text, value.map Located.text) ::
          AddMember.keepLast key.text (v.map Located.text) (Value.mapMembers Located.text ms) := rfl
    rw [hput, ← ih, AddMember.keepLastLocated]
    split <;> rfl

/-- **Without the places it is the strict reading.** -/
theorem parse?_eq_map_locate? (text : String) :
    parse? text = (locate? text).map (Value.map Located.text) := by
  unfold parse? locate?
  rw [← map_locatedTokens]
  cases locatedTokens text.toList with
  | none => rfl
  | some ts =>
    simp only [Option.map_some, Option.bind_eq_bind, Option.bind_some, withinDepth_map,
      mapM_strict?_map]
    split
    · cases ts.mapM Token.strict? with
      | none => rfl
      | some ts' => exact ofTokens?_map respects_keepLast ts'
    · rfl

/-! ## Keys behind keys -/

/-- The text stands in an end of the document, between quotes and on one line. -/
structure Located.StandsIn (t : Located) (base : List Char) : Prop where
  suffix : t.written ++ t.rest <:+ base
  quoted : ∃ raw, t.written = '\x22' :: raw ++ ['\x22'] ∧ '\n' ∉ raw

theorem Located.StandsIn.of_suffix {k : Located} {base base' : List Char} (h : k.StandsIn base)
    (hbase : base <:+ base') : k.StandsIn base' := ⟨h.suffix.trans hbase, h.quoted⟩

/-- The text stands there as a key. -/
structure Located.IsKeyIn (t : Located) (base : List Char) : Prop extends t.StandsIn base where
  colon : (t.rest.dropWhile isSpace).head? = some ':'

/-- Every key stands behind the key of the object that it is in. -/
inductive Value.KeysFollow : List Char → Value Located → Prop
  | leaf {base : List Char} {v : Value Located} (h : v.kind ≠ .object) : KeysFollow base v
  | object {base : List Char} {members : List (Located × Value Located)}
    (hkeys : ∀ m ∈ members, m.1.IsKeyIn base)
    (hvalues : ∀ m ∈ members, KeysFollow m.1.rest m.2) : KeysFollow base (object members)

/-- The members of an object whose key `base` follows. -/
structure MembersFollow (base : List Char) (members : List (Located × Value Located)) : Prop where
  keys : ∀ m ∈ members, m.1.IsKeyIn base
  values : ∀ m ∈ members, m.2.KeysFollow m.1.rest

namespace MembersFollow

variable {base : List Char} {members : List (Located × Value Located)} {key : Located}
  {v : Value Located}

theorem nil : MembersFollow base [] := ⟨nofun, nofun⟩

theorem mem_keepLastLocated {m : Located × Value Located}
    (h : m ∈ AddMember.keepLastLocated key v members) : m = (key, v) ∨ m ∈ members := by
  induction members with
  | nil => exact .inl (List.mem_singleton.1 h)
  | cons m' ms ih =>
    unfold AddMember.keepLastLocated at h
    split at h <;> rcases List.mem_cons.1 h with rfl | h
    · exact .inl rfl
    · exact .inr (List.mem_cons_of_mem _ h)
    · exact .inr List.mem_cons_self
    · exact (ih h).imp_right (List.mem_cons_of_mem _)

theorem keepLastLocated (h : MembersFollow base members) (hkey : key.IsKeyIn base)
    (hv : v.KeysFollow key.rest) :
    MembersFollow base (AddMember.keepLastLocated key v members) where
  keys m hm := by
    rcases mem_keepLastLocated hm with rfl | hm
    · exact hkey
    · exact h.keys m hm
  values m hm := by
    rcases mem_keepLastLocated hm with rfl | hm
    · exact hv
    · exact h.values m hm

end MembersFollow

/-- What follows the key of the innermost object that is open, in which its members stand. -/
def openRest (text : List Char) : List (Frame Located) → List Char
  | [] => text
  | .array _ :: fs => openRest text fs
  | .object _ key :: _ => key.rest

/-- The keys of open objects follow one another, and so do the keys in their members. -/
def FramesFollow (text : List Char) : List (Frame Located) → Prop
  | [] => True
  | .array _ :: fs => FramesFollow text fs
  | .object members key :: fs =>
    MembersFollow (openRest text fs) members ∧ key.IsKeyIn (openRest text fs) ∧ FramesFollow text fs

namespace State

variable {text rest : List Char} {fs : List (Frame Located)} {v : Value Located}

/-- All keys that have been read follow one another, and the rest of the text follows them. -/
def Follows (text rest : List Char) : State Located → Prop
  | value fs | firstItem fs | firstMember fs | afterItem fs _ =>
    FramesFollow text fs ∧ rest <:+ openRest text fs
  | key fs members | afterMember fs members =>
    FramesFollow text fs ∧ rest <:+ openRest text fs ∧ MembersFollow (openRest text fs) members
  | colon fs members k =>
    FramesFollow text fs ∧ MembersFollow (openRest text fs) members ∧
      k.StandsIn (openRest text fs) ∧ k.rest = rest
  | done v => v.KeysFollow text

theorem follows_complete (hfs : FramesFollow text fs) (hrest : rest <:+ openRest text fs)
    (hv : v.KeysFollow (openRest text fs)) :
    Follows text rest (complete .keepLastLocated v fs) := by
  rcases fs with _ | ⟨items | ⟨members, k⟩, fs⟩
  · exact hv
  · exact ⟨hfs, hrest⟩
  · obtain ⟨hmembers, hkey, hfs⟩ := hfs
    have hbase : k.rest <:+ openRest text fs := (List.suffix_append _ _).trans hkey.suffix
    exact ⟨hfs, hrest.trans hbase, hmembers.keepLastLocated hkey hv⟩

theorem follows_begin? {t : Token Located} {s : State Located} (hfs : FramesFollow text fs)
    (hrest : rest <:+ openRest text fs) (h : begin? .keepLastLocated fs t = some s) :
    Follows text rest s := by
  unfold begin? at h
  split at h <;> cases h
  any_goals exact follows_complete hfs hrest (.leaf nofun)
  all_goals exact ⟨hfs, hrest⟩

/-- What a token is read from: an end of the text, of which it leaves an end. -/
structure Reads (t : Token Located) (cs rest : List Char) : Prop where
  suffix : rest <:+ cs
  text : ∀ s, t = .text s → s.StandsIn cs ∧ s.rest = rest
  colon : t = .colon → (cs.dropWhile isSpace).head? = some ':'

/-- **Every step keeps the keys one behind the other.** -/
theorem follows_step? {t : Token Located} {s s' : State Located} {cs : List Char}
    (hread : Reads t cs rest) (hs : Follows text cs s)
    (h : step? .keepLastLocated s t = some s') : Follows text rest s' := by
  cases s with
  | value fs => exact follows_begin? hs.1 (hread.suffix.trans hs.2) h
  | firstItem fs =>
    obtain ⟨hfs, hrest⟩ := hs
    have hrest' := hread.suffix.trans hrest
    by_cases ht : t = .closeArray
    · subst ht
      cases h
      exact follows_complete hfs hrest' (.leaf nofun)
    · -- The token is the first of the first item.
      have hbegin : step? .keepLastLocated (firstItem fs) t =
          begin? .keepLastLocated (.array [] :: fs) t := by
        cases t <;> first | rfl | exact absurd rfl ht
      have hframes : FramesFollow text (.array [] :: fs) := hfs
      exact follows_begin? hframes hrest' (hbegin ▸ h)
  | firstMember fs =>
    obtain ⟨hfs, hrest⟩ := hs
    cases t <;> cases h
    case firstMember.closeObject.refl =>
      exact follows_complete hfs (hread.suffix.trans hrest) (.object nofun nofun)
    case firstMember.text.refl k =>
      obtain ⟨hstands, heq⟩ := hread.text k rfl
      exact ⟨hfs, .nil, hstands.of_suffix hrest, heq⟩
  | afterItem fs items =>
    obtain ⟨hfs, hrest⟩ := hs
    have hrest' := hread.suffix.trans hrest
    cases t <;> cases h
    case afterItem.comma.refl => exact ⟨hfs, hrest'⟩
    case afterItem.closeArray.refl => exact follows_complete hfs hrest' (.leaf nofun)
  | key fs members =>
    obtain ⟨hfs, hrest, hmembers⟩ := hs
    cases t <;> cases h
    case key.text.refl k =>
      obtain ⟨hstands, heq⟩ := hread.text k rfl
      exact ⟨hfs, hmembers, hstands.of_suffix hrest, heq⟩
  | colon fs members k =>
    obtain ⟨hfs, hmembers, hstands, rfl⟩ := hs
    cases t <;> cases h
    case colon.colon.refl => exact ⟨⟨hmembers, ⟨hstands, hread.colon rfl⟩, hfs⟩, hread.suffix⟩
  | afterMember fs members =>
    obtain ⟨hfs, hrest, hmembers⟩ := hs
    have hrest' := hread.suffix.trans hrest
    cases t <;> cases h
    case afterMember.comma.refl => exact ⟨hfs, hrest', hmembers⟩
    case afterMember.closeObject.refl =>
      exact follows_complete hfs hrest' (.object hmembers.keys hmembers.values)
  | done v => cases t <;> cases h

/-- The tokens of a text are read from it. -/
theorem reads_of_strict? {c : Char} {cs cs' : List Char} {t : Token (Option String)}
    {t' : Token Located} (hs : cs.dropWhile isSpace = c :: cs')
    (ht : readToken c cs' = some (t, rest))
    (h : (t.map (Option.map fun s =>
      Located.mk s ((c :: cs').take ((c :: cs').length - rest.length)) rest)).strict? = some t') :
    Reads t' cs rest := by
  have hcs : c :: cs' <:+ cs := hs ▸ List.dropWhile_suffix isSpace
  have hsame := Token.eq_map_of_strict? h
  refine ⟨(suffix_of_readToken ht).trans ((List.suffix_cons c cs').trans hcs), ?_, ?_⟩
  · rintro s rfl
    obtain ⟨o, rfl, ho⟩ := Token.eq_text_of_map_eq hsame
    obtain ⟨str, -, rfl⟩ := Option.map_eq_some_iff.1 ho
    obtain ⟨raw, hwritten, hraw⟩ := exists_written_of_readToken ht
    have htake : (c :: cs').take ((c :: cs').length - rest.length) =
        '\x22' :: raw ++ ['\x22'] := by
      have happend : '\x22' :: raw ++ '\x22' :: rest = ('\x22' :: raw ++ ['\x22']) ++ rest := by
        simp
      rw [hwritten, happend, List.length_append, Nat.add_sub_cancel, List.take_left']
      rfl
    refine ⟨⟨?_, raw, htake, hraw⟩, rfl⟩
    rw [htake]
    rw [hwritten] at hcs
    simpa using hcs
  · rintro rfl
    rw [Token.eq_colon_of_map_eq hsame] at ht
    rw [hs, colon_of_readToken ht]
    rfl

/-- **A whole run keeps the keys one behind the other.** -/
theorem follows_foldlM {cs : List Char} {ts : List (Token (Option Located))}
    {ts' : List (Token Located)} {s s' : State Located} (hts : locatedTokens cs = some ts)
    (hstrict : ts.mapM Token.strict? = some ts') (hs : Follows text cs s)
    (h : ts'.foldlM (step? .keepLastLocated) s = some s') : ∃ rest, Follows text rest s' := by
  fun_induction locatedTokens cs generalizing ts ts' s with
  | case1 cs =>
    cases hts
    cases hstrict
    cases h
    exact ⟨cs, hs⟩
  | case2 => cases hts
  | case3 cs c cs' hdrop t rest ht written =>
    rename_i ih
    obtain ⟨ts₁, hts₁, rfl⟩ := Option.map_eq_some_iff.1 hts
    rw [List.mapM_cons] at hstrict
    simp only [bind, Option.bind_eq_some_iff, pure, Option.some.injEq] at hstrict
    obtain ⟨t', ht', ts₂, hts₂, rfl⟩ := hstrict
    rw [List.foldlM_cons] at h
    obtain ⟨s₁, hs₁, h⟩ := Option.bind_eq_some_iff.1 h
    exact ih hts₁ hts₂ (follows_step? (reads_of_strict? hdrop ht ht') hs hs₁) h

end State

/-- **In a document that has been read every key stands behind the key of the object that it is
in.** -/
theorem keysFollow_of_locate? {text : String} {v : Value Located} (h : locate? text = some v) :
    v.KeysFollow text.toList := by
  unfold locate? at h
  obtain ⟨ts, hts, h⟩ := Option.bind_eq_some_iff.1 h
  split at h
  · obtain ⟨ts', hstrict, h⟩ := Option.bind_eq_some_iff.1 h
    unfold ofTokens? at h
    split at h
    · rename_i v' hrun
      cases h
      have hstart : State.Follows text.toList text.toList (.value []) := ⟨trivial, List.suffix_rfl⟩
      obtain ⟨_, hdone⟩ := State.follows_foldlM hts hstrict hstart hrun
      exact hdone
    · cases h
  · cases h

end Phrasebook.Json
