import Phrasebook.Json.Reader

/-!
# Values with other texts

The machine that reads values only compares the texts it is given when it adds a member. So if texts
are replaced in a way that adding members respects, reading the tokens with the other texts comes to
the value with the other texts (`ofTokens?_map`).
-/

namespace Phrasebook.Json

variable {τ σ : Type}

/-- The token with another text. -/
def Token.map (f : τ → σ) : Token τ → Token σ
  | openObject => openObject
  | closeObject => closeObject
  | openArray => openArray
  | closeArray => closeArray
  | comma => comma
  | colon => colon
  | null => null
  | boolean b => boolean b
  | number n => number n
  | text t => text (f t)

theorem Token.eq_text_of_map_eq {f : τ → σ} {t : Token τ} {s : σ} (h : t.map f = .text s) :
    ∃ s', t = .text s' ∧ f s' = s := by
  cases t with
  | text s' => exact ⟨s', rfl, Token.text.inj h⟩
  | _ => cases h

theorem Token.eq_colon_of_map_eq {f : τ → σ} {t : Token τ} (h : t.map f = .colon) :
    t = .colon := by
  cases t with
  | colon => rfl
  | _ => cases h

namespace Value

mutual

/-- The value with other texts. -/
def map (f : τ → σ) : Value τ → Value σ
  | null => null
  | boolean b => boolean b
  | number n => number n
  | string t => string (f t)
  | array items => array (mapItems f items)
  | object members => object (mapMembers f members)

def mapItems (f : τ → σ) : List (Value τ) → List (Value σ)
  | [] => []
  | v :: vs => map f v :: mapItems f vs

def mapMembers (f : τ → σ) : List (τ × Value τ) → List (σ × Value σ)
  | [] => []
  | m :: ms => mapMember f m :: mapMembers f ms

def mapMember (f : τ → σ) : τ × Value τ → σ × Value σ
  | (key, v) => (f key, map f v)

end

variable (f : τ → σ)

theorem mapItems_append (vs ws : List (Value τ)) :
    mapItems f (vs ++ ws) = mapItems f vs ++ mapItems f ws := by
  induction vs with
  | nil => rfl
  | cons v vs ih => rw [List.cons_append, mapItems, ih]; rfl

end Value

/-- The frame with other texts. -/
def Frame.map (f : τ → σ) : Frame τ → Frame σ
  | array items => array (Value.mapItems f items)
  | object members key => object (Value.mapMembers f members) (f key)

/-- Adding a member to members with other texts. -/
def AddMember.Respects (f : τ → σ) (add : AddMember τ) (add' : AddMember σ) : Prop :=
  ∀ key v members,
    Value.mapMembers f (add key v members) = add' (f key) (v.map f) (Value.mapMembers f members)

namespace State

/-- The state with other texts. -/
def map (f : τ → σ) : State τ → State σ
  | value fs => value (fs.map (Frame.map f))
  | firstItem fs => firstItem (fs.map (Frame.map f))
  | firstMember fs => firstMember (fs.map (Frame.map f))
  | afterItem fs items => afterItem (fs.map (Frame.map f)) (Value.mapItems f items)
  | key fs members => key (fs.map (Frame.map f)) (Value.mapMembers f members)
  | colon fs members k => colon (fs.map (Frame.map f)) (Value.mapMembers f members) (f k)
  | afterMember fs members => afterMember (fs.map (Frame.map f)) (Value.mapMembers f members)
  | done v => done (v.map f)

variable {f : τ → σ} {add : AddMember τ} {add' : AddMember σ} (h : add.Respects f add')

include h in
theorem map_complete (v : Value τ) (fs : List (Frame τ)) :
    (complete add v fs).map f = complete add' (v.map f) (fs.map (Frame.map f)) := by
  rcases fs with _ | ⟨items | ⟨members, k⟩, fs⟩
  · rfl
  · show afterItem _ (Value.mapItems f (items ++ [v])) = afterItem _ _
    rw [Value.mapItems_append]
    rfl
  · exact congrArg (afterMember _) (h k v members)

include h in
theorem map_begin? (fs : List (Frame τ)) (t : Token τ) :
    (begin? add fs t).map (map f) = begin? add' (fs.map (Frame.map f)) (t.map f) := by
  cases t <;> first
    | rfl
    | exact congrArg some (map_complete h _ fs)

include h in
/-- **A step with other texts.** -/
theorem map_step? (s : State τ) (t : Token τ) :
    (step? add s t).map (map f) = step? add' (s.map f) (t.map f) := by
  cases s with
  | value fs => exact map_begin? h fs t
  | firstItem fs =>
    cases t <;> first
      | rfl
      | exact map_begin? h (.array [] :: fs) _
      | exact congrArg some (map_complete h _ fs)
  | firstMember fs =>
    cases t <;> first
      | rfl
      | exact congrArg some (map_complete h _ fs)
  | afterItem fs items =>
    cases t <;> first
      | rfl
      | exact congrArg some (map_complete h _ fs)
  | key fs members => cases t <;> rfl
  | colon fs members k => cases t <;> rfl
  | afterMember fs members =>
    cases t <;> first
      | rfl
      | exact congrArg some (map_complete h _ fs)
  | done v => cases t <;> rfl

include h in
theorem map_foldlM (ts : List (Token τ)) (s : State τ) :
    (ts.foldlM (step? add) s).map (map f) =
      (ts.map (Token.map f)).foldlM (step? add') (s.map f) := by
  induction ts generalizing s with
  | nil => rfl
  | cons t ts ih =>
    rw [List.map_cons, List.foldlM_cons, List.foldlM_cons, ← map_step? h]
    cases step? add s t with
    | none => rfl
    | some s' => exact ih s'

end State

section Document

variable {f : τ → σ} {add : AddMember τ} {add' : AddMember σ}

/-- **Reading with other texts.** -/
theorem ofTokens?_map (h : add.Respects f add') (ts : List (Token τ)) :
    ofTokens? add' (ts.map (Token.map f)) = (ofTokens? add ts).map (Value.map f) := by
  have hrun : (ts.map (Token.map f)).foldlM (State.step? add') (.value []) =
      (ts.foldlM (State.step? add) (.value [])).map (State.map f) :=
    (State.map_foldlM h ts (.value [])).symm
  unfold ofTokens?
  rw [hrun]
  cases ts.foldlM (State.step? add) (.value []) with
  | none => rfl
  | some s => cases s <;> rfl

theorem strict?_map (f : τ → σ) (t : Token (Option τ)) :
    (t.map (Option.map f)).strict? = t.strict?.map (Token.map f) := by
  cases t with
  | number n =>
    simp only [Token.map, Token.strict?]
    split <;> rfl
  | text t => cases t <;> rfl
  | _ => rfl

/-- A token that is let through is the same but for the doubt about its text. -/
theorem Token.eq_map_of_strict? {t : Token (Option τ)} {t' : Token τ} (h : t.strict? = some t') :
    t = t'.map some := by
  cases t with
  | text o =>
    obtain ⟨s, rfl, rfl⟩ := Option.map_eq_some_iff.1 h
    rfl
  | number n =>
    simp only [strict?] at h
    split at h <;> cases h
    rfl
  | _ => cases h; rfl

theorem mapM_strict?_map (f : τ → σ) (ts : List (Token (Option τ))) :
    (ts.map (Token.map (Option.map f))).mapM Token.strict? =
      (ts.mapM Token.strict?).map (List.map (Token.map f)) := by
  induction ts with
  | nil => rfl
  | cons t ts ih =>
    rw [List.map_cons, List.mapM_cons, List.mapM_cons, strict?_map, ih]
    cases t.strict? with
    | none => rfl
    | some t' => cases ts.mapM Token.strict? <;> rfl

theorem withinDepth_map (f : τ → σ) (limit depth : Nat) (ts : List (Token τ)) :
    withinDepth limit depth (ts.map (Token.map f)) = withinDepth limit depth ts := by
  induction ts generalizing depth with
  | nil => rfl
  | cons t ts ih =>
    rw [List.map_cons]
    cases t <;> simp only [Token.map, withinDepth, ih]

end Document

end Phrasebook.Json
