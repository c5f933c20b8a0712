import Phrasebook.Json.Reader

/-!
# Keys that are distinct

In a value that is read strictly no object has two members with the same key: a repeated key takes
the last value. Every step of the machine keeps this so, for the values it has made and for the
frames that are still open.
-/

namespace Phrasebook.Json

variable {τ : Type}

/-- No object in the value, on whatever level, has two members with the same key. -/
inductive Value.DistinctKeys : Value τ → Prop
  | null : null.DistinctKeys
  | boolean (b : Bool) : (boolean b).DistinctKeys
  | number (n : Numeral) : (number n).DistinctKeys
  | string (text : τ) : (string text).DistinctKeys
  | array {items : List (Value τ)} (hitems : ∀ v ∈ items, v.DistinctKeys) :
    (array items).DistinctKeys
  | object {members : List (τ × Value τ)} (hnodup : (members.map Prod.fst).Nodup)
    (hvalues : ∀ m ∈ members, m.2.DistinctKeys) : (object members).DistinctKeys

/-- The members that an object has so far. -/
structure DistinctMembers (members : List (τ × Value τ)) : Prop where
  nodup : (members.map Prod.fst).Nodup
  values : ∀ m ∈ members, m.2.DistinctKeys

namespace DistinctMembers

theorem nil : DistinctMembers ([] : List (τ × Value τ)) := ⟨List.nodup_nil, nofun⟩

theorem object {members : List (τ × Value τ)} (h : DistinctMembers members) :
    (Value.object members).DistinctKeys := .object h.nodup h.values

/-- A repeated key takes the last value. -/
theorem keepLast [DecidableEq τ] {members : List (τ × Value τ)} {key : τ} {v : Value τ}
    (h : DistinctMembers members) (hv : v.DistinctKeys) :
    DistinctMembers (AddMember.keepLast key v members) := by
  refine ⟨OrderedMap.nodup_put h.nodup, fun m hm => ?_⟩
  rcases OrderedMap.mem_put hm with rfl | hm
  · exact hv
  · exact h.values m hm

end DistinctMembers

def Frame.DistinctKeys : Frame τ → Prop
  | array items => ∀ v ∈ items, v.DistinctKeys
  | object members _ => DistinctMembers members

namespace State

/-- All that has been read so far has distinct keys. -/
def DistinctKeys : State τ → Prop
  | value fs => ∀ f ∈ fs, f.DistinctKeys
  | firstItem fs => ∀ f ∈ fs, f.DistinctKeys
  | firstMember fs => ∀ f ∈ fs, f.DistinctKeys
  | afterItem fs items => (∀ f ∈ fs, f.DistinctKeys) ∧ ∀ v ∈ items, v.DistinctKeys
  | key fs members => (∀ f ∈ fs, f.DistinctKeys) ∧ DistinctMembers members
  | colon fs members _ => (∀ f ∈ fs, f.DistinctKeys) ∧ DistinctMembers members
  | afterMember fs members => (∀ f ∈ fs, f.DistinctKeys) ∧ DistinctMembers members
  | done v => v.DistinctKeys

variable [DecidableEq τ] {fs : List (Frame τ)} {s s' : State τ} {t : Token τ}

theorem distinctKeys_complete {v : Value τ} (hv : v.DistinctKeys)
    (hfs : ∀ f ∈ fs, f.DistinctKeys) : (complete .keepLast v fs).DistinctKeys := by
  cases fs with
  | nil => exact hv
  | cons f fs =>
    obtain ⟨hf, hrest⟩ := List.forall_mem_cons.1 hfs
    cases f with
    | array items =>
      refine ⟨hrest, fun w hw => ?_⟩
      rcases List.mem_append.1 hw with hw | hw
      · exact hf w hw
      · rw [List.mem_singleton.1 hw]
        exact hv
    | object members k => exact ⟨hrest, DistinctMembers.keepLast hf hv⟩

theorem distinctKeys_begin (hfs : ∀ f ∈ fs, f.DistinctKeys)
    (h : begin? .keepLast fs t = some s') : s'.DistinctKeys := by
  unfold begin? at h
  split at h
  case h_1 => cases h; exact distinctKeys_complete .null hfs
  case h_2 => cases h; exact distinctKeys_complete (.boolean _) hfs
  case h_3 => cases h; exact distinctKeys_complete (.number _) hfs
  case h_4 => cases h; exact distinctKeys_complete (.string _) hfs
  case h_5 => cases h; exact hfs
  case h_6 => cases h; exact hfs
  case h_7 => cases h

/-- **A step keeps keys distinct.** -/
theorem distinctKeys_step (hs : s.DistinctKeys) (h : step? .keepLast s t = some s') :
    s'.DistinctKeys := by
  unfold step? at h
  split at h
  case h_1 => exact distinctKeys_begin hs h
  case h_2 => cases h; exact distinctKeys_complete (.array (List.forall_mem_nil _)) hs
  case h_3 =>
    have hempty : (Frame.array ([] : List (Value τ))).DistinctKeys := List.forall_mem_nil _
    exact distinctKeys_begin (List.forall_mem_cons.2 ⟨hempty, hs⟩) h
  case h_4 => cases h; exact distinctKeys_complete DistinctMembers.nil.object hs
  case h_5 => cases h; exact ⟨hs, .nil⟩
  case h_6 => cases h; exact List.forall_mem_cons.2 ⟨hs.2, hs.1⟩
  case h_7 => cases h; exact distinctKeys_complete (.array hs.2) hs.1
  case h_8 => cases h; exact hs
  case h_9 => cases h; exact List.forall_mem_cons.2 ⟨hs.2, hs.1⟩
  case h_10 => cases h; exact hs
  case h_11 => cases h; exact distinctKeys_complete hs.2.object hs.1
  case h_12 => cases h

/-- **A run keeps keys distinct.** -/
theorem distinctKeys_foldlM {ts : List (Token τ)} (hs : s.DistinctKeys)
    (h : ts.foldlM (step? .keepLast) s = some s') : s'.DistinctKeys := by
  induction ts generalizing s with
  | nil => cases h; exact hs
  | cons t ts ih =>
    rw [List.foldlM_cons] at h
    obtain ⟨s₁, hstep, hrest⟩ := Option.bind_eq_some_iff.1 h
    exact ih (distinctKeys_step hs hstep) hrest

end State

theorem distinctKeys_of_ofTokens [DecidableEq τ] {ts : List (Token τ)} {v : Value τ}
    (h : ofTokens? .keepLast ts = some v) : v.DistinctKeys := by
  unfold ofTokens? at h
  split at h
  · rename_i hrun
    cases h
    have hstart : (State.value ([] : List (Frame τ))).DistinctKeys := nofun
    exact State.distinctKeys_foldlM hstart hrun
  · cases h

/-- **What is read strictly has distinct keys.** -/
theorem distinctKeys_of_parse {text : String} {v : Value String} (h : parse? text = some v) :
    v.DistinctKeys := by
  unfold parse? at h
  obtain ⟨ts, _, h⟩ := Option.bind_eq_some_iff.1 h
  split at h
  · obtain ⟨ts', _, h⟩ := Option.bind_eq_some_iff.1 h
    exact distinctKeys_of_ofTokens h
  · cases h

end Phrasebook.Json
