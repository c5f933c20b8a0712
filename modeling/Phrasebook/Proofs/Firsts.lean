import Mathlib.Data.List.Induction
import Mathlib.Data.List.Sort
import Phrasebook.OrderedMap

/-!
# First occurrences

What is collected without repetition stands in the order in which it first came: the arguments of a
token, and the keys of a map. `Firsts` says this of two lists without telling how the second one is
made, and leaves one list only for it (`Firsts.unique`).
-/

namespace Phrasebook

/-- The second list has the members of the first one, in the order in which they first come there.
(A member that comes before itself there is none, so each is there once.) -/
structure Firsts {α : Type} [DecidableEq α] (xs ys : List α) : Prop where
  mem_iff : ∀ a, a ∈ ys ↔ a ∈ xs
  ordered : ys.Pairwise fun a b => xs.idxOf a < xs.idxOf b

variable {α β : Type} [DecidableEq α] {xs ys zs : List α}

namespace Firsts

theorem nodup (h : Firsts xs ys) : ys.Nodup :=
  List.Pairwise.nodup (r := InvImage (· < ·) xs.idxOf) h.ordered

theorem unique (hy : Firsts xs ys) (hz : Firsts xs zs) : ys = zs := by
  have hmem : ∀ a, a ∈ ys ↔ a ∈ zs := fun a => (hy.mem_iff a).trans (hz.mem_iff a).symm
  exact List.Pairwise.eq_of_mem_iff (r := InvImage (· < ·) xs.idxOf) hy.ordered hz.ordered hmem

protected theorem nil : Firsts ([] : List α) [] := ⟨fun _ => Iff.rfl, List.Pairwise.nil⟩

/-- One more member goes to the end, unless it has been there. -/
theorem concat (h : Firsts xs ys) (a : α) :
    Firsts (xs ++ [a]) (if a ∈ ys then ys else ys ++ [a]) := by
  have hkeep : ∀ b ∈ ys, (xs ++ [a]).idxOf b = xs.idxOf b := fun b hb =>
    List.idxOf_append_of_mem ((h.mem_iff b).1 hb)
  have hold : ys.Pairwise fun b c => (xs ++ [a]).idxOf b < (xs ++ [a]).idxOf c := by
    refine h.ordered.imp_of_mem fun hb hc hlt => ?_
    rwa [hkeep _ hb, hkeep _ hc]
  split
  · rename_i ha
    refine ⟨fun b => ?_, hold⟩
    rw [List.mem_append, List.mem_singleton, ← h.mem_iff]
    exact ⟨Or.inl, fun hb => hb.elim id fun he => he ▸ ha⟩
  · rename_i ha
    refine ⟨fun b => by simp only [List.mem_append, h.mem_iff], ?_⟩
    refine List.pairwise_append.2 ⟨hold, List.pairwise_singleton _ _, fun b hb c hc => ?_⟩
    obtain rfl := List.mem_singleton.1 hc
    have hnew : c ∉ xs := fun hmem => ha ((h.mem_iff c).2 hmem)
    have hlt := List.idxOf_lt_length_of_mem ((h.mem_iff b).1 hb)
    rw [hkeep b hb, List.idxOf_append_of_notMem hnew]
    exact Nat.lt_of_lt_of_le hlt (Nat.le_add_right _ _)

end Firsts

/-! ## Lists without repetitions -/

theorem eraseDups_concat (xs : List α) (a : α) :
    (xs ++ [a]).eraseDups = if a ∈ xs.eraseDups then xs.eraseDups else xs.eraseDups ++ [a] := by
  rw [List.eraseDups_append]
  by_cases ha : a ∈ xs <;> simp [ha, List.removeAll, List.eraseDups_cons]

theorem firsts_eraseDups (xs : List α) : Firsts xs xs.eraseDups := by
  induction xs using List.reverseRecOn with
  | nil => exact Firsts.nil
  | append_singleton xs a ih =>
    rw [eraseDups_concat]
    exact ih.concat a

theorem firsts_self (h : xs.Nodup) : Firsts xs xs := by
  induction xs using List.reverseRecOn with
  | nil => exact Firsts.nil
  | append_singleton xs a ih =>
    obtain ⟨hxs, -, hnew⟩ := List.nodup_append.1 h
    have ha : a ∉ xs := fun hmem => hnew a hmem a (List.mem_singleton_self a) rfl
    have hconcat := (ih hxs).concat a
    rwa [if_neg ha] at hconcat

theorem eraseDups_eq_self (h : xs.Nodup) : xs.eraseDups = xs :=
  (firsts_eraseDups xs).unique (firsts_self h)

theorem eraseDups_map [DecidableEq β] {f : α → β} (hf : Function.Injective f) (xs : List α) :
    (xs.map f).eraseDups = xs.eraseDups.map f := by
  induction xs using List.reverseRecOn with
  | nil => rfl
  | append_singleton xs a ih =>
    rw [List.map_append, List.map_singleton, eraseDups_concat, eraseDups_concat, ih]
    simp only [List.mem_map_of_injective hf]
    split
    · rfl
    · rw [List.map_append, List.map_singleton]

/-! ## Keys of ordered maps -/

namespace OrderedMap

theorem firsts_keys_insert {m : OrderedMap α β} (h : Firsts xs m.keys) (key : α) (value : β) :
    Firsts (xs ++ [key]) (m.insert key value).keys := by
  rw [keys_insert]
  exact h.concat key

theorem firsts_keys_insertMany {m : OrderedMap α β} (h : Firsts xs m.keys)
    (pairs : List (α × β)) : Firsts (xs ++ pairs.map Prod.fst) (m.insertMany pairs).keys := by
  induction pairs generalizing m xs with
  | nil =>
    rw [List.map_nil, List.append_nil]
    exact h
  | cons p pairs ih =>
    have hnext := ih (firsts_keys_insert h p.1 p.2)
    rwa [List.append_assoc] at hnext

/-- **The keys of a map** stand where they first came. -/
theorem firsts_keys_ofList (pairs : List (α × β)) :
    Firsts (pairs.map Prod.fst) (ofList pairs).keys :=
  firsts_keys_insertMany (m := empty) Firsts.nil pairs

end OrderedMap

end Phrasebook
