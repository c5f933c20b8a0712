import Mathlib.Data.List.Sort

/-!
# Sorting by a comparison

A list that is sorted by a lawful comparison is in its order, with members that compare equal in the
order in which they came (`stablySorted_mergeSort`). If the comparison tells different members
apart, the order in which they came does not count (`mergeSort_eq_of_perm`).
-/

namespace Phrasebook.Sorting

variable {α : Type} {cmp : α → α → Ordering} [Std.TransCmp cmp] {xs ys : List α}

/-- The list is in the order of a comparison. -/
def Sorted (cmp : α → α → Ordering) (xs : List α) : Prop :=
  xs.Pairwise fun a b => (cmp a b).isLE = true

theorem isLE_or_isLE (cmp : α → α → Ordering) [Std.TransCmp cmp] (a b : α) :
    ((cmp a b).isLE || (cmp b a).isLE) = true := by
  have hswap : cmp b a = (cmp a b).swap := Std.OrientedCmp.eq_swap
  rw [hswap]
  cases cmp a b <;> rfl

theorem sorted_mergeSort (xs : List α) : Sorted cmp (xs.mergeSort fun a b => (cmp a b).isLE) := by
  have htrans : ∀ a b c, (cmp a b).isLE = true → (cmp b c).isLE = true → (cmp a c).isLE = true :=
    fun _ _ _ hab hbc => Std.TransCmp.isLE_trans hab hbc
  exact List.pairwise_mergeSort htrans (isLE_or_isLE cmp) xs

/-- A list whose members are told apart can be put in order in one way only. -/
theorem sorted_eq_of_perm (hx : Sorted cmp xs) (hy : Sorted cmp ys) (h : xs.Perm ys)
    (hinj : ∀ a ∈ xs, ∀ b ∈ xs, cmp a b = .eq → a = b) : xs = ys := by
  refine h.eq_of_pairwise (fun a b ha hb hab hba => ?_) hx hy
  exact hinj a ha b (h.symm.subset hb) (Std.OrientedCmp.isLE_antisymm hab hba)

theorem mergeSort_eq_of_perm (h : xs.Perm ys)
    (hinj : ∀ a ∈ xs, ∀ b ∈ xs, cmp a b = .eq → a = b) :
    (xs.mergeSort fun a b => (cmp a b).isLE) = ys.mergeSort fun a b => (cmp a b).isLE := by
  have hperm := List.mergeSort_perm xs fun a b => (cmp a b).isLE
  refine sorted_eq_of_perm (sorted_mergeSort xs) (sorted_mergeSort ys) ?_ fun a ha b hb => ?_
  · exact hperm.trans (h.trans (List.mergeSort_perm ys _).symm)
  · exact hinj a (hperm.subset ha) b (hperm.subset hb)

/-! ## Members that compare equal -/

/-- A comparison by which lists can be sorted: a total order, except that of two different members
neither may come first. Such members compare alike with all others. -/
structure Lawful (cmp : α → α → Ordering) : Prop where
  refl : ∀ a, cmp a a = .eq
  swap : ∀ a b, cmp b a = (cmp a b).swap
  trans : ∀ a b c, (cmp a b).isLE = true → (cmp b c).isLE = true → (cmp a c).isLE = true
  congr : ∀ a b c, cmp a b = .eq → cmp a c = cmp b c ∧ cmp c a = cmp c b

theorem lawful (cmp : α → α → Ordering) [Std.TransCmp cmp] : Lawful cmp where
  refl _ := Std.ReflCmp.compare_self
  swap _ _ := Std.OrientedCmp.eq_swap
  trans _ _ _ hab hbc := Std.TransCmp.isLE_trans hab hbc
  congr _ _ _ h := ⟨Std.TransCmp.congr_left h, Std.TransCmp.congr_right h⟩

/-- The second list is the first one put in order, and members of which neither comes first have
kept their order. -/
structure StablySorted (cmp : α → α → Ordering) (xs ys : List α) : Prop where
  perm : ys.Perm xs
  ordered : Sorted cmp ys
  stable : ∀ a, (ys.filter fun b => cmp a b = .eq) = xs.filter fun b => cmp a b = .eq

theorem stablySorted_mergeSort (xs : List α) :
    StablySorted cmp xs (xs.mergeSort fun a b => (cmp a b).isLE) where
  perm := List.mergeSort_perm _ _
  ordered := sorted_mergeSort xs
  stable a := by
    let alike := xs.filter fun b => cmp a b = .eq
    have hle : alike.Pairwise fun b c => (cmp b c).isLE = true := by
      refine List.pairwise_iff_forall_sublist.2 fun {b c} hbc => ?_
      have hb : cmp a b = .eq := by simpa using (List.mem_filter.1 (hbc.subset (by simp))).2
      have hc : cmp a c = .eq := by simpa using (List.mem_filter.1 (hbc.subset (by simp))).2
      rw [← Std.TransCmp.congr_left hb, hc]
      rfl
    -- members that compare equal are in order already, so sorting leaves them as they are
    have hsub : alike.Sublist (xs.mergeSort fun a b => (cmp a b).isLE) :=
      List.sublist_mergeSort (lawful cmp).trans (isLE_or_isLE cmp) hle List.filter_sublist
    have hfilter := hsub.filter fun b => cmp a b = .eq
    simp only [alike, List.filter_filter, Bool.and_self] at hfilter
    have hlength := ((List.mergeSort_perm xs fun a b => (cmp a b).isLE).filter
      fun b => cmp a b = .eq).length_eq
    exact (hfilter.eq_of_length hlength.symm).symm

/-- Where no member with a property stands behind one without, those with it are a beginning. -/
theorem exists_append_of_pairwise {p : α → Prop} {xs : List α}
    (h : xs.Pairwise fun a b => p b → p a) :
    ∃ ys zs, xs = ys ++ zs ∧ (∀ y ∈ ys, p y) ∧ ∀ z ∈ zs, ¬ p z := by
  induction h with
  | nil => exact ⟨[], [], rfl, nofun, nofun⟩
  | @cons a xs ha _ ih =>
    by_cases hp : p a
    · obtain ⟨ys, zs, rfl, hys, hzs⟩ := ih
      exact ⟨a :: ys, zs, rfl, List.forall_mem_cons.2 ⟨hp, hys⟩, hzs⟩
    · exact ⟨[], a :: xs, rfl, nofun, List.forall_mem_cons.2 ⟨hp, fun b hb hpb => hp (ha b hb hpb)⟩⟩

end Phrasebook.Sorting
