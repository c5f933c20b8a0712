import Mathlib.Data.List.Chain

/-!
# Parts that are found again

Where two characters stand side by side only between two parts of a text and never in the last one,
both parts can be read off the text (`append_pair_inj`), whatever is in the first one.
-/

namespace Phrasebook.Text

variable {α : Type} {x y : α} {xs xs' ys ys' : List α}

/-- The first of two characters nowhere stands right before the second. -/
def NeverBefore (x y : α) (xs : List α) : Prop := xs.IsChain fun a b => ¬ (a = x ∧ b = y)

theorem neverBefore_of_not_mem (h : x ∉ xs) : NeverBefore x y xs := by
  apply List.Pairwise.isChain
  apply List.pairwise_of_forall_mem_list
  rintro a ha b - ⟨rfl, -⟩
  exact h ha

theorem NeverBefore.append (hxs : NeverBefore x y xs) (hys : NeverBefore x y ys)
    (h : x ∉ xs.getLast? ∨ y ∉ ys.head?) : NeverBefore x y (xs ++ ys) := by
  refine List.isChain_append.2 ⟨hxs, hys, ?_⟩
  rintro a ha b hb ⟨rfl, rfl⟩
  exact h.elim (· ha) (· hb)

theorem not_neverBefore (xs ys : List α) : ¬ NeverBefore x y (xs ++ x :: y :: ys) := by
  intro h
  have hpair := (List.isChain_append.1 h).2.1
  exact (List.isChain_cons_cons.1 hpair).1 ⟨rfl, rfl⟩

/-- What two characters stand between for the last time can be read in one way only. -/
theorem append_pair_inj (hxy : x ≠ y) (hys : NeverBefore x y ys) (hys' : NeverBefore x y ys')
    (h : xs ++ x :: y :: ys = xs' ++ x :: y :: ys') : xs = xs' ∧ ys = ys' := by
  -- If one of the texts goes on where the other one ends, it has the pair in the other's last part.
  have hend : ∀ {c : α} {zs us us' : List α}, NeverBefore x y us →
      x :: y :: us ≠ c :: zs ++ x :: y :: us' := by
    intro c zs us us' hus heq
    obtain ⟨-, heq⟩ := List.cons.inj heq
    cases zs with
    | nil => exact hxy (List.cons.inj heq).1.symm
    | cons d zs =>
      obtain ⟨-, rfl⟩ := List.cons.inj heq
      exact not_neverBefore zs us' hus
  induction xs generalizing xs' with
  | nil =>
    cases xs' with
    | nil =>
      simp only [List.nil_append, List.cons.injEq, true_and] at h
      exact ⟨rfl, h⟩
    | cons c xs' => exact absurd h (hend hys)
  | cons c xs ih =>
    cases xs' with
    | nil => exact absurd h.symm (hend hys')
    | cons c' xs' =>
      obtain ⟨rfl, htail⟩ := List.cons.inj h
      obtain ⟨rfl, hlast⟩ := ih htail
      exact ⟨rfl, hlast⟩

/-- The same for strings, with the two characters at the end of a separator. -/
theorem append_separator_inj {x y : Char} {separator s s' t t' : String}
    (hsep : [x, y] <:+ separator.toList) (hxy : x ≠ y) (ht : NeverBefore x y t.toList)
    (ht' : NeverBefore x y t'.toList) (h : s ++ separator ++ t = s' ++ separator ++ t') :
    s = s' ∧ t = t' := by
  obtain ⟨zs, hsep⟩ := hsep
  have hlist : ∀ s t : String,
      (s ++ separator ++ t).toList = (s.toList ++ zs) ++ x :: y :: t.toList := by
    intro s t
    simp only [String.toList_append, ← hsep, List.append_assoc, List.cons_append, List.nil_append]
  have h := congrArg String.toList h
  rw [hlist, hlist] at h
  obtain ⟨hs, ht⟩ := append_pair_inj hxy ht ht' h
  exact ⟨String.toList_inj.1 (List.append_cancel_right hs), String.toList_inj.1 ht⟩

end Phrasebook.Text
