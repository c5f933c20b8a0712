import Phrasebook.Compilation
import Mathlib.Data.List.Perm.Basic

/-!
# The three buckets

Every token is in the bucket of its kind and in no other, so the buckets together are the tokens of
the compilation (`perm_buckets`), and the tally of the tokens is the lengths of the buckets
(`counts_eq`).
-/

namespace Phrasebook.Compilation

variable (c : Compilation)

theorem bucket_sublist (b : Bucket) : (c.bucket b).Sublist c.tokens := List.filter_sublist

variable {c} in
theorem mem_bucket_iff {b : Bucket} {t : CompiledToken} :
    t ∈ c.bucket b ↔ t ∈ c.tokens ∧ t.kind.bucket = b := by
  rw [bucket, List.mem_filter, decide_eq_true_iff]

theorem disjoint_bucket {b b' : Bucket} (h : b ≠ b') : (c.bucket b).Disjoint (c.bucket b') := by
  intro t ht ht'
  exact h ((mem_bucket_iff.1 ht).2.symm.trans (mem_bucket_iff.1 ht').2)

/-- The buckets one after another, for a list of tokens. -/
theorem perm_filter_buckets (ts : List CompiledToken) :
    (ts.filter (·.kind.bucket = .simpleNoArgs) ++ ts.filter (·.kind.bucket = .simpleWithArgs) ++
      ts.filter (·.kind.bucket = .pluralWithArgs)).Perm ts := by
  induction ts with
  | nil => exact List.Perm.refl _
  | cons t ts ih =>
    simp only [List.filter_cons]
    -- The new token comes to stand at the head of its own bucket.
    cases t.kind.bucket with
    | simpleNoArgs => exact ih.cons t
    | simpleWithArgs =>
      refine List.Perm.trans ?_ (ih.cons t)
      exact List.perm_middle.append_right _
    | pluralWithArgs =>
      refine List.Perm.trans ?_ (ih.cons t)
      exact List.perm_middle

/-- **Together the buckets hold every token once.** -/
theorem perm_buckets :
    (c.bucket .simpleNoArgs ++ c.bucket .simpleWithArgs ++ c.bucket .pluralWithArgs).Perm
      c.tokens :=
  perm_filter_buckets c.tokens

/-- The tally of tokens on top of a tally made before. -/
theorem foldl_add (n : TokenCounts) (ts : List CompiledToken) :
    ts.foldl (fun n t => n.add t.kind.bucket) n =
      ⟨n.simpleNoArgs + (ts.filter (·.kind.bucket = .simpleNoArgs)).length,
        n.simpleWithArgs + (ts.filter (·.kind.bucket = .simpleWithArgs)).length,
        n.pluralWithArgs + (ts.filter (·.kind.bucket = .pluralWithArgs)).length⟩ := by
  induction ts generalizing n with
  | nil => rfl
  | cons t ts ih =>
    rw [List.foldl_cons, ih]
    simp only [List.filter_cons]
    cases t.kind.bucket <;> simp [TokenCounts.add] <;> omega

/-- **The counts are the lengths of the buckets.** -/
theorem counts_eq :
    c.counts = ⟨(c.bucket .simpleNoArgs).length, (c.bucket .simpleWithArgs).length,
      (c.bucket .pluralWithArgs).length⟩ := by
  rw [counts, foldl_add]
  simp only [Nat.zero_add]
  rfl

theorem total_counts : c.counts.total = c.tokens.length := by
  rw [counts_eq, ← c.perm_buckets.length_eq, List.length_append, List.length_append]
  rfl

end Phrasebook.Compilation
