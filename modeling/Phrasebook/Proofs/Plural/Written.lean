import Phrasebook.Proofs.Plural.Layout

/-!
# Written branches

The branches of a plural message can be written as a plural message again: each has a text, which
has no brackets in it. What is written so is read back as the same branches (`parse_render`).
-/

namespace Phrasebook.Plural

/-- A branch that is not dropped and does not end early when it is read. -/
def Branch.IsWritable (b : Branch) : Prop :=
  b.text ≠ "" ∧ '[' ∉ b.text.toList ∧ ']' ∉ b.text.toList

theorem Layout.isWritable_branches (l : Layout) : ∀ b ∈ l.branches, b.IsWritable := by
  intro b hb
  obtain ⟨hmem, htext⟩ := List.mem_filter.1 hb
  obtain ⟨i, _, rfl⟩ := List.mem_map.1 hmem
  refine ⟨of_decide_eq_true htext, ?_⟩
  show '[' ∉ (String.ofList i.body).toList ∧ ']' ∉ (String.ofList i.body).toList
  rw [String.toList_ofList]
  exact i.bracket_free

theorem isWritable_of_parse {text : String} {bs : List Branch} (h : parse text = .ok bs) :
    ∀ b ∈ bs, b.IsWritable := by
  obtain ⟨l, _, rfl⟩ := exists_layout_of_parse h
  exact l.isWritable_branches

/-- **What is written for branches is read as these branches.** -/
theorem parse_render {bs : List Branch} (hne : bs ≠ []) (h : ∀ b ∈ bs, b.IsWritable) :
    parse (render bs) = .ok bs := by
  obtain ⟨l, htext, hbranches⟩ := exists_layout_render hne h ""
  rw [String.append_empty] at htext
  refine parse_eq_ok_iff_readItems.2 ⟨l.toList, htext.symm, ?_, hne⟩
  rw [l.readItems_toList, hbranches]

theorem afterMarker?_render (bs : List Branch) : (afterMarker? (render bs)).isSome := by
  unfold afterMarker? render
  rw [String.append_assoc, String.toList_append, Text.after?_append]
  rfl

theorem isPlural_render (bs : List Branch) : isPlural (render bs) = true := afterMarker?_render bs

theorem render_ne_empty (bs : List Branch) : render bs ≠ "" := by
  intro h
  have hplural := isPlural_render bs
  rw [h] at hplural
  cases hplural

end Phrasebook.Plural
