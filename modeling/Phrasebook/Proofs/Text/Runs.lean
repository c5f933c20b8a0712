/-!
# Runs of characters

A list that goes on behind a run, the characters of one kind at its start, can be read in one way
only (`run_inj`). What a reader passes over with `dropWhile` is such a run, and conversely.
-/

namespace Phrasebook.Text

variable {α : Type} {p : α → Bool} {run run' rest rest' : List α} {c c' : α}

theorem takeWhile_run (hrun : ∀ x ∈ run, p x = true) (hc : p c = false) :
    (run ++ c :: rest).takeWhile p = run := by
  rw [List.takeWhile_append_of_pos hrun, List.takeWhile_cons, hc]
  exact List.append_nil run

theorem dropWhile_run (hrun : ∀ x ∈ run, p x = true) (hc : p c = false) :
    (run ++ c :: rest).dropWhile p = c :: rest := by
  rw [List.dropWhile_append_of_pos hrun, List.dropWhile_cons, hc]
  rfl

/-- The same where the list may end with the run. -/
theorem takeWhile_append_run (hrun : ∀ x ∈ run, p x = true)
    (hrest : ∀ x ∈ rest.head?, p x = false) : (run ++ rest).takeWhile p = run := by
  cases rest with
  | nil => rw [List.takeWhile_append_of_pos hrun, List.takeWhile_nil, List.append_nil]
  | cons c rest => exact takeWhile_run hrun (hrest c rfl)

theorem dropWhile_append_run (hrun : ∀ x ∈ run, p x = true)
    (hrest : ∀ x ∈ rest.head?, p x = false) : (run ++ rest).dropWhile p = rest := by
  cases rest with
  | nil => rw [List.dropWhile_append_of_pos hrun, List.dropWhile_nil]
  | cons c rest => exact dropWhile_run hrun (hrest c rfl)

/-- What is left behind a run does not begin with a character of its kind. -/
theorem head?_dropWhile_run (p : α → Bool) (cs : List α) :
    ∀ x ∈ (cs.dropWhile p).head?, p x = false := by
  intro x hx
  have h := List.head?_dropWhile_not p cs
  rw [Option.mem_def.1 hx] at h
  simpa using h

/-- Where the reading stops there is a character of another kind, and before it only the run. -/
theorem exists_run_of_dropWhile {cs : List α} (h : cs.dropWhile p = c :: rest) :
    cs = cs.takeWhile p ++ c :: rest ∧ (∀ x ∈ cs.takeWhile p, p x = true) ∧ p c = false := by
  refine ⟨?_, fun x hx => List.all_eq_true.1 List.all_takeWhile x hx, ?_⟩
  · rw [← h, List.takeWhile_append_dropWhile]
  · have hhead := List.head?_dropWhile_not p cs
    rw [h] at hhead
    simpa using hhead

theorem run_inj (hrun : ∀ x ∈ run, p x = true) (hc : p c = false)
    (hrun' : ∀ x ∈ run', p x = true) (hc' : p c' = false)
    (h : run ++ c :: rest = run' ++ c' :: rest') : run = run' ∧ c :: rest = c' :: rest' := by
  have htake : run = run' := by
    calc run = (run ++ c :: rest).takeWhile p := (takeWhile_run hrun hc).symm
      _ = (run' ++ c' :: rest').takeWhile p := by rw [h]
      _ = run' := takeWhile_run hrun' hc'
  exact ⟨htake, List.append_cancel_left (htake ▸ h)⟩

end Phrasebook.Text
