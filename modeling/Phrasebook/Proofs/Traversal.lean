import Mathlib.Data.List.Forall2

/-!
# Traversals that can fail

A traversal that stops at the first failure comes through exactly if every step does
(`mapM_eq_ok_iff`), and what is done to its results afterwards can be done in its steps
(`map_mapM`).
-/

namespace Phrasebook.Traversal

variable {ε α β γ : Type}

theorem mapM_cons_ok {f : α → Except ε β} {x : α} {y : β} (xs : List α) (h : f x = .ok y) :
    (x :: xs).mapM f = (xs.mapM f).map (y :: ·) := by
  rw [List.mapM_cons, h]
  cases xs.mapM f <;> rfl

theorem mapM_cons_error {f : α → Except ε β} {x : α} {e : ε} (xs : List α) (h : f x = .error e) :
    (x :: xs).mapM f = .error e := by
  rw [List.mapM_cons, h]
  rfl

theorem mapM_congr {f g : α → Except ε β} {xs : List α} (h : ∀ x ∈ xs, f x = g x) :
    xs.mapM f = xs.mapM g := by
  induction xs with
  | nil => rfl
  | cons x xs ih =>
    obtain ⟨hx, hxs⟩ := List.forall_mem_cons.1 h
    rw [List.mapM_cons, List.mapM_cons, hx, ih hxs]

theorem mapM_eq_ok_iff {f : α → Except ε β} {xs : List α} {ys : List β} :
    xs.mapM f = .ok ys ↔ List.Forall₂ (fun x y => f x = .ok y) xs ys := by
  induction xs generalizing ys with
  | nil =>
    rw [List.forall₂_nil_left_iff]
    exact ⟨fun h => by cases h; rfl, fun h => by rw [h]; rfl⟩
  | cons x xs ih =>
    rw [List.forall₂_cons_left_iff]
    cases hx : f x with
    | error e =>
      rw [mapM_cons_error xs hx]
      constructor
      · intro h; cases h
      · rintro ⟨y, _, h, _⟩; cases h
    | ok y =>
      rw [mapM_cons_ok xs hx]
      constructor
      · intro h
        cases hxs : xs.mapM f with
        | error e => rw [hxs] at h; cases h
        | ok zs =>
          rw [hxs] at h
          cases h
          exact ⟨y, zs, rfl, ih.1 hxs, rfl⟩
      · rintro ⟨z, zs, hz, hzs, rfl⟩
        cases hz
        rw [ih.2 hzs]
        rfl

theorem mapM_map (f : α → Except ε β) (xs : List α) : (xs.map f).mapM id = xs.mapM f := by
  induction xs with
  | nil => rfl
  | cons x xs ih => rw [List.map_cons, List.mapM_cons, List.mapM_cons, ih, id]

/-- A traversal fails as the first of its steps that fails. -/
theorem mapM_eq_error_iff {f : α → Except ε β} {xs : List α} {e : ε} :
    xs.mapM f = .error e ↔
      ∃ before x after, xs = before ++ x :: after ∧ (∀ y ∈ before, ∃ z, f y = .ok z) ∧
        f x = .error e := by
  induction xs with
  | nil => exact ⟨nofun, fun ⟨_, _, _, h, _⟩ => absurd h.symm (by simp)⟩
  | cons x xs ih =>
    cases hx : f x with
    | error e' =>
      rw [mapM_cons_error xs hx]
      constructor
      · rintro ⟨⟩
        exact ⟨[], x, xs, rfl, nofun, hx⟩
      · rintro ⟨before, y, after, hsplit, hbefore, hy⟩
        cases before with
        | nil =>
          obtain ⟨rfl, -⟩ := List.cons.inj hsplit
          rw [hx] at hy
          cases hy
          rfl
        | cons b before =>
          obtain ⟨rfl, -⟩ := List.cons.inj hsplit
          obtain ⟨z, hz⟩ := hbefore x List.mem_cons_self
          cases hx.symm.trans hz
    | ok z =>
      have hmap : (x :: xs).mapM f = .error e ↔ xs.mapM f = .error e := by
        rw [mapM_cons_ok xs hx]
        cases xs.mapM f <;> simp [Except.map]
      rw [hmap, ih]
      constructor
      · rintro ⟨before, y, after, rfl, hbefore, hy⟩
        exact ⟨x :: before, y, after, rfl, List.forall_mem_cons.2 ⟨⟨z, hx⟩, hbefore⟩, hy⟩
      · rintro ⟨before, y, after, hsplit, hbefore, hy⟩
        cases before with
        | nil =>
          obtain ⟨rfl, -⟩ := List.cons.inj hsplit
          cases hx.symm.trans hy
        | cons b before =>
          obtain ⟨rfl, rfl⟩ := List.cons.inj hsplit
          exact ⟨before, y, after, rfl, (List.forall_mem_cons.1 hbefore).2, hy⟩

theorem exists_ok_of_map {f : α → β} {x : Except ε α} {y : β} (h : x.map f = .ok y) :
    ∃ a, x = .ok a ∧ f a = y := by
  cases x with
  | error e => cases h
  | ok a => cases h; exact ⟨a, rfl, rfl⟩

/-- A result of which something is known is a success. -/
theorem exists_ok_of_toOption {f : α → β} {x : Except ε α} {y : β}
    (h : x.toOption.map f = some y) : ∃ a, x = .ok a ∧ f a = y := by
  cases x with
  | error e => cases h
  | ok a => exact ⟨a, rfl, Option.some.inj h⟩

theorem eq_ok_of_toOption {x : Except ε α} {a : α} (h : x.toOption = some a) : x = .ok a := by
  cases x with
  | error e => cases h
  | ok b => exact congrArg Except.ok (Option.some.inj h)

theorem eq_error_of_map {f : α → β} {x : Except ε α} {e : ε} (h : x.map f = .error e) :
    x = .error e := by
  cases x with
  | error e' => cases h; rfl
  | ok a => cases h

theorem map_mapM (f : α → Except ε β) (g : β → γ) (xs : List α) :
    (xs.mapM f).map (List.map g) = xs.mapM fun x => (f x).map g := by
  induction xs with
  | nil => rfl
  | cons x xs ih =>
    cases hx : f x with
    | error e =>
      rw [mapM_cons_error xs hx, mapM_cons_error (f := fun x => (f x).map g) xs (by rw [hx]; rfl)]
      rfl
    | ok y =>
      rw [mapM_cons_ok xs hx, mapM_cons_ok (f := fun x => (f x).map g) xs (by rw [hx]; rfl), ← ih]
      cases xs.mapM f <;> rfl

/-- What has come of something that can fail, in another form. -/
def convert (onError : ε → ε) (onOk : α → β) : Except ε α → Except ε β
  | .error e => .error (onError e)
  | .ok a => .ok (onOk a)

/-- A traversal in another form takes its steps in that form. -/
theorem mapM_convert {α' β' : Type} {onError : ε → ε} {onOk : β → β'} {g : α → α'}
    {f : α → Except ε β} {f' : α' → Except ε β'}
    (h : ∀ x, f' (g x) = convert onError onOk (f x)) (xs : List α) :
    (xs.map g).mapM f' = convert onError (List.map onOk) (xs.mapM f) := by
  induction xs with
  | nil => rfl
  | cons x xs ih =>
    rw [List.map_cons]
    cases hx : f x with
    | error e =>
      rw [mapM_cons_error xs hx, mapM_cons_error _ (by rw [h, hx]; rfl)]
      rfl
    | ok y =>
      rw [mapM_cons_ok xs hx, mapM_cons_ok _ (by rw [h, hx]; rfl), ih]
      cases xs.mapM f <;> rfl

theorem exists_left_of_forall₂ {R : α → β → Prop} {xs : List α} {ys : List β}
    (h : List.Forall₂ R xs ys) {y : β} (hy : y ∈ ys) : ∃ x ∈ xs, R x y := by
  induction h with
  | nil => cases hy
  | cons hxy _ ih =>
    rcases List.mem_cons.1 hy with rfl | hy
    · exact ⟨_, List.mem_cons_self, hxy⟩
    · obtain ⟨x, hx, hR⟩ := ih hy
      exact ⟨x, List.mem_cons_of_mem _ hx, hR⟩

theorem exists_right_of_forall₂ {R : α → β → Prop} {xs : List α} {ys : List β}
    (h : List.Forall₂ R xs ys) {x : α} (hx : x ∈ xs) : ∃ y ∈ ys, R x y :=
  exists_left_of_forall₂ (List.Forall₂.flip (R := flip R) h) hx

theorem forall₂_mem_right {R : α → β → Prop} {xs : List α} {ys : List β}
    (h : List.Forall₂ R xs ys) : List.Forall₂ (fun x y => R x y ∧ y ∈ ys) xs ys := by
  induction h with
  | nil => exact List.Forall₂.nil
  | cons hxy _ ih =>
    refine List.Forall₂.cons ⟨hxy, List.mem_cons_self⟩ (ih.imp fun x y hR => ?_)
    exact ⟨hR.1, List.mem_cons_of_mem _ hR.2⟩

/-- Two lists whose members come one by one from those of a third. -/
theorem forall₂_of_common {R : α → β → Prop} {S : α → γ → Prop} {xs : List α} {ys : List β}
    {zs : List γ} (hy : List.Forall₂ R xs ys) (hz : List.Forall₂ S xs zs) :
    List.Forall₂ (fun y z => ∃ x, R x y ∧ S x z) ys zs := by
  induction hy generalizing zs with
  | nil =>
    rw [List.forall₂_nil_left_iff] at hz
    rw [hz]
    exact List.Forall₂.nil
  | cons hxy _ ih =>
    obtain ⟨z, zs, hxz, hrest, rfl⟩ := List.forall₂_cons_left_iff.1 hz
    exact List.Forall₂.cons ⟨_, hxy, hxz⟩ (ih hrest)

/-- Lists that agree in what `f` and `g` show of their members. -/
theorem map_eq_of_forall₂ {R : α → β → Prop} {f : α → γ} {g : β → γ} {xs : List α} {ys : List β}
    (h : List.Forall₂ R xs ys) (hR : ∀ x y, R x y → g y = f x) : ys.map g = xs.map f := by
  induction h with
  | nil => rfl
  | cons hxy _ ih => rw [List.map_cons, List.map_cons, hR _ _ hxy, ih]

theorem exists_forall₂_iff {R : α → β → Prop} {xs : List α} :
    (∃ ys, List.Forall₂ R xs ys) ↔ ∀ x ∈ xs, ∃ y, R x y := by
  constructor
  · rintro ⟨ys, h⟩ x hx
    obtain ⟨y, _, hR⟩ := exists_right_of_forall₂ h hx
    exact ⟨y, hR⟩
  · intro h
    induction xs with
    | nil => exact ⟨[], List.Forall₂.nil⟩
    | cons x xs ih =>
      obtain ⟨y, hy⟩ := h x List.mem_cons_self
      obtain ⟨ys, hys⟩ := ih fun x' hx' => h x' (List.mem_cons_of_mem x hx')
      exact ⟨y :: ys, List.Forall₂.cons hy hys⟩

/-! ## Steps side by side -/

end Phrasebook.Traversal
