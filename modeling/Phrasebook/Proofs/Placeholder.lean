import Mathlib.Data.List.Basic
import Phrasebook.Placeholder
import Phrasebook.Proofs.Text.Runs

/-!
# Texts taken apart at their placeholders

A text is a sequence of gaps with a placeholder between any two of them. It can be taken apart in
many ways, but in one way only such that no opening brace in a gap could begin a placeholder, and
the names that are found are those of this one layout (`names_eq_layout`).
-/

namespace Phrasebook.Placeholder

open Phrasebook.Text

/-- What follows an opening brace closes it: of the closing braces and line feeds in it, the first
one is a closing brace. -/
def Closes (cs : List Char) : Prop :=
  ∃ name rest, cs = name ++ '}' :: rest ∧ '}' ∉ name ∧ '\n' ∉ name

/-- No opening brace in a gap is closed, by the gap or by what stands behind it. -/
def NoneCloses (gap behind : List Char) : Prop :=
  ∀ pre post, gap = pre ++ '{' :: post → ¬ Closes (post ++ behind)

/-- A gap, and the name of the placeholder behind it. -/
@[ext] structure Piece where
  gap : List Char
  name : List Char
  name_free : '}' ∉ name ∧ '\n' ∉ name

/-- A text taken apart into gaps and placeholders. -/
@[ext] structure Layout where
  pieces : List Piece
  /-- The gap behind the last placeholder. -/
  rest : List Char

/-- The placeholder with its braces, in front of a text. -/
def Piece.opened (p : Piece) (behind : List Char) : List Char := '{' :: (p.name ++ '}' :: behind)

namespace Layout

/-- The layout with one more piece in front. -/
def cons (p : Piece) (l : Layout) : Layout := { l with pieces := p :: l.pieces }

@[elab_as_elim]
theorem cons_induction {motive : Layout → Prop} (gap : ∀ rest, motive ⟨[], rest⟩)
    (cons : ∀ p l, motive l → motive (cons p l)) (l : Layout) : motive l := by
  obtain ⟨pieces, rest⟩ := l
  induction pieces with
  | nil => exact gap rest
  | cons p ps ih => exact cons p _ ih

def toList (l : Layout) : List Char := l.pieces.foldr (fun p cs => p.gap ++ p.opened cs) l.rest

def text (l : Layout) : String := String.ofList l.toList

def names (l : Layout) : List String := l.pieces.map fun p => String.ofList p.name

theorem toList_cons (p : Piece) (l : Layout) :
    (cons p l).toList = p.gap ++ p.opened l.toList := rfl

/-- No opening brace in a gap could begin a placeholder. -/
structure IsLeftmost (l : Layout) : Prop where
  gap : ∀ before p after, l.pieces = before ++ p :: after →
    NoneCloses p.gap (p.opened (toList ⟨after, l.rest⟩))
  rest : NoneCloses l.rest []

theorem isLeftmost_nil_iff {rest : List Char} :
    IsLeftmost ⟨[], rest⟩ ↔ NoneCloses rest [] := by
  refine ⟨fun h => h.rest, fun h => ⟨fun before p after he => ?_, h⟩⟩
  simp at he

theorem isLeftmost_cons_iff {p : Piece} {l : Layout} :
    (cons p l).IsLeftmost ↔ NoneCloses p.gap (p.opened l.toList) ∧ l.IsLeftmost := by
  constructor
  · intro h
    refine ⟨h.gap [] p l.pieces rfl, fun before q after he => ?_, h.rest⟩
    exact h.gap (p :: before) q after (congrArg (p :: ·) he)
  · rintro ⟨hp, hl⟩
    refine ⟨fun before q after he => ?_, hl.rest⟩
    cases before with
    | nil =>
      obtain ⟨rfl, rfl⟩ := List.cons.inj he
      exact hp
    | cons b before => exact hl.gap before q after (List.cons.inj he).2

end Layout

/-! ## Braces that are closed -/

theorem closes_opened (p : Piece) (behind : List Char) : Closes (p.name ++ '}' :: behind) :=
  ⟨p.name, behind, rfl, p.name_free⟩

theorem Closes.cons {c : Char} {cs : List Char} (h : Closes cs) (hline : c ≠ '\n') :
    Closes (c :: cs) := by
  obtain ⟨name, rest, rfl, hclose, hfeed⟩ := h
  by_cases hc : c = '}'
  · subst hc
    exact ⟨[], _, rfl, List.not_mem_nil, List.not_mem_nil⟩
  · refine ⟨c :: name, rest, rfl, ?_, ?_⟩
    · exact fun hmem => (List.mem_cons.1 hmem).elim (fun he => hc he.symm) hclose
    · exact fun hmem => (List.mem_cons.1 hmem).elim (fun he => hline he.symm) hfeed

/-- A closing brace on the same line is enough. -/
theorem closes_of_not_mem {between rest : List Char} (h : '\n' ∉ between) :
    Closes (between ++ '}' :: rest) := by
  induction between with
  | nil => exact ⟨[], rest, rfl, List.not_mem_nil, List.not_mem_nil⟩
  | cons c cs ih =>
    rw [List.mem_cons, not_or] at h
    exact (ih h.2).cons (Ne.symm h.1)

theorem noneCloses_nil (behind : List Char) : NoneCloses [] behind := by
  intro pre post he
  simp at he

theorem noneCloses_cons_iff {c : Char} {gap behind : List Char} :
    NoneCloses (c :: gap) behind ↔
      (c = '{' → ¬ Closes (gap ++ behind)) ∧ NoneCloses gap behind := by
  constructor
  · intro h
    refine ⟨fun hc => h [] gap (by rw [hc]; rfl), fun pre post he => ?_⟩
    exact h (c :: pre) post (congrArg (c :: ·) he)
  · rintro ⟨hhead, htail⟩ pre post he
    cases pre with
    | nil =>
      obtain ⟨rfl, rfl⟩ := List.cons.inj he
      exact hhead rfl
    | cons d pre => exact htail pre post (List.cons.inj he).2

/-! ## The names that are found -/

theorem not_endsName_iff {name : List Char} :
    (∀ c ∈ name, (!endsName c) = true) ↔ '}' ∉ name ∧ '\n' ∉ name := by
  constructor
  · intro h
    exact ⟨fun hc => absurd (h _ hc) (by decide), fun hc => absurd (h _ hc) (by decide)⟩
  · rintro ⟨hclose, hfeed⟩ c hc
    have h₁ : c ≠ '}' := fun he => hclose (he ▸ hc)
    have h₂ : c ≠ '\n' := fun he => hfeed (he ▸ hc)
    simp [endsName, h₁, h₂]

theorem nameAhead?_opened (p : Piece) (behind : List Char) :
    nameAhead? (p.name ++ '}' :: behind) = some (String.ofList p.name) := by
  have hrun := not_endsName_iff.2 p.name_free
  rw [nameAhead?, dropWhile_run hrun rfl, takeWhile_run hrun rfl]
  rfl

theorem nameAhead?_eq_none {cs : List Char} (h : ¬ Closes cs) : nameAhead? cs = none := by
  apply if_neg
  intro hhead
  obtain ⟨rest, hrest⟩ := List.head?_eq_some_iff.1 hhead
  obtain ⟨hcs, hrun, -⟩ := exists_run_of_dropWhile hrest
  exact h ⟨_, rest, hcs, not_endsName_iff.1 hrun⟩

/-- The name of a placeholder is passed over. -/
theorem namesFrom_true_name {name rest : List Char} (h : ∀ c ∈ name, (!endsName c) = true) :
    namesFrom true (name ++ '}' :: rest) = namesFrom false rest := by
  induction name with
  | nil => rfl
  | cons c cs ih =>
    rw [List.forall_mem_cons] at h
    rw [List.cons_append, namesFrom, if_pos rfl, h.1, ih h.2]

theorem namesFrom_opened (p : Piece) (behind : List Char) :
    namesFrom false (p.opened behind) = String.ofList p.name :: namesFrom false behind := by
  rw [Piece.opened, namesFrom, if_neg Bool.false_ne_true, if_pos rfl, nameAhead?_opened,
    namesFrom_true_name (not_endsName_iff.2 p.name_free)]
  rfl

/-- Where a brace is not closed, no brace on the rest of its line is. So it makes no difference that
this rest is passed over. -/
theorem namesFrom_true_eq {cs : List Char} (h : ¬ Closes cs) :
    namesFrom true cs = namesFrom false cs := by
  induction cs with
  | nil => rfl
  | cons c cs ih =>
    by_cases hline : c = '\n'
    · subst hline
      rfl
    · have hclose : c ≠ '}' := by
        rintro rfl
        exact h ⟨[], cs, rfl, List.not_mem_nil, List.not_mem_nil⟩
      have hcs : ¬ Closes cs := fun hcs => h (hcs.cons hline)
      have hpass : namesFrom true (c :: cs) = namesFrom true cs := by
        simp [namesFrom, endsName, hline, hclose]
      rw [hpass, namesFrom, if_neg Bool.false_ne_true]
      split
      · rw [nameAhead?_eq_none hcs]
        rfl
      · exact ih hcs

theorem namesFrom_cons {c : Char} {cs : List Char} (h : c = '{' → ¬ Closes cs) :
    namesFrom false (c :: cs) = namesFrom false cs := by
  rw [namesFrom, if_neg Bool.false_ne_true]
  split
  · rename_i hc
    rw [nameAhead?_eq_none (h hc), namesFrom_true_eq (h hc)]
    rfl
  · rfl

theorem namesFrom_gap {gap behind : List Char} (h : NoneCloses gap behind) :
    namesFrom false (gap ++ behind) = namesFrom false behind := by
  induction gap with
  | nil => rfl
  | cons c gap ih =>
    obtain ⟨hhead, htail⟩ := noneCloses_cons_iff.1 h
    rw [List.cons_append, namesFrom_cons hhead, ih htail]

namespace Layout

theorem namesFrom_toList {l : Layout} (h : l.IsLeftmost) : namesFrom false l.toList = l.names := by
  induction l using cons_induction with
  | gap rest =>
    have hrest := namesFrom_gap (isLeftmost_nil_iff.1 h)
    rwa [List.append_nil] at hrest
  | cons p l ih =>
    obtain ⟨hp, hl⟩ := isLeftmost_cons_iff.1 h
    rw [toList_cons, namesFrom_gap hp, namesFrom_opened, ih hl]
    rfl

/-! ## One layout for every text -/

/-- The layout with one more character in its first gap. -/
def push (c : Char) : Layout → Layout
  | ⟨[], rest⟩ => ⟨[], c :: rest⟩
  | ⟨p :: ps, rest⟩ => ⟨{ p with gap := c :: p.gap } :: ps, rest⟩

theorem toList_push (c : Char) (l : Layout) : (push c l).toList = c :: l.toList := by
  obtain ⟨pieces, rest⟩ := l
  cases pieces <;> rfl

theorem IsLeftmost.push {c : Char} {l : Layout} (h : l.IsLeftmost)
    (hc : c = '{' → ¬ Closes l.toList) : (push c l).IsLeftmost := by
  cases l using cons_induction with
  | gap rest =>
    refine isLeftmost_nil_iff.2 (noneCloses_cons_iff.2 ⟨?_, isLeftmost_nil_iff.1 h⟩)
    rwa [List.append_nil]
  | cons p l =>
    obtain ⟨hp, hl⟩ := isLeftmost_cons_iff.1 h
    exact isLeftmost_cons_iff.2 ⟨noneCloses_cons_iff.2 ⟨hc, hp⟩, hl⟩

/-- A brace that is closed begins a placeholder; any other character goes to the gap in front of
what follows it. -/
theorem exists_isLeftmost (cs : List Char) : ∃ l : Layout, l.toList = cs ∧ l.IsLeftmost := by
  induction hn : cs.length using Nat.strongRecOn generalizing cs with
  | ind n ih =>
    subst hn
    cases cs with
    | nil => exact ⟨⟨[], []⟩, rfl, isLeftmost_nil_iff.2 (noneCloses_nil _)⟩
    | cons c cs =>
      by_cases h : c = '{' ∧ Closes cs
      · obtain ⟨rfl, name, rest, rfl, hfree⟩ := h
        have hlt : rest.length < ('{' :: (name ++ '}' :: rest)).length := by simp; omega
        obtain ⟨l, rfl, hl⟩ := ih _ hlt rest rfl
        exact ⟨cons ⟨[], name, hfree⟩ l, rfl, isLeftmost_cons_iff.2 ⟨noneCloses_nil _, hl⟩⟩
      · obtain ⟨l, rfl, hl⟩ := ih _ (Nat.lt_succ_self _) cs rfl
        exact ⟨push c l, toList_push c l, hl.push fun hc hclose => h ⟨hc, hclose⟩⟩

/-- A gap cannot go on behind a brace that is closed. -/
theorem eq_nil_of_gap_append {gap more cs behind : List Char} (hcs : Closes cs)
    (hgap : NoneCloses (gap ++ more) behind) (h : '{' :: cs = more ++ behind) : more = [] := by
  cases more with
  | nil => rfl
  | cons c more =>
    obtain ⟨rfl, rfl⟩ := List.cons.inj h
    exact absurd hcs (hgap gap more rfl)

theorem gap_eq {gap gap' cs cs' : List Char} (hcs : Closes cs) (hcs' : Closes cs')
    (hgap : NoneCloses gap ('{' :: cs)) (hgap' : NoneCloses gap' ('{' :: cs'))
    (h : gap ++ '{' :: cs = gap' ++ '{' :: cs') : gap = gap' := by
  rcases List.append_eq_append_iff.1 h with ⟨more, rfl, he⟩ | ⟨more, rfl, he⟩
  · rw [eq_nil_of_gap_append hcs hgap' he, List.append_nil]
  · rw [eq_nil_of_gap_append hcs' hgap he, List.append_nil]

/-- A text that ends with its first gap has no placeholder behind another gap. -/
theorem gap_append_opened_ne {rest : List Char} (h : NoneCloses rest []) (gap : List Char)
    (p : Piece) (behind : List Char) : rest ≠ gap ++ p.opened behind := by
  intro he
  refine h gap _ he ?_
  rw [List.append_nil]
  exact closes_opened p behind

theorem eq_of_toList_eq {l l' : Layout} (hl : l.IsLeftmost) (hl' : l'.IsLeftmost)
    (h : l.toList = l'.toList) : l = l' := by
  induction l using cons_induction generalizing l' with
  | gap rest =>
    cases l' using cons_induction with
    | gap rest' => exact Layout.ext rfl h
    | cons p' l' => exact absurd h (gap_append_opened_ne (isLeftmost_nil_iff.1 hl) _ _ _)
  | cons p l ih =>
    obtain ⟨hp, hl⟩ := isLeftmost_cons_iff.1 hl
    cases l' using cons_induction with
    | gap rest' => exact absurd h.symm (gap_append_opened_ne (isLeftmost_nil_iff.1 hl') _ _ _)
    | cons p' l' =>
      obtain ⟨hp', hl'⟩ := isLeftmost_cons_iff.1 hl'
      rw [toList_cons, toList_cons] at h
      have hgap : p.gap = p'.gap :=
        gap_eq (closes_opened p _) (closes_opened p' _) hp hp' h
      rw [hgap] at h
      obtain ⟨hname, hbehind⟩ := run_inj (not_endsName_iff.2 p.name_free) rfl
        (not_endsName_iff.2 p'.name_free) rfl (List.cons.inj (List.append_cancel_left h)).2
      rw [ih hl hl' (List.cons.inj hbehind).2, Piece.ext hgap hname]

theorem toList_eq_of_text_eq {l : Layout} {text : String} (h : l.text = text) :
    l.toList = text.toList := by
  rw [← h, Layout.text, String.toList_ofList]

end Layout

/-- **The placeholders of a text.** There is one way only to take a text apart into gaps and
placeholders such that no brace in a gap could begin a placeholder, and the names are those of this
layout. So there are none exactly if every opening brace has a line feed between it and every
closing brace behind it. -/
theorem names_eq_layout (text : String) :
    (∃ l : Layout, l.text = text ∧ l.IsLeftmost ∧ names text = l.names ∧
      ∀ l' : Layout, l'.text = text → l'.IsLeftmost → l' = l) ∧
    (names text = [] ↔ ∀ pre between rest,
      text.toList = pre ++ '{' :: (between ++ '}' :: rest) → '\n' ∈ between) := by
  obtain ⟨l, hl, hleft⟩ := Layout.exists_isLeftmost text.toList
  have hnames : names text = l.names := by rw [names, ← hl, Layout.namesFrom_toList hleft]
  have htext : l.text = text := by rw [Layout.text, hl, String.ofList_toList]
  constructor
  · refine ⟨l, htext, hleft, hnames, fun l' htext' hleft' => ?_⟩
    exact Layout.eq_of_toList_eq hleft' hleft ((Layout.toList_eq_of_text_eq htext').trans hl.symm)
  · rw [hnames, ← hl]
    cases l using Layout.cons_induction with
    | gap rest =>
      refine ⟨fun _ pre between post he => ?_, fun _ => rfl⟩
      by_contra hline
      refine (Layout.isLeftmost_nil_iff.1 hleft) pre _ he ?_
      rw [List.append_nil]
      exact closes_of_not_mem hline
    | cons p l =>
      constructor
      · exact fun he => absurd he (List.cons_ne_nil _ _)
      · exact fun h => absurd (h _ _ _ (Layout.toList_cons p l)) p.name_free.2

/-- A brace that is not closed on its line, a brace within a name, an empty name, and a closing
brace that is left over. -/
theorem names_broken_line :
    ∃ l : Layout, l.text = "\x7ba\n\x7bb\x7bc\x7d\x7b\x7d\x7d" ∧ l.IsLeftmost ∧
      l.names = ["b\x7bc", ""] := by
  obtain ⟨⟨l, htext, hleft, hnames, -⟩, -⟩ := names_eq_layout "\x7ba\n\x7bb\x7bc\x7d\x7b\x7d\x7d"
  refine ⟨l, htext, hleft, ?_⟩
  rw [← hnames]
  decide

end Phrasebook.Placeholder
