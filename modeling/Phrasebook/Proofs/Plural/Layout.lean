import Phrasebook.Proofs.Plural.Branches
import Phrasebook.Proofs.Text.Runs
import Phrasebook.Proofs.Traversal

/-!
# Layouts of plural messages

How a plural message may be written: the marker, items, a closing brace, and anything after it. A
text can be read exactly if it is written in such a layout with at least one text that is not empty,
it has one layout at most, and what is written for branches reads back to them
(`parse_eq_ok_iff_layout`).
-/

namespace Phrasebook.Plural

open Phrasebook.Text

/-- An item as it is written: blanks, a keyword, blanks, and a text between brackets. The keyword
is not followed by a letter, since a blank or the bracket follows. -/
@[ext] structure Item where
  before : List Char
  category : Category
  between : List Char
  body : List Char
  blank_before : ∀ c ∈ before, isBlank c = true
  blank_between : ∀ c ∈ between, isBlank c = true
  bracket_free : '[' ∉ body ∧ ']' ∉ body

/-- A plural message as it is written. -/
@[ext] structure Layout where
  items : List Item
  /-- The blanks before the closing brace. -/
  after : List Char
  /-- What follows the closing brace. -/
  suffix : List Char
  blank_after : ∀ c ∈ after, isBlank c = true

namespace Item

/-- The characters that follow the keyword. -/
def tail (i : Item) : List Char := i.between ++ '[' :: (i.body ++ [']'])

def toList (i : Item) : List Char := i.before ++ (i.category.keyword.toList ++ i.tail)

def branch (i : Item) : Branch := ⟨i.category, String.ofList i.body⟩

end Item

namespace Layout

/-- The characters after the marker. -/
def toList (l : Layout) : List Char := l.items.flatMap Item.toList ++ l.after ++ '}' :: l.suffix

def text (l : Layout) : String := String.ofList (marker.toList ++ l.toList)

/-- The branches that have a text. -/
def branches (l : Layout) : List Branch := (l.items.map Item.branch).filter (·.text ≠ "")

end Layout

theorem Item.text_branch_ne_iff (i : Item) : i.branch.text ≠ "" ↔ i.body ≠ [] := by
  simp [Item.branch]

/-! ## Characters -/

theorem not_isBracket_iff {body : List Char} :
    (∀ c ∈ body, (!isBracket c) = true) ↔ '[' ∉ body ∧ ']' ∉ body := by
  constructor
  · intro h
    exact ⟨fun hc => absurd (h _ hc) (by decide), fun hc => absurd (h _ hc) (by decide)⟩
  · rintro ⟨hopen, hclose⟩ c hc
    have h₁ : c ≠ '[' := fun he => hopen (he ▸ hc)
    have h₂ : c ≠ ']' := fun he => hclose (he ▸ hc)
    simp [isBracket, h₁, h₂]

theorem not_isLetter_of_isBlank {c : Char} (h : isBlank c = true) : isLetter c = false := by
  rw [isLetter, Bool.eq_false_iff]
  intro halpha
  have hl : (decide (c.val ≥ 'A'.val ∧ c.val ≤ 'Z'.val) ||
      (decide (c.val ≥ 'a'.val) && decide (c.val ≤ 'z'.val))) = true := halpha
  have hA : 'A'.val.toNat = 65 := rfl
  have hZ : 'Z'.val.toNat = 90 := rfl
  have ha : 'a'.val.toNat = 97 := rfl
  have hz : 'z'.val.toNat = 122 := rfl
  have hc : c.toNat = c.val.toNat := rfl
  simp only [isBlank, blankRanges, List.any_cons, List.any_nil, Bool.or_eq_true, Bool.and_eq_true,
    decide_eq_true_eq, Bool.false_eq_true, or_false] at h
  simp only [Bool.or_eq_true, Bool.and_eq_true, decide_eq_true_eq, ge_iff_le,
    UInt32.le_iff_toNat_le] at hl
  omega

/-- A keyword is a run of letters, which are neither blanks nor braces. -/
theorem toList_keyword (k : Category) :
    ∃ c cs, k.keyword.toList = c :: cs ∧ isBlank c = false ∧ c ≠ '}' ∧
      ∀ x ∈ c :: cs, isLetter x = true := by
  cases k <;> exact ⟨_, _, rfl, by decide, by decide, List.all_eq_true.1 rfl⟩

/-- What follows the keyword of an item does not start with a letter. -/
theorem Item.exists_tail_append (i : Item) (rest : List Char) :
    ∃ c cs, i.tail ++ rest = c :: cs ∧ isLetter c = false := by
  have hblank := i.blank_between
  unfold Item.tail
  cases hb : i.between with
  | nil => exact ⟨'[', _, rfl, rfl⟩
  | cons c cs =>
    rw [hb] at hblank
    exact ⟨c, _, rfl, not_isLetter_of_isBlank (hblank c List.mem_cons_self)⟩

/-! ## Reading one item -/

theorem readText_eq_ok_iff {k : Category} {cs rest : List Char} {b : Branch} :
    readText k cs = .ok (b, rest) ↔
      ∃ body, ('[' ∉ body ∧ ']' ∉ body) ∧ cs = body ++ ']' :: rest ∧
        b = ⟨k, String.ofList body⟩ := by
  constructor
  · intro h
    unfold readText at h
    cases hd : cs.dropWhile (!isBracket ·) with
    | nil => rw [hd] at h; cases h
    | cons c r =>
      rw [hd] at h
      dsimp only at h
      split at h
      · rename_i hc
        subst hc
        cases h
        obtain ⟨hcs, hrun, _⟩ := exists_run_of_dropWhile hd
        exact ⟨_, not_isBracket_iff.1 hrun, hcs, rfl⟩
      · cases h
  · rintro ⟨body, hbody, rfl, rfl⟩
    have hrun := not_isBracket_iff.2 hbody
    rw [readText, dropWhile_run hrun rfl, takeWhile_run hrun rfl]
    rfl

theorem readItem_eq_ok_iff {c : Char} {cs rest : List Char} {b : Branch} :
    readItem c cs = .ok (b, rest) ↔
      ∃ i : Item, c :: cs = i.category.keyword.toList ++ (i.tail ++ rest) ∧ b = i.branch := by
  constructor
  · intro h
    unfold readItem at h
    split at h
    · cases h
    dsimp only at h
    split at h
    · cases h
    rename_i k hk
    split at h
    · rename_i r hs
      obtain ⟨body, hbody, rfl, rfl⟩ := readText_eq_ok_iff.1 h
      obtain ⟨hcs, hrun, _⟩ := exists_run_of_dropWhile hs
      have hword : k.keyword.toList = c :: cs.takeWhile isLetter := by
        rw [Category.ofKeyword?_eq_some_iff.1 hk, String.toList_ofList]
      refine ⟨⟨[], k, _, body, nofun, hrun, hbody⟩, ?_, rfl⟩
      rw [hword, List.cons_append, Item.tail, List.append_assoc, List.cons_append,
        List.append_assoc, List.singleton_append, ← hcs, List.takeWhile_append_dropWhile]
    · cases h
  · rintro ⟨i, hcs, rfl⟩
    obtain ⟨c₀, ks, hk, _, _, hletters⟩ := toList_keyword i.category
    obtain ⟨d, ds, htail, hd⟩ := i.exists_tail_append rest
    rw [hk, List.cons_append, htail] at hcs
    obtain ⟨rfl, rfl⟩ := List.cons.inj hcs
    have hc := hletters c List.mem_cons_self
    have hks : ∀ x ∈ ks, isLetter x = true := fun x hx => hletters x (List.mem_cons_of_mem c hx)
    have hword : String.ofList (c :: ks) = i.category.keyword := by
      rw [← hk, String.ofList_toList]
    unfold readItem
    rw [hc, takeWhile_run hks hd, dropWhile_run hks hd, hword]
    have hskip : skipBlanks (i.tail ++ rest) = '[' :: (i.body ++ ']' :: rest) := by
      rw [Item.tail, List.append_assoc, List.cons_append, List.append_assoc,
        List.singleton_append]
      exact dropWhile_run i.blank_between rfl
    dsimp only [Bool.not_true]
    rw [Category.ofKeyword?_keyword, ← htail]
    dsimp only
    rw [hskip]
    exact readText_eq_ok_iff.2 ⟨i.body, i.bracket_free, rfl, rfl⟩

/-! ## Reading the items -/

theorem readItems_close {cs rest : List Char} (h : skipBlanks cs = '}' :: rest) :
    readItems cs = .ok [] := by
  rw [readItems]
  split
  · rename_i hnil
    rw [h] at hnil
    cases hnil
  · rename_i hcons
    rw [h] at hcons
    cases hcons
    exact if_pos rfl

theorem readItems_item {c : Char} {cs rest rest' : List Char} {b : Branch}
    (h : skipBlanks cs = c :: rest) (hc : c ≠ '}') (hi : readItem c rest = .ok (b, rest')) :
    readItems cs =
      (readItems rest').map fun bs => if b.text = "" then bs else b :: bs := by
  rw [readItems]
  split
  · rename_i hnil
    rw [h] at hnil
    cases hnil
  · rename_i hcons
    rw [h] at hcons
    cases hcons
    rw [if_neg hc]
    split
    · rename_i he
      rw [hi] at he
      cases he
    · rename_i hok
      rw [hi] at hok
      cases hok
      rfl

theorem skipBlanks_toList_append (i : Item) (rest : List Char) :
    skipBlanks (i.toList ++ rest) = i.category.keyword.toList ++ (i.tail ++ rest) := by
  obtain ⟨c, cs, hk, hc, _, _⟩ := toList_keyword i.category
  rw [Item.toList, List.append_assoc, List.append_assoc, hk]
  exact dropWhile_run i.blank_before hc

namespace Layout

/-- The layout with one more item in front. -/
def cons (i : Item) (l : Layout) : Layout := { l with items := i :: l.items }

@[elab_as_elim]
theorem cons_induction {motive : Layout → Prop}
    (closed : ∀ after suffix h, motive ⟨[], after, suffix, h⟩)
    (cons : ∀ i l, motive l → motive (cons i l)) (l : Layout) : motive l := by
  obtain ⟨items, after, suffix, hafter⟩ := l
  induction items with
  | nil => exact closed after suffix hafter
  | cons i items ih => exact cons i _ ih

theorem toList_cons (i : Item) (l : Layout) : (cons i l).toList = i.toList ++ l.toList := by
  simp only [toList, cons, List.flatMap_cons, List.append_assoc]

theorem branches_cons (i : Item) (l : Layout) :
    (cons i l).branches =
      if i.branch.text = "" then l.branches else i.branch :: l.branches := by
  unfold branches cons
  by_cases he : i.branch.text = "" <;> simp [he]

/-- What is written in a layout is read. -/
theorem readItems_toList (l : Layout) : readItems l.toList = .ok l.branches := by
  induction l using cons_induction with
  | closed after suffix hafter => exact readItems_close (dropWhile_run hafter rfl)
  | cons i l ih =>
    obtain ⟨c, cs, hk, _, hne, _⟩ := toList_keyword i.category
    have hskip := skipBlanks_toList_append i l.toList
    rw [hk, List.cons_append] at hskip
    have hi : readItem c (cs ++ (i.tail ++ l.toList)) = .ok (i.branch, l.toList) :=
      readItem_eq_ok_iff.2 ⟨i, by rw [hk, List.cons_append], rfl⟩
    rw [toList_cons, readItems_item hskip hne hi, ih, branches_cons]
    rfl

/-- What is read is written in a layout. -/
theorem exists_of_readItems {cs : List Char} {bs : List Branch} (h : readItems cs = .ok bs) :
    ∃ l : Layout, l.toList = cs ∧ l.branches = bs := by
  fun_induction readItems cs generalizing bs with
  | case1 => cases h
  | case2 cs rest hb =>
    cases h
    obtain ⟨hcs, hrun, _⟩ := exists_run_of_dropWhile hb
    exact ⟨⟨[], _, rest, hrun⟩, hcs.symm, rfl⟩
  | case3 => cases h
  | case4 cs c rest hb hc branch rest' hi ih =>
    obtain ⟨bs', hbs', rfl⟩ := Traversal.exists_ok_of_map h
    obtain ⟨l, rfl, rfl⟩ := ih hbs'
    obtain ⟨i, hcs', rfl⟩ := readItem_eq_ok_iff.1 hi
    obtain ⟨hcs, hrun, _⟩ := exists_run_of_dropWhile hb
    refine ⟨cons { i with before := _, blank_before := hrun } l, ?_, ?_⟩
    · rw [toList_cons, Item.toList, List.append_assoc, List.append_assoc]
      exact (hcs' ▸ hcs).symm
    · exact branches_cons ..

/-! ## One layout at most -/

theorem eq_of_toList_item_append {i i' : Item} {rest rest' : List Char}
    (h : i.toList ++ rest = i'.toList ++ rest') : i = i' ∧ rest = rest' := by
  obtain ⟨c, cs, hk, hc, _, hletters⟩ := toList_keyword i.category
  obtain ⟨c', cs', hk', hc', _, hletters'⟩ := toList_keyword i'.category
  obtain ⟨d, ds, ht, hd⟩ := i.exists_tail_append rest
  obtain ⟨d', ds', ht', hd'⟩ := i'.exists_tail_append rest'
  -- the blanks, the keyword, the blanks and the text are one run each
  rw [Item.toList, Item.toList, List.append_assoc, List.append_assoc, List.append_assoc,
    List.append_assoc, hk, hk', List.cons_append, List.cons_append] at h
  obtain ⟨hbefore, h⟩ := run_inj i.blank_before hc i'.blank_before hc' h
  rw [← List.cons_append, ← List.cons_append, ht, ht'] at h
  obtain ⟨hkeyword, h⟩ := run_inj hletters hd hletters' hd' h
  rw [← ht, ← ht', Item.tail, Item.tail, List.append_assoc, List.append_assoc, List.cons_append,
    List.cons_append, List.append_assoc, List.append_assoc] at h
  obtain ⟨hbetween, h⟩ := run_inj i.blank_between rfl i'.blank_between rfl h
  obtain ⟨hbody, h⟩ := run_inj (not_isBracket_iff.2 i.bracket_free) rfl
    (not_isBracket_iff.2 i'.bracket_free) rfl (List.cons.inj h).2
  have hcategory : i.category = i'.category := by
    rw [← hk, ← hk', String.toList_inj] at hkeyword
    have hsome := Category.ofKeyword?_keyword i.category
    rw [hkeyword, Category.ofKeyword?_keyword] at hsome
    exact (Option.some.inj hsome).symm
  exact ⟨Item.ext hbefore hcategory hbetween hbody, (List.cons.inj h).2⟩

/-- An item is not where the block is closed. -/
theorem toList_item_append_ne (i : Item) (cs : List Char) {run rest : List Char}
    (hrun : ∀ c ∈ run, isBlank c = true) : i.toList ++ cs ≠ run ++ '}' :: rest := by
  intro he
  obtain ⟨c, ks, hk, _, hne, _⟩ := toList_keyword i.category
  have hskip := skipBlanks_toList_append i cs
  rw [he, hk] at hskip
  exact hne (List.cons.inj ((dropWhile_run hrun rfl).symm.trans hskip)).1.symm

theorem toList_injective : Function.Injective toList := by
  intro l l' h
  induction l using cons_induction generalizing l' with
  | closed after suffix hafter =>
    cases l' using cons_induction with
    | closed after' suffix' hafter' =>
      obtain ⟨rfl, he⟩ := run_inj hafter rfl hafter' rfl h
      cases he
      rfl
    | cons i' l' =>
      exact absurd ((toList_cons i' l').symm.trans h.symm) (toList_item_append_ne _ _ hafter)
  | cons i l ih =>
    cases l' using cons_induction with
    | closed after' suffix' hafter' =>
      exact absurd ((toList_cons i l).symm.trans h) (toList_item_append_ne _ _ hafter')
    | cons i' l' =>
      rw [toList_cons, toList_cons] at h
      obtain ⟨rfl, he⟩ := eq_of_toList_item_append h
      rw [ih he]

theorem text_injective : Function.Injective text := by
  intro l l' h
  exact toList_injective (List.append_cancel_left (String.ofList_injective h))

theorem branches_ne_nil_iff (l : Layout) : l.branches ≠ [] ↔ ∃ i ∈ l.items, i.body ≠ [] := by
  simp [branches, Item.branch]

/-- The first branch is the first item that is written with a text. -/
theorem head?_branches (l : Layout) :
    l.branches.head? = (l.items.find? (·.body ≠ [])).map Item.branch := by
  rw [branches, List.head?_filter, List.find?_map]
  congr 2
  funext i
  exact decide_eq_decide.2 i.text_branch_ne_iff

end Layout

/-! ## Written branches -/

theorem exists_items_of_branches {bs : List Branch} (hne : bs ≠ [])
    (hfree : ∀ b ∈ bs, '[' ∉ b.text.toList ∧ ']' ∉ b.text.toList) (before : List Char)
    (hbefore : ∀ c ∈ before, isBlank c = true) :
    ∃ items : List Item, items.map Item.branch = bs ∧
      items.flatMap Item.toList = before ++ (" ".intercalate (bs.map Branch.render)).toList := by
  have hspace : ∀ c ∈ [' '], isBlank c = true := List.all_eq_true.1 rfl
  induction bs generalizing before with
  | nil => exact absurd rfl hne
  | cons b bs ih =>
    obtain ⟨hb, hbs⟩ := List.forall_mem_cons.1 hfree
    let item : Item := ⟨before, b.category, [' '], b.text.toList, hbefore, hspace, hb⟩
    have hbranch : item.branch = b := by
      show Branch.mk _ (String.ofList b.text.toList) = b
      rw [String.ofList_toList]
    have hitem : item.toList = before ++ b.render.toList := by
      simp [item, Item.toList, Item.tail, Branch.render]
    cases bs with
    | nil =>
      refine ⟨[item], by rw [List.map_singleton, hbranch], ?_⟩
      rw [List.flatMap_singleton, hitem, List.map_singleton, String.intercalate_singleton]
    | cons b' bs =>
      obtain ⟨items, hmap, htext⟩ := ih (List.cons_ne_nil _ _) hbs [' '] hspace
      refine ⟨item :: items, by rw [List.map_cons, hbranch, hmap], ?_⟩
      have hne' : (b' :: bs).map Branch.render ≠ [] := List.cons_ne_nil _ _
      have hrender : (" ".intercalate ((b :: b' :: bs).map Branch.render)).toList =
          b.render.toList ++ ' ' :: (" ".intercalate ((b' :: bs).map Branch.render)).toList := by
        rw [List.map_cons, String.intercalate_cons_of_ne_nil hne', String.toList_append,
          String.toList_append, List.append_assoc]
        rfl
      rw [List.flatMap_cons, hitem, htext, hrender, List.append_assoc]
      rfl

/-- Branches as they are written, with anything after them, are a layout of these branches. -/
theorem exists_layout_render {bs : List Branch} (hne : bs ≠ [])
    (hfree : ∀ b ∈ bs, b.text ≠ "" ∧ '[' ∉ b.text.toList ∧ ']' ∉ b.text.toList)
    (trailing : String) :
    ∃ l : Layout, l.text = render bs ++ trailing ∧ l.branches = bs := by
  obtain ⟨items, hmap, htext⟩ :=
    exists_items_of_branches hne (fun b hb => (hfree b hb).2) [] nofun
  refine ⟨⟨items, [], trailing.toList, nofun⟩, ?_, ?_⟩
  · rw [← String.toList_inj]
    simp [Layout.text, Layout.toList, render, htext]
  · show (items.map Item.branch).filter _ = bs
    rw [hmap, List.filter_eq_self]
    intro b hb
    exact decide_eq_true (hfree b hb).1

/-! ## Reading a message -/

theorem parse_eq_ok_iff_readItems {text : String} {bs : List Branch} :
    parse text = .ok bs ↔
      ∃ cs, text = String.ofList (marker.toList ++ cs) ∧ readItems cs = .ok bs ∧ bs ≠ [] := by
  constructor
  · intro h
    have hne := ne_nil_of_parse h
    unfold parse at h
    split at h
    · cases h
    · rename_i cs hcs
      refine ⟨cs, ?_, ?_, hne⟩
      · rw [← after?_eq_some_iff.1 hcs, String.ofList_toList]
      · split at h
        · cases h
        · cases h
        · rename_i hbs
          cases h
          exact hbs
  · rintro ⟨cs, rfl, hbs, hne⟩
    unfold parse afterMarker?
    rw [String.toList_ofList, after?_append]
    dsimp only
    rw [hbs]
    cases bs with
    | nil => exact absurd rfl hne
    | cons => rfl

/-- What has been read is the branches of the one layout that the text is written in. -/
theorem exists_layout_of_parse {text : String} {bs : List Branch} (h : parse text = .ok bs) :
    ∃ l : Layout, l.text = text ∧ l.branches = bs := by
  obtain ⟨cs, rfl, hcs, -⟩ := parse_eq_ok_iff_readItems.1 h
  obtain ⟨l, rfl, rfl⟩ := Layout.exists_of_readItems hcs
  exact ⟨l, rfl, rfl⟩

/-- **The plural messages are the texts in a layout with some text in it**, their branches are those
of the layout, the layout is unique, and written branches are read back. -/
theorem parse_eq_ok_iff_layout :
    (∀ text bs, parse text = .ok bs ↔
      ∃ l : Layout, l.text = text ∧ (∃ i ∈ l.items, i.body ≠ []) ∧ l.branches = bs) ∧
    (∀ l l' : Layout, l.text = l'.text → l = l') ∧
    ∀ (bs : List Branch) (trailing : String), bs ≠ [] →
      (∀ b ∈ bs, b.text ≠ "" ∧ '[' ∉ b.text.toList ∧ ']' ∉ b.text.toList) →
      parse (render bs ++ trailing) = .ok bs := by
  have hparse : ∀ text bs, parse text = .ok bs ↔
      ∃ l : Layout, l.text = text ∧ (∃ i ∈ l.items, i.body ≠ []) ∧ l.branches = bs := by
    intro text bs
    rw [parse_eq_ok_iff_readItems]
    constructor
    · rintro ⟨cs, rfl, hcs, hne⟩
      obtain ⟨l, rfl, rfl⟩ := Layout.exists_of_readItems hcs
      exact ⟨l, rfl, l.branches_ne_nil_iff.1 hne, rfl⟩
    · rintro ⟨l, rfl, hbody, rfl⟩
      exact ⟨l.toList, rfl, l.readItems_toList, l.branches_ne_nil_iff.2 hbody⟩
  refine ⟨hparse, fun l l' h => Layout.text_injective h, fun bs trailing hne hfree => ?_⟩
  obtain ⟨l, htext, rfl⟩ := exists_layout_render hne hfree trailing
  exact (hparse _ _).2 ⟨l, htext, l.branches_ne_nil_iff.1 hne, rfl⟩

/-- Items that touch, one of them without a text, a brace in a text, and more after the block. -/
theorem parse_touching_items :
    parse "\x7bcount, plural, zero[]one\n[a\x7d b] \x7d!" = .ok [⟨.one, "a\x7d b"⟩] ∧
      parse (render [⟨.one, "a\x7d b"⟩, ⟨.one, "c"⟩] ++ "!") =
        .ok [⟨.one, "a\x7d b"⟩, ⟨.one, "c"⟩] := by
  let zero : Item := ⟨[], .zero, [], [], nofun, nofun, by decide⟩
  let one : Item := ⟨[], .one, ['\n'], ['a', '\x7d', ' ', 'b'], nofun, List.all_eq_true.1 rfl,
    by decide⟩
  let l : Layout := ⟨[zero, one], [' '], ['!'], List.all_eq_true.1 rfl⟩
  obtain ⟨hparse, _, hrender⟩ := parse_eq_ok_iff_layout
  refine ⟨(hparse _ _).2 ⟨l, by decide, ⟨one, by simp [l], List.cons_ne_nil _ _⟩, by decide⟩, ?_⟩
  exact hrender _ "!" (List.cons_ne_nil _ _) (by decide)

end Phrasebook.Plural
