import Mathlib.Data.List.TakeWhile
import Mathlib.Order.WellFounded
import Phrasebook.Proofs.Plural.Layout

/-!
# What is wrong with a plural message

The items of a plural message are read one after another as far as that goes, and what comes next
decides alone why the message is refused (`parse_eq_error_iff_fault`).

1. Where an item should stand, `readItem` gives the reason that `Fault` names for what stands there
   (`readItem_eq_error_iff`).
2. Items that are complete change nothing about what follows them (`readItems_append`), so the whole
   message is refused for the reason found behind the last of them (`Opening.readItems_toList`).
3. The longest beginning of complete items is the one behind which no further item and no blank
   stands (`Opening.isLongest_iff`). There is one in every text and no other.
-/

namespace Phrasebook.Plural

open Phrasebook.Text

/-- The characters after the marker, cut behind some items and blanks. -/
@[ext] structure Opening where
  items : List Item
  blanks : List Char
  /-- What comes next. -/
  rest : List Char
  blank_blanks : ∀ c ∈ blanks, isBlank c = true

namespace Opening

def toList (o : Opening) : List Char := o.items.flatMap Item.toList ++ (o.blanks ++ o.rest)

/-- No other items and blanks reach further into the same text. -/
def IsLongest (o : Opening) : Prop :=
  ∀ o' : Opening, o'.toList = o.toList → o.rest.length ≤ o'.rest.length

end Opening

/-- Why there is neither another item nor the end of a block with some text in it. The first
character that is not blank comes first. -/
inductive Fault : List Char → Error → Prop where
  | ended : Fault [] .unterminatedBlock
  /-- The block is closed. This is wrong if no item before has a text. -/
  | closed (rest : List Char) : Fault ('}' :: rest) .noBranches
  | notLetter {c : Char} (rest : List Char) (hbrace : c ≠ '}') (hc : isLetter c = false) :
      Fault (c :: rest) (.unexpectedChar c)
  /-- The letters up to the next other character are no keyword. -/
  | notKeyword {word rest : List Char} (hne : word ≠ []) (hword : ∀ c ∈ word, isLetter c = true)
      (hrest : ∀ c ∈ rest.head?, isLetter c = false)
      (hkeyword : ∀ k : Category, k.keyword.toList ≠ word) :
      Fault (word ++ rest) (.unknownCategory (String.ofList word))
  | notOpened (k : Category) {blanks rest : List Char}
      (hkeyword : ∀ c ∈ (blanks ++ rest).head?, isLetter c = false)
      (hblanks : ∀ c ∈ blanks, isBlank c = true)
      (hrest : ∀ c ∈ rest.head?, isBlank c = false ∧ c ≠ '[') :
      Fault (k.keyword.toList ++ (blanks ++ rest)) (.missingOpenBracket k)
  | nested (k : Category) {blanks body : List Char} (rest : List Char)
      (hblanks : ∀ c ∈ blanks, isBlank c = true) (hbody : '[' ∉ body ∧ ']' ∉ body) :
      Fault (k.keyword.toList ++ (blanks ++ '[' :: (body ++ '[' :: rest))) (.nestedBracket k)
  | notClosed (k : Category) {blanks body : List Char}
      (hblanks : ∀ c ∈ blanks, isBlank c = true) (hbody : '[' ∉ body ∧ ']' ∉ body) :
      Fault (k.keyword.toList ++ (blanks ++ '[' :: body)) (.unterminatedBranch k)

/-! ## Where an item should stand -/

variable {k : Category} {c : Char} {cs rest : List Char} {e : Error}

theorem readText_eq_error_iff :
    readText k cs = .error e ↔
      (∃ body rest, ('[' ∉ body ∧ ']' ∉ body) ∧ cs = body ++ '[' :: rest ∧ e = .nestedBracket k) ∨
      ('[' ∉ cs ∧ ']' ∉ cs) ∧ e = .unterminatedBranch k := by
  constructor
  · intro h
    unfold readText at h
    split at h
    · rename_i hd
      cases h
      exact .inr ⟨not_isBracket_iff.1 (List.dropWhile_eq_nil_iff.1 hd), rfl⟩
    · rename_i b rest hd
      obtain ⟨hcs, hrun, hb⟩ := exists_run_of_dropWhile hd
      split at h
      · cases h
      · rename_i hne
        cases h
        have hopen : b = '[' := by simpa [isBracket, hne] using hb
        exact .inl ⟨_, rest, not_isBracket_iff.1 hrun, hopen ▸ hcs, rfl⟩
  · rintro (⟨body, rest, hbody, rfl, rfl⟩ | ⟨hcs, rfl⟩)
    · rw [readText, dropWhile_run (not_isBracket_iff.2 hbody) rfl]
      rfl
    · rw [readText, List.dropWhile_eq_nil_iff.2 (not_isBracket_iff.2 hcs)]

/-- A keyword that no letter follows is read, and the item goes on with a bracket. -/
theorem readItem_keyword (h : c :: cs = k.keyword.toList ++ rest)
    (hrest : ∀ x ∈ rest.head?, isLetter x = false) :
    readItem c cs = match skipBlanks rest with
      | '[' :: rest => readText k rest
      | _ => .error (.missingOpenBracket k) := by
  obtain ⟨c', ks, hk, _, _, hletters⟩ := toList_keyword k
  rw [hk, List.cons_append] at h
  obtain ⟨rfl, rfl⟩ := List.cons.inj h
  have hks : ∀ x ∈ ks, isLetter x = true := fun x hx => hletters x (List.mem_cons_of_mem c hx)
  have hword : Category.ofKeyword? (String.ofList (c :: ks)) = some k := by
    rw [← hk, String.ofList_toList, Category.ofKeyword?_keyword]
  unfold readItem
  rw [hletters c List.mem_cons_self, takeWhile_append_run hks hrest,
    dropWhile_append_run hks hrest]
  dsimp only [Bool.not_true]
  rw [hword]
  rfl

theorem skipBlanks_append {blanks : List Char} (hblanks : ∀ x ∈ blanks, isBlank x = true)
    (hrest : ∀ x ∈ rest.head?, isBlank x = false) : skipBlanks (blanks ++ rest) = rest :=
  dropWhile_append_run hblanks hrest

/-- A bracket, with blanks before it or without, does not go on with the keyword. -/
theorem not_isLetter_of_bracket {blanks : List Char} (hblanks : ∀ x ∈ blanks, isBlank x = true)
    (cs : List Char) : ∀ x ∈ (blanks ++ '[' :: cs).head?, isLetter x = false := by
  cases blanks with
  | nil => rintro _ ⟨⟩; rfl
  | cons b blanks =>
    rintro _ ⟨⟩
    exact not_isLetter_of_isBlank (hblanks b List.mem_cons_self)

theorem readItem_of_fault (h : Fault (c :: cs) e) (hc : c ≠ '}') : readItem c cs = .error e := by
  generalize hcs : c :: cs = text at h
  cases h with
  | ended => cases hcs
  | closed => exact absurd (List.cons.inj hcs).1 hc
  | notLetter rest _ hletter =>
    cases hcs
    rw [readItem, hletter]
    rfl
  | @notKeyword word rest hne hword hrest hkeyword =>
    obtain ⟨d, ds, rfl⟩ := List.exists_cons_of_ne_nil hne
    rw [List.cons_append] at hcs
    obtain ⟨rfl, rfl⟩ := List.cons.inj hcs
    have hds : ∀ x ∈ ds, isLetter x = true := fun x hx => hword x (List.mem_cons_of_mem c hx)
    have hnone : Category.ofKeyword? (String.ofList (c :: ds)) = none := by
      rw [Option.eq_none_iff_forall_ne_some]
      intro k hk
      apply hkeyword k
      rw [Category.ofKeyword?_eq_some_iff.1 hk, String.toList_ofList]
    unfold readItem
    rw [hword c List.mem_cons_self, takeWhile_append_run hds hrest]
    dsimp only [Bool.not_true]
    rw [hnone]
    rfl
  | notOpened k hkeyword hblanks hrest =>
    rw [readItem_keyword hcs hkeyword, skipBlanks_append hblanks fun x hx => (hrest x hx).1]
    split
    · exact absurd rfl (hrest _ rfl).2
    · rfl
  | nested k rest hblanks hbody =>
    rw [readItem_keyword hcs (not_isLetter_of_bracket hblanks _),
      skipBlanks_append hblanks (by rintro _ ⟨⟩; rfl)]
    exact readText_eq_error_iff.2 (.inl ⟨_, rest, hbody, rfl, rfl⟩)
  | notClosed k hblanks hbody =>
    rw [readItem_keyword hcs (not_isLetter_of_bracket hblanks _),
      skipBlanks_append hblanks (by rintro _ ⟨⟩; rfl)]
    exact readText_eq_error_iff.2 (.inr ⟨hbody, rfl⟩)

theorem fault_of_readItem (h : readItem c cs = .error e) (hc : c ≠ '}') : Fault (c :: cs) e := by
  unfold readItem at h
  split at h
  · rename_i hletter
    cases h
    exact .notLetter cs hc (by simpa using hletter)
  rename_i hletter
  have hword : ∀ x ∈ c :: cs.takeWhile isLetter, isLetter x = true :=
    List.forall_mem_cons.2 ⟨by simpa using hletter, fun x => List.mem_takeWhile_imp⟩
  have hrest := head?_dropWhile_run isLetter cs
  have hcs : c :: cs = (c :: cs.takeWhile isLetter) ++ cs.dropWhile isLetter := by
    rw [List.cons_append, List.takeWhile_append_dropWhile]
  dsimp only at h
  split at h
  · rename_i hnone
    cases h
    rw [hcs]
    refine .notKeyword (List.cons_ne_nil _ _) hword hrest fun k hk => ?_
    rw [← hk, String.ofList_toList, Category.ofKeyword?_keyword] at hnone
    cases hnone
  rename_i k hk
  have hkeyword : k.keyword.toList = c :: cs.takeWhile isLetter := by
    rw [Category.ofKeyword?_eq_some_iff.1 hk, String.toList_ofList]
  rw [hcs, ← hkeyword]
  generalize cs.dropWhile isLetter = tail at h hrest ⊢
  have htail : tail = tail.takeWhile isBlank ++ skipBlanks tail :=
    List.takeWhile_append_dropWhile.symm
  have hblanks : ∀ x ∈ tail.takeWhile isBlank, isBlank x = true := fun x => List.mem_takeWhile_imp
  split at h
  · rename_i opened hopen
    rw [htail, hopen]
    rcases readText_eq_error_iff.1 h with ⟨body, rest, hbody, rfl, rfl⟩ | ⟨hbody, rfl⟩
    · exact .nested k rest hblanks hbody
    · exact .notClosed k hblanks hbody
  · rename_i hopen
    cases h
    rw [htail] at hrest ⊢
    refine .notOpened k hrest hblanks fun x hx => ⟨head?_dropWhile_run isBlank tail x hx, ?_⟩
    rintro rfl
    obtain ⟨opened, ho⟩ := List.head?_eq_some_iff.1 hx
    exact hopen opened ho

/-- What is wrong where an item should stand. -/
theorem readItem_eq_error_iff (hc : c ≠ '}') : readItem c cs = .error e ↔ Fault (c :: cs) e :=
  ⟨fun h => fault_of_readItem h hc, fun h => readItem_of_fault h hc⟩

/-- Whatever is wrong, the text ends, or the block is closed, or an item should stand there. -/
theorem Fault.start (h : Fault cs e) :
    cs = [] ∧ e = .unterminatedBlock ∨ (∃ rest, cs = '}' :: rest ∧ e = .noBranches) ∨
      ∃ c rest, cs = c :: rest ∧ c ≠ '}' ∧ e ≠ .noBranches := by
  have hkeyword : ∀ (k : Category) (rest : List Char),
      ∃ c cs, k.keyword.toList ++ rest = c :: cs ∧ c ≠ '}' := by
    intro k rest
    obtain ⟨c, ks, hk, _, hc, _⟩ := toList_keyword k
    exact ⟨c, ks ++ rest, by rw [hk, List.cons_append], hc⟩
  cases h with
  | ended => exact .inl ⟨rfl, rfl⟩
  | closed rest => exact .inr (.inl ⟨rest, rfl, rfl⟩)
  | notLetter rest hbrace => exact .inr (.inr ⟨_, rest, rfl, hbrace, nofun⟩)
  | @notKeyword word rest hne hword =>
    obtain ⟨c, ks, rfl⟩ := List.exists_cons_of_ne_nil hne
    refine .inr (.inr ⟨c, ks ++ rest, rfl, ?_, nofun⟩)
    rintro rfl
    exact absurd (hword _ List.mem_cons_self) (by decide)
  | @notOpened k blanks rest =>
    obtain ⟨c, cs, hcs, hc⟩ := hkeyword k (blanks ++ rest)
    exact .inr (.inr ⟨c, cs, hcs, hc, nofun⟩)
  | @nested k blanks body rest =>
    obtain ⟨c, cs, hcs, hc⟩ := hkeyword k (blanks ++ '[' :: (body ++ '[' :: rest))
    exact .inr (.inr ⟨c, cs, hcs, hc, nofun⟩)
  | @notClosed k blanks body =>
    obtain ⟨c, cs, hcs, hc⟩ := hkeyword k (blanks ++ '[' :: body)
    exact .inr (.inr ⟨c, cs, hcs, hc, nofun⟩)

/-- One thing at most is wrong. -/
theorem Fault.unique {e' : Error} (h : Fault cs e) (h' : Fault cs e') : e = e' := by
  rcases h.start with ⟨rfl, rfl⟩ | ⟨rest, rfl, rfl⟩ | ⟨c, rest, rfl, hc, -⟩
  · rcases h'.start with ⟨-, rfl⟩ | ⟨_, hcs, -⟩ | ⟨_, _, hcs, -⟩
    · rfl
    · cases hcs
    · cases hcs
  · rcases h'.start with ⟨hcs, -⟩ | ⟨_, -, rfl⟩ | ⟨_, _, hcs, hc, -⟩
    · cases hcs
    · rfl
    · exact absurd (List.cons.inj hcs).1.symm hc
  · have hread := (readItem_eq_error_iff hc).2 h
    rw [(readItem_eq_error_iff hc).2 h'] at hread
    exact (Except.error.inj hread).symm

/-! ## Behind complete items -/

/-- Complete items in front give their branches, and change nothing else. -/
theorem readItems_append (items : List Item) (cs : List Char) :
    readItems (items.flatMap Item.toList ++ cs) =
      (readItems cs).map fun bs => (items.map Item.branch).filter (·.text ≠ "") ++ bs := by
  induction items with
  | nil =>
    show readItems cs = (readItems cs).map fun bs => bs
    cases readItems cs <;> rfl
  | cons i items ih =>
    rw [List.flatMap_cons, List.append_assoc]
    generalize items.flatMap Item.toList ++ cs = rest at ih ⊢
    obtain ⟨c, ks, hk, _, hne, _⟩ := toList_keyword i.category
    have hskip := skipBlanks_toList_append i rest
    rw [hk, List.cons_append] at hskip
    have hi : readItem c (ks ++ (i.tail ++ rest)) = .ok (i.branch, rest) :=
      readItem_eq_ok_iff.2 ⟨i, by rw [hk, List.cons_append], rfl⟩
    rw [readItems_item hskip hne hi, ih, List.map_cons]
    cases readItems cs with
    | error e => rfl
    | ok bs => by_cases he : i.branch.text = "" <;> simp [Except.map, he]

theorem readItems_ended (h : skipBlanks cs = []) : readItems cs = .error .unterminatedBlock := by
  rw [readItems]
  split
  · rfl
  · rename_i hcons
    rw [h] at hcons
    cases hcons

theorem readItems_stuck (h : skipBlanks cs = c :: rest) (hc : c ≠ '}')
    (hi : readItem c rest = .error e) : readItems cs = .error e := by
  rw [readItems]
  split
  · rename_i hnil
    rw [h] at hnil
    cases hnil
  · rename_i hcons
    rw [h] at hcons
    cases hcons
    rw [if_neg hc]
    split
    · rename_i he
      rw [hi] at he
      cases he
      rfl
    · rename_i hok
      rw [hi] at hok
      cases hok

/-- What stands behind items and blanks is not passed over with the first blanks of the text. -/
theorem suffix_skipBlanks (items : List Item) {blanks : List Char}
    (hblanks : ∀ x ∈ blanks, isBlank x = true) (hrest : ∀ x ∈ rest.head?, isBlank x = false) :
    rest <:+ skipBlanks (items.flatMap Item.toList ++ (blanks ++ rest)) := by
  cases items with
  | nil =>
    exact ⟨[], (skipBlanks_append hblanks hrest).symm⟩
  | cons i items =>
    rw [List.flatMap_cons, List.append_assoc, skipBlanks_toList_append]
    simp only [← List.append_assoc]
    exact List.suffix_append _ _

namespace Opening

variable {o o' : Opening}

/-- The longest beginning is the one behind which neither a blank nor an item stands. -/
theorem isLongest_iff :
    o.IsLongest ↔ (∀ x ∈ o.rest.head?, isBlank x = false) ∧
      ∀ (i : Item) (cs : List Char), i.toList ++ cs ≠ o.blanks ++ o.rest := by
  constructor
  · intro h
    have hblank : ∀ x ∈ o.rest.head?, isBlank x = false := by
      intro x hx
      rw [Bool.eq_false_iff]
      intro hb
      obtain ⟨rest, hrest⟩ := List.head?_eq_some_iff.1 hx
      have hblanks : ∀ c ∈ o.blanks ++ [x], isBlank c = true :=
        List.forall_mem_append.2 ⟨o.blank_blanks, List.forall_mem_singleton.2 hb⟩
      have hle := h ⟨o.items, o.blanks ++ [x], rest, hblanks⟩ (by simp [toList, hrest])
      rw [hrest, List.length_cons] at hle
      exact absurd hle (Nat.not_succ_le_self _)
    refine ⟨hblank, fun i cs hi => ?_⟩
    have hle := h ⟨o.items ++ [i], [], cs, nofun⟩ (by simp [toList, hi])
    -- the rest would begin with the keyword of the item
    obtain ⟨c, ks, hk, _⟩ := toList_keyword i.category
    have hskip := skipBlanks_toList_append i cs
    rw [hi, skipBlanks_append o.blank_blanks hblank, hk] at hskip
    rw [hskip] at hle
    simp only [List.length_append, List.length_cons] at hle
    omega
  · rintro ⟨hblank, hitem⟩ o' ho
    obtain ⟨items, blanks, rest, hblanks⟩ := o
    obtain ⟨items', blanks', rest', hblanks'⟩ := o'
    unfold toList at ho
    dsimp only at *
    induction items' generalizing items with
    | nil =>
      have hsuffix := suffix_skipBlanks items hblanks hblank
      have hskip : skipBlanks (blanks' ++ rest') = skipBlanks rest' :=
        List.dropWhile_append_of_pos hblanks'
      rw [← ho, List.flatMap_nil, List.nil_append, hskip] at hsuffix
      exact hsuffix.length_le.trans (length_skipBlanks_le rest')
    | cons i' items' ih =>
      rw [List.flatMap_cons, List.append_assoc] at ho
      cases items with
      | nil => exact absurd ho (hitem i' _)
      | cons i items =>
        rw [List.flatMap_cons, List.append_assoc] at ho
        exact ih items (Layout.eq_of_toList_item_append ho).2

theorem exists_isLongest (cs : List Char) : ∃ o : Opening, o.toList = cs ∧ o.IsLongest := by
  obtain ⟨o, ho, hmin⟩ := (measure fun o : Opening => o.rest.length).wf.has_min
    {o | o.toList = cs} ⟨⟨[], [], cs, nofun⟩, rfl⟩
  refine ⟨o, ho, fun o' ho' => Nat.le_of_not_lt (hmin o' ?_)⟩
  exact ho'.trans ho

theorem eq_of_isLongest (h : o.IsLongest) (h' : o'.IsLongest) (ho : o'.toList = o.toList) :
    o' = o := by
  have hlength : o'.rest.length = o.rest.length := Nat.le_antisymm (h' o ho.symm) (h o' ho)
  unfold toList at ho
  rw [← List.append_assoc, ← List.append_assoc] at ho
  obtain ⟨hread, hrest⟩ := List.append_inj' ho hlength
  -- items and blanks can be told apart: a block that is closed behind them has one layout
  have hlayout : Layout.mk o'.items o'.blanks [] o'.blank_blanks =
      ⟨o.items, o.blanks, [], o.blank_blanks⟩ :=
    Layout.toList_injective (congrArg (· ++ ['}']) hread)
  exact Opening.ext (congrArg Layout.items hlayout) (congrArg Layout.after hlayout) hrest

theorem exists_fault (h : o.IsLongest) : ∃ e, Fault o.rest e := by
  obtain ⟨hblank, hitem⟩ := isLongest_iff.1 h
  cases hrest : o.rest with
  | nil => exact ⟨_, .ended⟩
  | cons c rest =>
    by_cases hc : c = '}'
    · subst hc
      exact ⟨_, .closed rest⟩
    cases hread : readItem c rest with
    | error e => exact ⟨e, fault_of_readItem hread hc⟩
    | ok r =>
      -- an item that can be read would be one more
      obtain ⟨i, hi, -⟩ := readItem_eq_ok_iff.1 (show readItem c rest = .ok (r.1, r.2) from hread)
      refine absurd ?_ (hitem { i with before := o.blanks, blank_before := o.blank_blanks } r.2)
      rw [hrest, hi, Item.toList, List.append_assoc, List.append_assoc]
      rfl

/-- Where something is wrong there is no further item. -/
theorem isLongest_of_fault {e : Error} (h : Fault o.rest e)
    (hblank : ∀ x ∈ o.rest.head?, isBlank x = false) : o.IsLongest := by
  refine isLongest_iff.2 ⟨hblank, fun i cs hi => ?_⟩
  obtain ⟨c, ks, hk, _, hc, _⟩ := toList_keyword i.category
  have hrest := skipBlanks_toList_append i cs
  rw [hi, skipBlanks_append o.blank_blanks hblank, hk, List.cons_append] at hrest
  have hread : readItem c (ks ++ (i.tail ++ cs)) = .ok (i.branch, cs) :=
    readItem_eq_ok_iff.2 ⟨i, by rw [hk, List.cons_append], rfl⟩
  rw [hrest] at h
  rw [readItem_of_fault h hc] at hread
  cases hread

/-- The items are read, and then there is what `Fault` says. -/
theorem readItems_toList (h : o.IsLongest) {e : Error} (he : Fault o.rest e) :
    readItems o.toList =
      if e = .noBranches then .ok ((o.items.map Item.branch).filter (·.text ≠ ""))
      else .error e := by
  have hskip : skipBlanks (o.blanks ++ o.rest) = o.rest :=
    skipBlanks_append o.blank_blanks (isLongest_iff.1 h).1
  unfold toList
  rw [readItems_append]
  rcases he.start with ⟨hnil, rfl⟩ | ⟨rest, hbrace, rfl⟩ | ⟨c, rest, hitem, hc, hne⟩
  · rw [readItems_ended (hskip.trans hnil)]
    rfl
  · rw [readItems_close (hskip.trans hbrace)]
    simp [Except.map]
  · rw [hitem] at he
    rw [readItems_stuck (hskip.trans hitem) hc (readItem_of_fault he hc), if_neg hne]
    rfl

end Opening

/-! ## Why a message is refused -/

/-- The text of an item is dropped if it is empty. -/
theorem filter_branch_eq_nil_iff {items : List Item} :
    (items.map Item.branch).filter (·.text ≠ "") = [] ↔ ∀ i ∈ items, i.body = [] := by
  simp [Item.branch]

theorem parse_of_no_marker {text : String} (h : ¬ marker.toList <+: text.toList) :
    parse text = .error .notPlural := by
  have hnone : afterMarker? text = none := by
    rw [Option.eq_none_iff_forall_ne_some]
    exact fun cs hcs => h ⟨cs, (after?_eq_some_iff.1 hcs).symm⟩
  rw [parse, hnone]

theorem parse_of_marker {text : String} (h : text.toList = marker.toList ++ cs) :
    parse text =
      (readItems cs).bind fun bs => if bs = [] then .error .noBranches else .ok bs := by
  unfold parse afterMarker?
  rw [h, after?_append]
  dsimp only
  cases readItems cs with
  | error e => rfl
  | ok bs => cases bs <;> rfl

theorem Opening.parse_eq_error_iff {o : Opening} {text : String} (h : o.IsLongest)
    (htext : text.toList = marker.toList ++ o.toList) :
    parse text = .error e ↔
      Fault o.rest e ∧ (e = .noBranches → ∀ i ∈ o.items, i.body = []) := by
  obtain ⟨fault, hfault⟩ := o.exists_fault h
  rw [parse_of_marker htext, readItems_toList h hfault]
  by_cases hclosed : fault = .noBranches
  · subst hclosed
    rw [if_pos rfl]
    show (if _ = [] then _ else _) = _ ↔ _
    by_cases hempty : ∀ i ∈ o.items, i.body = []
    · rw [if_pos (filter_branch_eq_nil_iff.2 hempty), Except.error.injEq]
      constructor
      · rintro rfl
        exact ⟨hfault, fun _ => hempty⟩
      · rintro ⟨he, -⟩
        exact hfault.unique he
    · rw [if_neg (mt filter_branch_eq_nil_iff.1 hempty)]
      refine ⟨nofun, ?_⟩
      rintro ⟨he, hbodies⟩
      exact absurd (hbodies (he.unique hfault)) hempty
  · rw [if_neg hclosed]
    show Except.error fault = _ ↔ _
    rw [Except.error.injEq]
    constructor
    · rintro rfl
      exact ⟨hfault, fun he => absurd he hclosed⟩
    · rintro ⟨he, -⟩
      exact hfault.unique he

/-- **What is wrong first.** A text without the marker is no plural message. Behind the marker there
is one longest beginning of complete items and blanks, and one thing that is wrong with what comes
next. The message is refused for it, unless that is the end of a block with some text in it. -/
theorem parse_eq_error_iff_fault (text : String) :
    (parse text = .error .notPlural ↔ ¬ marker.toList <+: text.toList) ∧
    ∀ cs, text.toList = marker.toList ++ cs →
      ∃ o : Opening, (∀ o' : Opening, o'.toList = cs ∧ o'.IsLongest ↔ o' = o) ∧
        (∃! e, Fault o.rest e) ∧
        ∀ e, parse text = .error e ↔
          Fault o.rest e ∧ (e = .noBranches → ∀ i ∈ o.items, i.body = []) := by
  refine ⟨⟨?_, parse_of_no_marker⟩, fun cs hcs => ?_⟩
  · rintro h ⟨cs, hcs⟩
    obtain ⟨o, rfl, hlongest⟩ := Opening.exists_isLongest cs
    obtain ⟨hfault, -⟩ := (Opening.parse_eq_error_iff hlongest hcs.symm).1 h
    generalize o.rest = rest at hfault
    cases hfault
  · obtain ⟨o, rfl, hlongest⟩ := Opening.exists_isLongest cs
    obtain ⟨e, he⟩ := o.exists_fault hlongest
    have hunique : ∀ o', o'.toList = o.toList ∧ o'.IsLongest ↔ o' = o := by
      refine fun o' => ⟨fun h => Opening.eq_of_isLongest hlongest h.2 h.1, ?_⟩
      rintro rfl
      exact ⟨rfl, hlongest⟩
    exact ⟨o, hunique, ⟨e, he, fun e' he' => he'.unique he⟩,
      fun e => Opening.parse_eq_error_iff hlongest hcs⟩

/-- Behind an item without a text and a complete one, a word that only begins with a keyword. -/
theorem parse_unknown_word :
    parse "\x7bcount, plural, zero[]one\n[a\x7d b] \n twos [c]" =
      .error (.unknownCategory "twos") := by
  let zero : Item := ⟨[], .zero, [], [], nofun, nofun, by decide⟩
  let one : Item := ⟨[], .one, ['\n'], ['a', '\x7d', ' ', 'b'], nofun, List.all_eq_true.1 rfl,
    by decide⟩
  let o : Opening := ⟨[zero, one], [' ', '\n', ' '], "twos [c]".toList, List.all_eq_true.1 rfl⟩
  have hfault : Fault o.rest (.unknownCategory "twos") := by
    have hword : Fault ("twos".toList ++ " [c]".toList) _ :=
      .notKeyword (by decide) (List.all_eq_true.1 rfl) (by rintro _ ⟨⟩; rfl)
        (fun k => by cases k <;> decide)
    exact hword
  have hlongest : o.IsLongest := Opening.isLongest_of_fault hfault (by rintro _ ⟨⟩; rfl)
  obtain ⟨-, h⟩ := parse_eq_error_iff_fault
    "\x7bcount, plural, zero[]one\n[a\x7d b] \n twos [c]"
  obtain ⟨o', hunique, -, hparse⟩ := h o.toList (by decide)
  obtain rfl := (hunique o).1 ⟨rfl, hlongest⟩
  exact (hparse _).2 ⟨hfault, nofun⟩

end Phrasebook.Plural
