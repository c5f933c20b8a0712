import Phrasebook.LocaleFile.KeyLine
import Phrasebook.Proofs.Text.Lines

/-!
# The search for a key

The line that is found for a dotted key is that of a place in the text at which as many of its first
parts as can be found have been found one after another, each between quotes and with a colon behind
it (`Leads`), and of all such places it is the first (`keyLine_eq`). Nothing is looked at but these
quotes and colons: whether a part is a key on the way to the one that is meant, the search cannot
tell.
-/

namespace Phrasebook.LocaleFile

open Text (after?_eq_some_iff lineOf)

/-! ## The table of lines -/

namespace LineTable

theorem lt_of_mem_startsFrom {offset start : Nat} {cs : List Char}
    (h : start ∈ startsFrom offset cs) : offset < start := by
  induction cs generalizing offset with
  | nil => cases h
  | cons c cs ih =>
    unfold startsFrom at h
    split at h
    · rcases List.mem_cons.1 h with rfl | h
      · exact Nat.lt_succ_self offset
      · exact Nat.lt_of_succ_lt (ih h)
    · exact Nat.lt_of_succ_lt (ih h)

theorem pairwise_startsFrom (offset : Nat) (cs : List Char) :
    (startsFrom offset cs).Pairwise (· < ·) := by
  induction cs generalizing offset with
  | nil => exact List.Pairwise.nil
  | cons c cs ih =>
    unfold startsFrom
    split
    · exact List.pairwise_cons.2 ⟨fun _ => lt_of_mem_startsFrom, ih _⟩
    · exact ih _

/-- The lines that start up to some place are as many as the line feeds before it. -/
theorem countP_startsFrom {offset place : Nat} (cs : List Char) (h : offset ≤ place) :
    (startsFrom offset cs).countP (· ≤ place) = (cs.take (place - offset)).count '\n' := by
  induction cs generalizing offset with
  | nil => simp [startsFrom]
  | cons c cs ih =>
    rcases Nat.eq_or_lt_of_le h with rfl | h
    · rw [Nat.sub_self, List.take_zero, List.count_nil, List.countP_eq_zero]
      intro start hstart
      simpa using lt_of_mem_startsFrom hstart
    · obtain ⟨n, hn⟩ : ∃ n, place - offset = n + 1 := ⟨place - offset - 1, by omega⟩
      have hnext : offset + 1 ≤ place := h
      have hrest := ih hnext
      have hpred : place - (offset + 1) = n := by omega
      rw [hpred] at hrest
      rw [hn, List.take_succ_cons, List.count_cons, ← hrest]
      rw [startsFrom]
      by_cases hc : c = '\n'
      · have hle : offset + 1 ≤ place := h
        simp [hc, hle]
      · simp [hc]

/-- In an ascending list the members up to some number come first. -/
theorem getElem_le_iff {starts : List Nat} (h : starts.Pairwise (· < ·)) {place i : Nat}
    (hi : i < starts.length) : starts[i] ≤ place ↔ i < starts.countP (· ≤ place) := by
  induction starts generalizing i with
  | nil => cases hi
  | cons start starts ih =>
    obtain ⟨hfirst, hrest⟩ := List.pairwise_cons.1 h
    by_cases hstart : start ≤ place
    · rw [List.countP_cons_of_pos (by simpa using hstart)]
      cases i with
      | zero => simp [hstart]
      | succ i =>
        rw [List.getElem_cons_succ, ih hrest (Nat.lt_of_succ_lt_succ hi)]
        omega
    · have hnone : (start :: starts).countP (· ≤ place) = 0 := by
        rw [List.countP_eq_zero]
        intro s hs
        rcases List.mem_cons.1 hs with rfl | hs
        · simpa using hstart
        · have := hfirst s hs
          simp only [decide_eq_true_eq]
          omega
      rw [hnone]
      cases i with
      | zero => simpa using hstart
      | succ i =>
        have := hfirst _ (List.getElem_mem (Nat.lt_of_succ_lt_succ hi))
        rw [List.getElem_cons_succ]
        omega

/-- Halving the range finds where the members up to the offset end. -/
theorem countUpTo_eq {starts : Array Nat} {offset low high n : Nat}
    (hn : ∀ i (h : i < starts.size), starts[i] ≤ offset ↔ i < n) (hlow : low ≤ n) (hhigh : n ≤ high)
    (hsize : high ≤ starts.size) : countUpTo starts offset low high = n := by
  fun_induction countUpTo starts offset low high with
  | case1 low high h middle hany ih =>
    have hm : middle < starts.size := by omega
    rw [Array.getElem?_eq_getElem hm, Option.any_some, decide_eq_true_iff, hn middle hm] at hany
    exact ih hany hhigh hsize
  | case2 low high h middle hany ih =>
    have hm : middle < starts.size := by omega
    rw [Array.getElem?_eq_getElem hm, Option.any_some, decide_eq_true_iff, hn middle hm] at hany
    exact ih hlow (Nat.not_lt.1 hany) (by omega)
  | case3 low high h => omega

theorem lineAt_ofText (cs : List Char) (offset : Nat) :
    (ofText cs).lineAt offset = 1 + (cs.take offset).count '\n' := by
  have hcount : (0 :: startsFrom 0 cs).countP (· ≤ offset) = 1 + (cs.take offset).count '\n' := by
    rw [List.countP_cons_of_pos (by simp), countP_startsFrom cs (Nat.zero_le offset), Nat.sub_zero,
      Nat.add_comm]
  have hascending : (0 :: startsFrom 0 cs).Pairwise (· < ·) :=
    List.pairwise_cons.2 ⟨fun _ => lt_of_mem_startsFrom, pairwise_startsFrom 0 cs⟩
  rw [← hcount]
  apply countUpTo_eq
  · intro i hi
    exact getElem_le_iff hascending hi
  · exact Nat.zero_le _
  · exact List.countP_le_length
  · exact Nat.le_refl _

end LineTable

/-! ## Keys in a text -/

variable {part : List Char} {parts : List (List Char)} {cs rest rest' : List Char} {offset : Nat}

/-- A part as it is searched for: between quotes. -/
def between (part : List Char) : List Char := '\x22' :: part ++ ['\x22']

/-- The part stands in the text between quotes, with a colon behind it, and what follows the closing
quote is `rest`. -/
def Occurs (part cs rest : List Char) : Prop :=
  ∃ pre, cs = pre ++ between part ++ rest ∧ colonFollows rest = true

theorem Occurs.suffix (h : Occurs part cs rest) : rest <:+ cs := by
  obtain ⟨pre, rfl, -⟩ := h
  exact List.suffix_append _ _

theorem Occurs.length_le (h : Occurs part (between part ++ rest) rest') :
    rest'.length ≤ rest.length := by
  obtain ⟨pre, heq, -⟩ := h
  have hlength := congrArg List.length heq
  simp only [List.length_append] at hlength
  omega

theorem Occurs.append (h : Occurs part cs rest) (pre : List Char) :
    Occurs part (pre ++ cs) rest := by
  obtain ⟨pre', rfl, hcolon⟩ := h
  exact ⟨pre ++ pre', by simp only [List.append_assoc], hcolon⟩

/-- A part that stands in a text stands at its beginning or in what follows its first character. -/
theorem occurs_cons_iff {c : Char} : Occurs part (c :: cs) rest ↔
    (c :: cs = between part ++ rest ∧ colonFollows rest = true) ∨ Occurs part cs rest := by
  constructor
  · rintro ⟨_ | ⟨c', pre⟩, heq, hcolon⟩
    · exact .inl ⟨heq, hcolon⟩
    · exact .inr ⟨pre, (List.cons.inj heq).2, hcolon⟩
  · rintro (⟨heq, hcolon⟩ | h)
    · exact ⟨[], heq, hcolon⟩
    · exact h.append [c]

theorem not_occurs_nil : ¬ Occurs part [] rest := by
  rintro ⟨pre, heq, -⟩
  simp [between] at heq

/-- What a search for a part finds: the first place at which it stands. -/
structure Finds (part cs rest : List Char) : Prop where
  occurs : Occurs part cs rest
  first : ∀ rest', Occurs part cs rest' → rest' <:+ rest

theorem findKey?_of_here (hcs : cs = between part ++ rest) (hcolon : colonFollows rest = true) :
    findKey? (between part) offset cs = some (offset + (between part).length, rest) := by
  have hafter : Text.after? (between part) cs = some rest := after?_eq_some_iff.2 hcs
  cases cs with
  | nil => simp [between] at hcs
  | cons c cs =>
    unfold findKey?
    rw [hafter]
    exact if_pos hcolon

theorem findKey?_of_not_here {c : Char}
    (h : ∀ rest, c :: cs = between part ++ rest → colonFollows rest = false) :
    findKey? (between part) offset (c :: cs) = findKey? (between part) (offset + 1) cs := by
  rw [findKey?]
  split
  · rename_i rest hafter
    rw [h rest (after?_eq_some_iff.1 hafter)]
    rfl
  · rfl

/-- The search finds the first place at which the part stands, if there is one. -/
theorem findKey?_cases (part : List Char) (offset : Nat) (cs : List Char) :
    (findKey? (between part) offset cs = none ∧ ∀ rest, ¬ Occurs part cs rest) ∨
      ∃ place rest, findKey? (between part) offset cs = some (place, rest) ∧ Finds part cs rest ∧
        place + rest.length = offset + cs.length := by
  induction cs generalizing offset with
  | nil => exact .inl ⟨rfl, fun _ => not_occurs_nil⟩
  | cons c cs ih =>
    by_cases hhere : ∃ rest, c :: cs = between part ++ rest ∧ colonFollows rest = true
    · obtain ⟨rest, hcs, hcolon⟩ := hhere
      refine .inr ⟨_, rest, findKey?_of_here hcs hcolon, ⟨⟨[], hcs, hcolon⟩, fun rest' h => ?_⟩, ?_⟩
      · -- Of two places the one that leaves more of the text is the first, even if they overlap.
        rw [hcs] at h
        exact List.suffix_of_suffix_length_le h.suffix (List.suffix_append _ _) h.length_le
      · rw [hcs, List.length_append, Nat.add_assoc]
    · have hnot : ∀ rest, c :: cs = between part ++ rest → colonFollows rest = false :=
        fun rest hcs => Bool.eq_false_iff.2 fun hcolon => hhere ⟨rest, hcs, hcolon⟩
      rw [findKey?_of_not_here hnot]
      rcases ih (offset + 1) with ⟨hnone, hno⟩ | ⟨place, rest, hsome, hfinds, hlength⟩
      · refine .inl ⟨hnone, fun rest h => ?_⟩
        rcases occurs_cons_iff.1 h with h | h
        · exact hhere ⟨rest, h⟩
        · exact hno rest h
      · refine .inr ⟨place, rest, hsome, ⟨hfinds.occurs.append [c], fun rest' h => ?_⟩, ?_⟩
        · rcases occurs_cons_iff.1 h with h | h
          · exact absurd ⟨rest', h⟩ hhere
          · exact hfinds.first rest' h
        · rw [hlength, List.length_cons]
          omega

theorem findKeys_of_none (h : findKey? (between part) offset cs = none) :
    findKeys offset cs (part :: parts) = offset := by
  rw [findKeys, show findKey? ('\x22' :: part ++ ['\x22']) offset cs = none from h]

theorem findKeys_of_some {place : Nat} (h : findKey? (between part) offset cs = some (place, rest)) :
    findKeys offset cs (part :: parts) = findKeys place rest parts := by
  rw [findKeys, show findKey? ('\x22' :: part ++ ['\x22']) offset cs = some (place, rest) from h]

/-! ## Parts one after another -/

/-- The parts stand in the text one after another, and what follows the last one is `rest`. -/
def InOrder : List (List Char) → List Char → List Char → Prop
  | [], cs, rest => rest = cs
  | part :: parts, cs, rest => ∃ mid, Occurs part cs mid ∧ InOrder parts mid rest

theorem InOrder.suffix (h : InOrder parts cs rest) : rest <:+ cs := by
  induction parts generalizing cs with
  | nil => exact h ▸ List.suffix_rfl
  | cons part parts ih =>
    obtain ⟨_, hoccurs, hrest⟩ := h
    exact (ih hrest).trans hoccurs.suffix

/-- Parts that stand in the end of a text stand in the text. -/
theorem InOrder.of_suffix (h : InOrder parts rest' rest) (hne : parts ≠ []) (hcs : rest' <:+ cs) :
    InOrder parts cs rest := by
  obtain ⟨pre, rfl⟩ := hcs
  cases parts with
  | nil => exact absurd rfl hne
  | cons part parts =>
    obtain ⟨mid, hoccurs, hrest⟩ := h
    exact ⟨mid, hoccurs.append pre, hrest⟩

theorem inOrder_append_iff {more : List (List Char)} : InOrder (parts ++ more) cs rest ↔
    ∃ mid, InOrder parts cs mid ∧ InOrder more mid rest := by
  induction parts generalizing cs with
  | nil => exact ⟨fun h => ⟨cs, rfl, h⟩, fun ⟨_, heq, h⟩ => heq ▸ h⟩
  | cons part parts ih =>
    simp only [List.cons_append, InOrder, ih]
    constructor
    · rintro ⟨first, hoccurs, mid, hparts, hmore⟩
      exact ⟨mid, ⟨first, hoccurs, hparts⟩, hmore⟩
    · rintro ⟨mid, ⟨first, hoccurs, hparts⟩, hmore⟩
      exact ⟨first, hoccurs, mid, hparts, hmore⟩

/-- The search leads to the first place behind the parts that it finds, and finds as many as
possible. -/
structure Leads (found missing : List (List Char)) (cs rest : List Char) : Prop where
  inOrder : InOrder found cs rest
  first : ∀ rest', InOrder found cs rest' → rest' <:+ rest
  most : ∀ part ∈ missing.head?, ∀ rest', ¬ InOrder (found ++ [part]) cs rest'

/-- What the search for a part finds begins what the search for all of them leads to. -/
theorem Leads.cons {found missing : List (List Char)} (hfinds : Finds part cs rest')
    (h : Leads found missing rest' rest) : Leads (part :: found) missing cs rest where
  inOrder := ⟨rest', hfinds.occurs, h.inOrder⟩
  first := by
    rintro rest'' ⟨mid, hoccurs, hrest⟩
    cases found with
    | nil =>
      obtain rfl : rest = rest' := h.inOrder
      obtain rfl : rest'' = mid := hrest
      exact hfinds.first _ hoccurs
    | cons next found =>
      exact h.first _ (hrest.of_suffix (List.cons_ne_nil _ _) (hfinds.first _ hoccurs))
  most := by
    rintro next hnext rest'' ⟨mid, hoccurs, hrest⟩
    exact h.most next hnext rest''
      (hrest.of_suffix (by simp) (hfinds.first _ hoccurs))

/-- Where the search for parts leads. -/
theorem exists_leads (offset : Nat) (cs : List Char) (parts : List (List Char)) :
    ∃ found missing rest, parts = found ++ missing ∧ Leads found missing cs rest ∧
      findKeys offset cs parts + rest.length = offset + cs.length := by
  induction parts generalizing offset cs with
  | nil => exact ⟨[], [], cs, rfl, ⟨rfl, fun _ h => h ▸ List.suffix_rfl, nofun⟩, rfl⟩
  | cons part parts ih =>
    rcases findKey?_cases part offset cs with ⟨hnone, hno⟩ | ⟨place, rest, hsome, hfinds, hlength⟩
    · refine ⟨[], part :: parts, cs, rfl, ⟨rfl, fun _ h => h ▸ List.suffix_rfl, ?_⟩, ?_⟩
      · rintro _ ⟨⟩ rest ⟨mid, hoccurs, -⟩
        exact hno mid hoccurs
      · rw [findKeys_of_none hnone]
    · obtain ⟨found, missing, rest', rfl, hleads, hlength'⟩ := ih place rest
      refine ⟨part :: found, missing, rest', rfl, hleads.cons hfinds, ?_⟩
      rw [findKeys_of_some hsome]
      exact hlength'.trans hlength

/-! ## The line of a dotted key -/

variable {key : String}

/-- The parts of a dotted key. -/
def partsOf (key : String) : List (List Char) := key.toList.splitOn '.'

theorem keyLine_eq_count (cs : List Char) (key : String) : keyLine (.ofText cs) cs key =
    1 + (cs.take (findKeys 0 cs (partsOf key))).count '\n' := by
  unfold keyLine
  dsimp only
  rw [show key.toList.splitOn '.' = partsOf key from rfl, LineTable.lineAt_ofText]
  split
  · rename_i hzero
    rw [hzero]
    rfl
  · rfl

/-- **The line of a dotted key** is that of the place where the search for its parts leads. -/
theorem keyLine_eq (cs : List Char) (key : String) :
    ∃ found missing rest, partsOf key = found ++ missing ∧ Leads found missing cs rest ∧
      keyLine (.ofText cs) cs key = lineOf cs rest := by
  obtain ⟨found, missing, rest, hparts, hleads, hlength⟩ := exists_leads 0 cs (partsOf key)
  refine ⟨found, missing, rest, hparts, hleads, ?_⟩
  have hoffset : findKeys 0 cs (partsOf key) = cs.length - rest.length := by omega
  rw [keyLine_eq_count, hoffset, lineOf]

/-- Where all parts stand one after another, the line is that of the first place behind them. -/
theorem exists_keyLine_eq (h : InOrder (partsOf key) cs rest) :
    ∃ first, InOrder (partsOf key) cs first ∧
      (∀ rest', InOrder (partsOf key) cs rest' → rest' <:+ first) ∧
      keyLine (.ofText cs) cs key = lineOf cs first := by
  obtain ⟨found, missing, first, hparts, hleads, hline⟩ := keyLine_eq cs key
  cases missing with
  | nil =>
    rw [List.append_nil] at hparts
    rw [hparts]
    exact ⟨first, hleads.inOrder, hleads.first, hline⟩
  | cons part missing =>
    rw [hparts, List.append_cons] at h
    obtain ⟨mid, hmore, -⟩ := inOrder_append_iff.1 h
    exact absurd hmore (hleads.most part rfl mid)

/-- The line is not below a place behind all parts, and it is above one just if the parts already
stand one after another on the lines above. -/
theorem keyLine_le_and_eq_iff (h : InOrder (partsOf key) cs rest) :
    keyLine (.ofText cs) cs key ≤ lineOf cs rest ∧
      (keyLine (.ofText cs) cs key = lineOf cs rest ↔
        ¬ ∃ rest', InOrder (partsOf key) cs rest' ∧ lineOf cs rest' < lineOf cs rest) := by
  obtain ⟨first, hinOrder, hfirst, hline⟩ := exists_keyLine_eq h
  have hle : ∀ rest', InOrder (partsOf key) cs rest' → lineOf cs first ≤ lineOf cs rest' :=
    fun rest' hrest' => Text.lineOf_le_of_suffix hinOrder.suffix (hfirst rest' hrest')
  rw [hline]
  refine ⟨hle rest h, fun heq => ?_, fun hnone => ?_⟩
  · rintro ⟨rest', hrest', hlt⟩
    have := hle rest' hrest'
    omega
  · by_contra hne
    exact hnone ⟨first, hinOrder, Nat.lt_of_le_of_ne (hle rest h) hne⟩

end Phrasebook.LocaleFile
