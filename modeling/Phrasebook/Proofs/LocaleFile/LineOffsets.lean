import Phrasebook.Proofs.LocaleFile.KeyLine
import Phrasebook.Proofs.Text.Offsets

/-!
# The offsets of lines

The lines of a text by the byte offsets at which they begin. The line of any offset, inside of a
character or behind the end of the text too, is found by a binary search, in which a hit and a miss
are read differently (`lineOfSearch`): a hit is the beginning of the line, and before a miss stand
the beginnings up to the line. Either way its number is one more than there are line feeds before
the offset (`lineAtOffset_lineOffsets`).
-/

namespace Phrasebook.LocaleFile

open Text (charBytes lineFeedsBefore)

variable {xs : Array Nat} {x low high start offset place : Nat} {cs : List Char}

/-! ## Binary search -/

/-- Looks for a number between two indices of an ascending array: a hit is its index, and a miss the
index at which it would have to be inserted. -/
def binarySearch (xs : Array Nat) (x low high : Nat) (hhigh : high ≤ xs.size) : Except Nat Nat :=
  if h : low < high then
    let middle := (low + high) / 2
    have hmiddle : middle < high := by omega
    match compare xs[middle] x with
    | .lt => binarySearch xs x (middle + 1) high hhigh
    | .eq => .ok middle
    | .gt => binarySearch xs x low middle (by omega)
  else .error low
  termination_by high - low

/-- What is promised of the outcome of a binary search. -/
inductive Locates (xs : Array Nat) (x : Nat) : Except Nat Nat → Prop where
  | hit {i : Nat} (h : xs[i]? = some x) : Locates xs x (.ok i)
  | miss {i : Nat} (hsize : i ≤ xs.size) (hbefore : ∀ j (hj : j < xs.size), j < i → xs[j] < x)
      (hafter : ∀ j (hj : j < xs.size), i ≤ j → x < xs[j]) : Locates xs x (.error i)

theorem getElem_lt_of_pairwise (h : xs.toList.Pairwise (· < ·)) {i j : Nat} (hj : j < xs.size)
    (hij : i < j) : xs[i] < xs[j] :=
  List.pairwise_iff_getElem.1 h i j (Nat.lt_trans hij hj) hj hij

theorem locates_binarySearch (h : xs.toList.Pairwise (· < ·)) (hhigh : high ≤ xs.size)
    (hlow : low ≤ high) (hbefore : ∀ j (hj : j < xs.size), j < low → xs[j] < x)
    (hafter : ∀ j (hj : j < xs.size), high ≤ j → x < xs[j]) :
    Locates xs x (binarySearch xs x low high hhigh) := by
  fun_induction binarySearch xs x low high hhigh with
  | case1 low high hhigh hlt middle hmiddle hcompare ih =>
    have hless : xs[middle] < x := Nat.compare_eq_lt.1 hcompare
    refine ih (by omega) (fun j hj hjlow => ?_) hafter
    rcases Nat.lt_or_eq_of_le (Nat.le_of_lt_succ hjlow) with hjmiddle | rfl
    · exact Nat.lt_trans (getElem_lt_of_pairwise h (by omega) hjmiddle) hless
    · exact hless
  | case2 low high hhigh hlt middle hmiddle hcompare =>
    have heq : xs[middle] = x := Nat.compare_eq_eq.1 hcompare
    exact .hit (heq ▸ Array.getElem?_eq_getElem (by omega))
  | case3 low high hhigh hlt middle hmiddle hcompare ih =>
    have hgreater : x < xs[middle] := Nat.compare_eq_gt.1 hcompare
    refine ih (by omega) hbefore (fun j hj hjhigh => ?_)
    rcases Nat.lt_or_eq_of_le hjhigh with hjmiddle | rfl
    · exact Nat.lt_trans hgreater (getElem_lt_of_pairwise h hj hjmiddle)
    · exact hgreater
  | case4 low high hhigh hlt =>
    obtain rfl : low = high := by omega
    exact .miss hhigh hbefore hafter

/-- The line that the outcome of a search among the beginnings of lines stands for. -/
def lineOfSearch : Except Nat Nat → Nat
  | .ok i => i + 1
  | .error i => i

/-- For a hit and for a miss alike it is the number of lines that begin up to the offset. -/
theorem lineOfSearch_eq_countP (h : xs.toList.Pairwise (· < ·)) {found : Except Nat Nat}
    (hfound : Locates xs x found) : lineOfSearch found = xs.toList.countP (· ≤ x) := by
  have hcount : ∀ i (hi : i < xs.size), xs[i] ≤ x ↔ i < xs.toList.countP (· ≤ x) :=
    fun i hi => LineTable.getElem_le_iff h hi
  have hsize : xs.toList.countP (· ≤ x) ≤ xs.size := List.countP_le_length
  cases hfound with
  | @hit i hit =>
    obtain ⟨hi, heq⟩ := Array.getElem?_eq_some_iff.1 hit
    have hlt : i < xs.toList.countP (· ≤ x) := (hcount i hi).1 (Nat.le_of_eq heq)
    -- The next line begins after this one, so it does not begin up to the offset too.
    have hnext : ¬ i + 1 < xs.toList.countP (· ≤ x) := by
      intro hnext
      have hle := (hcount (i + 1) (by omega)).2 hnext
      have hless := getElem_lt_of_pairwise h (j := i + 1) (by omega) (Nat.lt_succ_self i)
      omega
    show i + 1 = _
    omega
  | @miss i hi hbefore hafter =>
    show i = _
    refine Nat.le_antisymm (Nat.not_lt.1 fun hlt => ?_) (Nat.not_lt.1 fun hlt => ?_)
    · have hle := (hcount _ (by omega)).1 (Nat.le_of_lt (hbefore _ (by omega) hlt))
      exact Nat.lt_irrefl _ hle
    · have hle := (hcount i (by omega)).2 hlt
      exact Nat.not_lt.2 hle (hafter i (by omega) (Nat.le_refl i))

/-! ## The beginnings of lines -/

/-- Characters with the byte offsets at which they begin. -/
def charOffsets (start : Nat) : List Char → List (Nat × Char)
  | [] => []
  | c :: cs => (start, c) :: charOffsets (start + c.utf8Size) cs

/-- The line that begins behind a character, if that is a line feed. -/
def lineBehind? : Nat × Char → Option Nat
  | (offset, c) => if c = '\n' then some (offset + 1) else none

/-- The byte offsets at which the lines of a text begin, the first of them at its beginning. -/
def lineOffsets (text : String) : Array Nat :=
  (0 :: (charOffsets 0 text.toList).filterMap lineBehind?).toArray

/-- The number of the line that a byte offset lies in, counted from one. -/
def lineAtOffset (lines : Array Nat) (offset : Nat) : Nat :=
  lineOfSearch (binarySearch lines offset 0 lines.size (Nat.le_refl _))

theorem lt_of_mem_filterMap_lineBehind?
    (h : place ∈ (charOffsets start cs).filterMap lineBehind?) : start < place := by
  induction cs generalizing start with
  | nil => cases h
  | cons c cs ih =>
    rw [charOffsets, List.filterMap_cons, lineBehind?] at h
    split_ifs at h with hc
    · rcases List.mem_cons.1 h with rfl | h
      · exact Nat.lt_succ_self start
      · exact Nat.lt_of_le_of_lt (Nat.le_add_right _ _) (ih h)
    · exact Nat.lt_of_le_of_lt (Nat.le_add_right _ _) (ih h)

theorem pairwise_filterMap_lineBehind? (start : Nat) (cs : List Char) :
    ((charOffsets start cs).filterMap lineBehind?).Pairwise (· < ·) := by
  induction cs generalizing start with
  | nil => exact List.Pairwise.nil
  | cons c cs ih =>
    rw [charOffsets, List.filterMap_cons, lineBehind?]
    split_ifs with hc
    · subst hc
      exact List.pairwise_cons.2 ⟨fun _ => lt_of_mem_filterMap_lineBehind?, ih _⟩
    · exact ih _

theorem pairwise_lineOffsets (text : String) : (lineOffsets text).toList.Pairwise (· < ·) :=
  List.pairwise_cons.2
    ⟨fun _ => lt_of_mem_filterMap_lineBehind?, pairwise_filterMap_lineBehind? 0 text.toList⟩

/-- The lines that begin up to some place are as many as the line feeds among the bytes before it,
even if the place is inside of a character. -/
theorem countP_filterMap_lineBehind? (start place : Nat) (cs : List Char) :
    ((charOffsets start cs).filterMap lineBehind?).countP (· ≤ place) =
      ((charBytes cs).take (place - start)).count 10 := by
  induction cs generalizing start with
  | nil => simp [charOffsets, charBytes]
  | cons c cs ih =>
    have hrest := ih (start + c.utf8Size)
    rw [← Nat.sub_sub] at hrest
    rw [charBytes, List.flatMap_cons, List.take_append, List.count_append, ← charBytes,
      String.length_utf8EncodeChar, ← hrest, charOffsets, List.filterMap_cons, lineBehind?]
    split_ifs with hc
    · subst hc
      have hfeed : ((String.utf8EncodeChar '\n').take (place - start)).count 10 =
          if start + 1 ≤ place then 1 else 0 := by
        rw [show String.utf8EncodeChar '\n' = [10] from rfl]
        cases hplace : place - start with
        | zero => rw [if_neg (by omega)]; rfl
        | succ n => rw [if_pos (by omega), List.take_succ_cons, List.take_nil]; rfl
      rw [hfeed, List.countP_cons, Nat.add_comm]
      simp only [decide_eq_true_eq]
    · have hnone : ((String.utf8EncodeChar c).take (place - start)).count 10 = 0 :=
        List.count_eq_zero_of_not_mem fun hmem =>
          Text.lineFeed_not_mem_encodeChar hc (List.mem_of_mem_take hmem)
      rw [hnone, Nat.zero_add]

/-- **The line of an offset** has as its number one more than there are line feeds before it. -/
theorem lineAtOffset_lineOffsets (text : String) (offset : Nat) :
    lineAtOffset (lineOffsets text) offset = 1 + lineFeedsBefore text offset := by
  have hascending := pairwise_lineOffsets text
  have hsearch : Locates (lineOffsets text) offset
      (binarySearch (lineOffsets text) offset 0 (lineOffsets text).size (Nat.le_refl _)) :=
    locates_binarySearch hascending _ (Nat.zero_le _) (fun j _ hj => absurd hj (Nat.not_lt_zero j))
      fun j hj hsize => absurd hj (Nat.not_lt.2 hsize)
  rw [lineAtOffset, lineOfSearch_eq_countP hascending hsearch, lineOffsets, List.countP_cons_of_pos
    (by simp), countP_filterMap_lineBehind?, Nat.sub_zero, lineFeedsBefore, Text.bytes_eq,
    Nat.add_comm]

/-- An offset inside of a character lies in the line of the character. -/
example : lineOffsets "é\nline\nß" = #[0, 3, 8] ∧
    [0, 1, 2, 3, 7, 8, 9, 20].map (lineAtOffset #[0, 3, 8]) = [1, 1, 1, 2, 2, 3, 3, 3] := by
  decide +kernel

end Phrasebook.LocaleFile
