import Phrasebook.Proofs.LocaleFile.LineOffsets

/-!
# The search for a key by byte offsets

The search for the parts of a dotted key with offsets in bytes: it takes slices of the text, and
goes on one byte behind a quote that is of no key (`findPart`, `findParts`). A slice that does not
begin at a boundary of characters in the text is an error, which ends the search. Every other step
looks at a greater offset, so that a search always ends.

No search takes such a slice. The offsets that it comes to are the greedy chain of the parts: each
is the end of the first place, from the offset before it on, where the part stands between quotes
with a colon behind it, and the chain goes on as long as there is such a place (`GreedyChain`). The
line of a key is that of the last offset in the chain, and it is the line that the search through
the characters finds too (`keyLine_greedy`).
-/

namespace Phrasebook.LocaleFile

open String (utf8Len utf8Len_append)
open Text (BadSlice StandsFirst sliceFrom sliceFrom_of_append offsetOf? offsetOf?_cases
  lineFeedsBefore)

variable {content remaining here behind : String} {part pattern pre cs rest rest' : List Char}
  {parts : List (List Char)} {pos found start place : Nat} {ends ends' : List Nat}

/-! ## The search -/

/-- The end of the first place from an offset on where a pattern stands with a colon behind it. -/
def findPart (pattern : List Char) (remaining : String) (pos : Nat) :
    Except BadSlice (Option Nat) :=
  match _hslice : sliceFrom remaining pos with
  | .error e => .error e
  | .ok here =>
    match offsetOf? pattern here.toList with
    | none => .ok none
    | some found =>
      match sliceFrom remaining (pos + found + utf8Len pattern) with
      | .error e => .error e
      | .ok behind =>
        if colonFollows behind.toList then .ok (some (pos + found + utf8Len pattern))
        else findPart pattern remaining (pos + found + 1)
  termination_by remaining.utf8ByteSize + 1 - pos
  decreasing_by
    have hle := Text.le_of_sliceFrom _hslice
    omega

/-- The end of the last part that is found when each part is searched behind the one before. -/
def findParts (content : String) (start : Nat) : List (List Char) → Except BadSlice Nat
  | [] => .ok start
  | part :: parts => do
    let remaining ← sliceFrom content start
    match ← findPart (between part) remaining 0 with
    | none => return start
    | some stop => findParts content (start + stop) parts

/-- The line of a dotted key by the byte offset at which the search for its parts ends. -/
def lineBySlices (content key : String) : Except BadSlice Nat := do
  let start ← findParts content 0 (partsOf key)
  return if 0 < start then lineAtOffset (lineOffsets content) start else 1

/-! ## One part -/

theorem findPart_of_none (hslice : sliceFrom remaining pos = .ok here)
    (hfound : offsetOf? pattern here.toList = none) :
    findPart pattern remaining pos = .ok none := by
  rw [findPart]
  split
  · rename_i hslice'
    cases hslice'.symm.trans hslice
  · rename_i hslice'
    cases hslice'.symm.trans hslice
    rw [hfound]

theorem findPart_of_some (hslice : sliceFrom remaining pos = .ok here)
    (hfound : offsetOf? pattern here.toList = some found)
    (hbehind : sliceFrom remaining (pos + found + utf8Len pattern) = .ok behind) :
    findPart pattern remaining pos =
      if colonFollows behind.toList then .ok (some (pos + found + utf8Len pattern))
      else findPart pattern remaining (pos + found + 1) := by
  rw [findPart]
  split
  · rename_i hslice'
    cases hslice'.symm.trans hslice
  · rename_i hslice'
    cases hslice'.symm.trans hslice
    rw [hfound]
    dsimp only
    rw [hbehind]

theorem between_append (part rest : List Char) :
    between part ++ rest = '\x22' :: (part ++ '\x22' :: rest) := by
  rw [between, List.append_assoc, List.cons_append, List.singleton_append]

/-- The first quotes with a colon behind them are the first place of the part. -/
theorem finds_of_standsFirst {gap : List Char} (h : StandsFirst (between part) cs gap rest)
    (hcolon : colonFollows rest = true) : Finds part cs rest := by
  refine ⟨⟨gap, h.text_eq, hcolon⟩, ?_⟩
  rintro rest' ⟨gap', heq, -⟩
  obtain ⟨more, rfl⟩ := h.first gap' rest' heq
  have hrest : rest <:+ cs := h.text_eq ▸ List.suffix_append _ _
  have hrest' : rest' <:+ cs := heq ▸ List.suffix_append _ _
  refine List.suffix_of_suffix_length_le hrest' hrest ?_
  have hlength := congrArg List.length (h.text_eq.symm.trans heq)
  simp only [List.length_append] at hlength
  omega

/-- Where the first quotes have no colon behind them, nothing is missed if the search goes on behind
the first of them. -/
theorem occurs_behind_quote {gap : List Char} (h : StandsFirst (between part) cs gap rest)
    (hcolon : ¬ colonFollows rest = true) (hoccurs : Occurs part cs rest') :
    Occurs part (part ++ '\x22' :: rest) rest' := by
  obtain ⟨gap', heq, hcolon'⟩ := hoccurs
  obtain ⟨more, rfl⟩ := h.first gap' rest' heq
  rw [h.text_eq, List.append_assoc, List.append_assoc, List.append_assoc,
    List.append_cancel_left_eq] at heq
  cases more with
  | nil =>
    rw [List.nil_append, List.append_cancel_left_eq] at heq
    exact absurd (heq ▸ hcolon') hcolon
  | cons c more =>
    rw [between_append, List.cons_append] at heq
    refine ⟨more, ?_, hcolon'⟩
    rw [(List.cons.inj heq).2, List.append_assoc]

/-- **The search for a part** takes no bad slice, and what it finds is the first place at which the
part stands, if there is one. -/
theorem findPart_cases (part pre here : List Char) (h : remaining.toList = pre ++ here) :
    (findPart (between part) remaining (utf8Len pre) = .ok none ∧ ∀ rest, ¬ Occurs part here rest) ∨
      ∃ mid rest, here = mid ++ rest ∧ Finds part here rest ∧
        findPart (between part) remaining (utf8Len pre) = .ok (some (utf8Len (pre ++ mid))) := by
  -- The induction is on what is left of the text; what was passed over is in `pre`.
  induction hlength : here.length using Nat.strong_induction_on generalizing pre here with
  | _ n ih =>
  have hslice := sliceFrom_of_append h
  rcases offsetOf?_cases (between part) here with ⟨hnone, hno⟩ | ⟨gap, rest, hsome, hfirst⟩
  · exact .inl ⟨findPart_of_none hslice (by rw [String.toList_ofList, hnone]),
      fun rest ⟨gap, heq, _⟩ => hno gap rest heq⟩
  · have hbehind : sliceFrom remaining (utf8Len pre + utf8Len gap + utf8Len (between part)) =
        .ok (.ofList rest) := by
      rw [← utf8Len_append, ← utf8Len_append]
      exact sliceFrom_of_append (by rw [h, hfirst.text_eq]; simp only [List.append_assoc])
    have hstep := findPart_of_some hslice (by rw [String.toList_ofList, hsome]) hbehind
    rw [String.toList_ofList] at hstep
    by_cases hcolon : colonFollows rest = true
    · refine .inr ⟨gap ++ between part, rest, hfirst.text_eq, finds_of_standsFirst hfirst hcolon, ?_⟩
      rw [hstep, if_pos hcolon, utf8Len_append, utf8Len_append, Nat.add_assoc]
    · have hhere : here = (gap ++ ['\x22']) ++ (part ++ '\x22' :: rest) := by
        rw [hfirst.text_eq, List.append_assoc, between_append, List.append_assoc,
          List.singleton_append]
      -- A quote has one byte, so the next offset is at a boundary again.
      have hnext : utf8Len pre + utf8Len gap + 1 = utf8Len (pre ++ (gap ++ ['\x22'])) := by
        rw [utf8Len_append, utf8Len_append, Nat.add_assoc]
        rfl
      have hshorter : (part ++ '\x22' :: rest).length < n := by
        rw [← hlength, hhere, List.append_assoc, List.singleton_append]
        simp only [List.length_append, List.length_cons]
        omega
      rw [hstep, if_neg hcolon, hnext]
      rcases ih _ hshorter (pre ++ (gap ++ ['\x22'])) _
        (by rw [h, hhere, ← List.append_assoc]) rfl with ⟨hend, hno⟩ | ⟨mid, rest', hmid, hfinds, hend⟩
      · exact .inl ⟨hend, fun rest' hoccurs => hno rest' (occurs_behind_quote hfirst hcolon hoccurs)⟩
      · refine .inr ⟨gap ++ ['\x22'] ++ mid, rest', ?_, ⟨?_, fun rest'' hoccurs => ?_⟩, ?_⟩
        · rw [hhere, hmid, ← List.append_assoc]
        · rw [hhere]
          exact hfinds.occurs.append _
        · exact hfinds.first rest'' (occurs_behind_quote hfirst hcolon hoccurs)
        · rw [hend, List.append_assoc, List.append_assoc]

/-! ## The greedy chain -/

/-- The part stands in the text from a byte offset on, between quotes and with a colon behind it. -/
def StandsAt (part cs : List Char) (place : Nat) : Prop :=
  ∃ pre rest, cs = pre ++ between part ++ rest ∧ colonFollows rest = true ∧ utf8Len pre = place

/-- The place is the first one from an offset on at which the part stands. -/
structure IsFirstFrom (part cs : List Char) (start place : Nat) : Prop where
  start_le : start ≤ place
  stands : StandsAt part cs place
  le_of_stands : ∀ other, start ≤ other → StandsAt part cs other → place ≤ other

/-- The ends of the first parts of a key in a text, each part at the first place from the end of the
one before on, up to a part that stands nowhere from there on. -/
inductive GreedyChain (cs : List Char) : Nat → List (List Char) → List Nat → Prop where
  | all {start : Nat} : GreedyChain cs start [] []
  | missing {start : Nat} {part : List Char} {parts : List (List Char)}
      (h : ∀ place, start ≤ place → ¬ StandsAt part cs place) :
      GreedyChain cs start (part :: parts) []
  | found {start place : Nat} {part : List Char} {parts : List (List Char)} {ends : List Nat}
      (h : IsFirstFrom part cs start place)
      (more : GreedyChain cs (place + utf8Len (between part)) parts ends) :
      GreedyChain cs start (part :: parts) ((place + utf8Len (between part)) :: ends)

/-- A text has one chain only. -/
theorem GreedyChain.unique (h : GreedyChain cs start parts ends)
    (h' : GreedyChain cs start parts ends') : ends' = ends := by
  induction h generalizing ends' with
  | all => cases h'; rfl
  | missing hmissing =>
    cases h' with
    | missing => rfl
    | found hfirst => exact absurd hfirst.stands (hmissing _ hfirst.start_le)
  | found hfirst _ ih =>
    cases h' with
    | missing hmissing => exact absurd hfirst.stands (hmissing _ hfirst.start_le)
    | @found _ place' _ _ _ hfirst' hmore' =>
      obtain rfl : place' = _ :=
        Nat.le_antisymm (hfirst'.le_of_stands _ hfirst.start_le hfirst.stands)
          (hfirst.le_of_stands _ hfirst'.start_le hfirst'.stands)
      rw [ih hmore']

/-- Every offset in the chain is a boundary of characters in the text. -/
theorem GreedyChain.isValid (h : GreedyChain content.toList start parts ends) :
    ∀ stop ∈ ends, (⟨stop⟩ : String.Pos.Raw).IsValid content := by
  induction h with
  | all => exact nofun
  | missing => exact nofun
  | found hfirst _ ih =>
    obtain ⟨pre, rest, hcontent, -, rfl⟩ := hfirst.stands
    intro stop hstop
    rcases List.mem_cons.1 hstop with rfl | hstop
    · exact Text.isValid_iff_exists_toList.2 ⟨_, rest, hcontent, utf8Len_append _ _⟩
    · exact ih stop hstop

/-- A place behind the beginning of a text is a place in what is left of it. -/
theorem exists_occurs_of_standsAt (hstart : utf8Len pre ≤ place)
    (h : StandsAt part (pre ++ cs) place) : ∃ gap rest, cs = gap ++ between part ++ rest ∧
      colonFollows rest = true ∧ place = utf8Len (pre ++ gap) := by
  obtain ⟨pre', rest, heq, hcolon, rfl⟩ := h
  rw [List.append_assoc] at heq
  obtain ⟨gap, rfl⟩ := Text.prefix_of_utf8Len_le heq hstart
  refine ⟨gap, rest, ?_, hcolon, rfl⟩
  rwa [List.append_assoc, List.append_cancel_left_eq, ← List.append_assoc] at heq

/-- What the search for a part finds is the first place from where it begins on. -/
theorem isFirstFrom_of_finds (pre : List Char) {mid : List Char} (hcs : cs = mid ++ rest)
    (h : Finds part cs rest) :
    ∃ place, IsFirstFrom part (pre ++ cs) (utf8Len pre) place ∧
      place + utf8Len (between part) = utf8Len (pre ++ mid) := by
  obtain ⟨gap, heq, hcolon⟩ := h.occurs
  obtain rfl : mid = gap ++ between part := List.append_cancel_right (hcs.symm.trans heq)
  refine ⟨utf8Len (pre ++ gap), ⟨?_, ⟨pre ++ gap, rest, ?_, hcolon, rfl⟩, fun other hle hother => ?_⟩,
    ?_⟩
  · rw [utf8Len_append]
    exact Nat.le_add_right _ _
  · rw [heq]
    simp only [List.append_assoc]
  · obtain ⟨gap', rest', heq', hcolon', rfl⟩ := exists_occurs_of_standsAt hle hother
    -- The other place leaves less of the text, so what stands before this one stands before it too.
    have hsuffix := (h.first rest' ⟨gap', heq', hcolon'⟩).length_le
    have hlength := congrArg List.length (heq.symm.trans heq')
    simp only [List.length_append] at hlength
    have hgap : gap <+: cs := ⟨between part ++ rest, by rw [heq, List.append_assoc]⟩
    have hgap' : gap' <+: cs := ⟨between part ++ rest', by rw [heq', List.append_assoc]⟩
    have hprefix : gap <+: gap' := List.prefix_of_prefix_length_le hgap hgap' (by omega)
    rw [utf8Len_append, utf8Len_append]
    exact Nat.add_le_add_left (String.utf8Len_le_of_prefix hprefix) _
  · rw [← List.append_assoc, utf8Len_append (pre ++ gap)]

/-! ## All parts -/

theorem Finds.unique (h : Finds part cs rest) (h' : Finds part cs rest') : rest' = rest :=
  (h.first rest' h'.occurs).eq_of_length_le (h'.first rest h.occurs).length_le

theorem findKey?_of_not_occurs (offset : Nat) (h : ∀ rest, ¬ Occurs part cs rest) :
    findKey? (between part) offset cs = none := by
  rcases findKey?_cases part offset cs with ⟨hnone, -⟩ | ⟨_, rest, -, hfinds, -⟩
  · exact hnone
  · exact absurd hfinds.occurs (h rest)

theorem findKey?_of_finds {mid : List Char} (offset : Nat) (hcs : cs = mid ++ rest)
    (h : Finds part cs rest) :
    findKey? (between part) offset cs = some (offset + mid.length, rest) := by
  rcases findKey?_cases part offset cs with ⟨-, hno⟩ | ⟨found, rest', hsome, hfinds, hlength⟩
  · exact absurd h.occurs (hno rest)
  · obtain rfl := h.unique hfinds
    have hfound : found = offset + mid.length := by
      rw [hcs, List.length_append] at hlength
      omega
    rw [hsome, hfound]

theorem findParts_of_none (hslice : sliceFrom content start = .ok remaining)
    (hend : findPart (between part) remaining 0 = .ok none) :
    findParts content start (part :: parts) = .ok start := by
  rw [findParts, hslice]
  show (findPart (between part) remaining 0 >>= _) = _
  rw [hend]
  rfl

theorem findParts_of_some {stop : Nat} (hslice : sliceFrom content start = .ok remaining)
    (hend : findPart (between part) remaining 0 = .ok (some stop)) :
    findParts content start (part :: parts) = findParts content (start + stop) parts := by
  rw [findParts, hslice]
  show (findPart (between part) remaining 0 >>= _) = _
  rw [hend]
  rfl

/-- **The search for parts** takes no bad slice. It ends where the search through the characters
ends, and that is the end of the greedy chain. -/
theorem exists_greedyChain (parts : List (List Char)) (pre cs : List Char)
    (h : content.toList = pre ++ cs) : ∃ ends pre' rest, content.toList = pre' ++ rest ∧
      GreedyChain content.toList (utf8Len pre) parts ends ∧
      ends.getLastD (utf8Len pre) = utf8Len pre' ∧
      findParts content (utf8Len pre) parts = .ok (utf8Len pre') ∧
      findKeys pre.length cs parts = pre'.length := by
  induction parts generalizing pre cs with
  | nil => exact ⟨[], pre, cs, h, .all, rfl, rfl, rfl⟩
  | cons part parts ih =>
    have hslice := sliceFrom_of_append h
    have hremaining : (String.ofList cs).toList = [] ++ cs := String.toList_ofList
    rcases findPart_cases part [] cs hremaining with ⟨hend, hno⟩ | ⟨mid, rest, hcs, hfinds, hend⟩
    · refine ⟨[], pre, cs, h, .missing fun place hle hplace => ?_, rfl, ?_, ?_⟩
      · rw [h] at hplace
        obtain ⟨gap, rest, heq, hcolon, -⟩ := exists_occurs_of_standsAt hle hplace
        exact hno rest ⟨gap, heq, hcolon⟩
      · exact findParts_of_none hslice hend
      · exact findKeys_of_none (findKey?_of_not_occurs _ hno)
    · have hnext : content.toList = (pre ++ mid) ++ rest := by rw [h, hcs, List.append_assoc]
      obtain ⟨place, hfirst, hplace⟩ := isFirstFrom_of_finds pre hcs hfinds
      obtain ⟨ends, pre', rest', hcontent, hchain, hlast, hslices, hkeys⟩ := ih _ _ hnext
      rw [← h] at hfirst
      rw [← hplace] at hchain
      refine ⟨_, pre', rest', hcontent, .found hfirst hchain, ?_, ?_, ?_⟩
      · rw [List.getLastD_cons, hplace, hlast]
      · rw [List.nil_append] at hend
        rw [findParts_of_some hslice hend, ← utf8Len_append, hslices]
      · rw [findKeys_of_some (findKey?_of_finds _ hcs hfinds), ← List.length_append, hkeys]

/-! ## The line of a dotted key -/

/-- **The line of a dotted key by byte offsets.** Each slice that the search takes is at a boundary
of characters in the text, and the search ends, with the line that is taken for the key. That is the
line of the end of the greedy chain of the key's parts, which is the only one: the first line if the
chain is empty, and else one more than there are line feeds before the last offset in it. So it is a
line of the text. The line of any offset is found like that, in bytes and in characters. -/
theorem keyLine_greedy (content key : String) :
    ∃ line ends, lineBySlices content key = .ok line ∧
      keyLine (.ofText content.toList) content.toList key = line ∧
      (∀ ends', GreedyChain content.toList 0 (partsOf key) ends' ↔ ends' = ends) ∧
      (∀ stop ∈ ends, (⟨stop⟩ : String.Pos.Raw).IsValid content) ∧
      (ends = [] → line = 1) ∧
      (∀ stop ∈ ends.getLast?, line = 1 + lineFeedsBefore content stop) ∧
      (1 ≤ line ∧ line ≤ 1 + content.toList.count '\n') ∧
      (∀ offset, lineAtOffset (lineOffsets content) offset = 1 + lineFeedsBefore content offset) ∧
      ∀ offset, (LineTable.ofText content.toList).lineAt offset =
        1 + (content.toList.take offset).count '\n' := by
  obtain ⟨ends, pre, rest, hcontent, hchain, hlast, hslices, hkeys⟩ :=
    exists_greedyChain (partsOf key) [] content.toList rfl
  have hfeeds : lineFeedsBefore content (utf8Len pre) = pre.count '\n' :=
    Text.lineFeedsBefore_of_append hcontent
  refine ⟨1 + pre.count '\n', ends, ?_, ?_, fun ends' => ⟨hchain.unique, fun heq => heq ▸ hchain⟩,
    hchain.isValid, ?_, ?_, ⟨Nat.le_add_right _ _, ?_⟩, lineAtOffset_lineOffsets content,
    LineTable.lineAt_ofText content.toList⟩
  · rw [lineBySlices, show findParts content 0 (partsOf key) = _ from hslices]
    show Except.ok _ = Except.ok _
    split_ifs with hpos
    · rw [lineAtOffset_lineOffsets, hfeeds]
    · rw [String.utf8Len_eq_zero.1 (Nat.eq_zero_of_not_pos hpos)]
      rfl
  · have hlength : findKeys 0 content.toList (partsOf key) = pre.length := hkeys
    rw [keyLine_eq_count, hlength, hcontent, List.take_left' rfl]
  · rintro rfl
    rw [String.utf8Len_eq_zero.1 (show utf8Len pre = 0 from hlast.symm)]
    rfl
  · intro stop hstop
    rw [List.getLastD_eq_getLast?, hstop] at hlast
    rw [show stop = utf8Len pre from hlast, hfeeds]
  · rw [hcontent, List.count_append]
    omega

/-- The first quotes are followed by a character of two bytes, and the quote that closes them opens
those of the key. -/
example : lineBySlices "é\n\"ü\"ü\" : 1,\n\"x\": 2" "ü.x" = .ok 3 := by decide +kernel

end Phrasebook.LocaleFile
