import Phrasebook.Plural.Parser

/-!
# The branches of a plural message

A text is read as a plural message if it begins with the marker. A plural message that can be read
has branches, and each of them has a text.
-/

namespace Phrasebook.Plural

theorem isPlural_iff {text : String} :
    isPlural text = true ↔ marker.toList <+: text.toList := by
  rw [isPlural, afterMarker?, Option.isSome_iff_exists]
  constructor
  · rintro ⟨rest, h⟩
    exact ⟨rest, (Text.after?_eq_some_iff.1 h).symm⟩
  · rintro ⟨rest, h⟩
    exact ⟨rest, Text.after?_eq_some_iff.2 h.symm⟩

theorem text_ne_of_readItems {cs : List Char} {bs : List Branch} (h : readItems cs = .ok bs) :
    ∀ b ∈ bs, b.text ≠ "" := by
  fun_induction readItems cs generalizing bs with
  | case1 => cases h
  | case2 => cases h; exact fun b hb => absurd hb List.not_mem_nil
  | case3 => cases h
  | case4 cs c rest hb hc branch rest' hi ih =>
    cases hr : readItems rest' with
    | error e => rw [hr] at h; cases h
    | ok branches =>
      rw [hr] at h
      have hrest := ih hr
      cases h
      split
      · exact hrest
      · rename_i hne
        intro b hb
        rcases List.mem_cons.1 hb with rfl | hb
        · exact hne
        · exact hrest b hb

theorem text_ne_of_parse {text : String} {bs : List Branch} (h : parse text = .ok bs) :
    ∀ b ∈ bs, b.text ≠ "" := by
  unfold parse at h
  split at h
  · cases h
  · split at h
    · cases h
    · cases h
    · rename_i _ hr
      cases h
      exact text_ne_of_readItems hr

end Phrasebook.Plural
