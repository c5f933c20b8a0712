import Phrasebook.LocaleFolder
import Phrasebook.Proofs.Text.Runs
import Phrasebook.Proofs.Workspace

/-!
# The names in a folder

A name is split at its last dot, if something stands before it (`splitLast_append`). If the
extension of a name that is no text is a text, then what is left of the name is none
(`RawName.stem?_eq_none`). So a file is found among the names of a folder exactly if it is found
among those that are texts (`localePaths_eq_names`).
-/

namespace Phrasebook

/-! ## Names with an extension -/

namespace Path

variable {α : Type} [DecidableEq α] {dot : α} {name stem ext : List α}

theorem splitLast_append (hs : stem ≠ []) (he : dot ∉ ext) :
    splitLast dot (stem ++ dot :: ext) = (stem, some ext) := by
  have hbackwards : (stem ++ dot :: ext).reverse = ext.reverse ++ dot :: stem.reverse := by
    rw [List.reverse_append, List.reverse_cons, List.append_assoc]
    rfl
  have hrun : ∀ x ∈ ext.reverse, decide (x ≠ dot) = true := fun x hx =>
    decide_eq_true fun hdot => he (hdot ▸ List.mem_reverse.1 hx)
  have hdot : decide (dot ≠ dot) = false := decide_eq_false fun h => h rfl
  obtain ⟨x, xs, hstem⟩ := List.exists_cons_of_ne_nil (mt List.reverse_eq_nil_iff.1 hs)
  unfold splitLast
  dsimp only
  rw [hbackwards, Text.dropWhile_run hrun hdot, Text.takeWhile_run hrun hdot, hstem]
  dsimp only
  rw [← hstem, List.reverse_reverse, List.reverse_reverse]

/-- What has an extension is split at its last dot. -/
theorem exists_of_splitLast (h : (splitLast dot name).2 = some ext) :
    ∃ stem, stem ≠ [] ∧ name = stem ++ dot :: ext ∧ dot ∉ ext := by
  unfold splitLast at h
  dsimp only at h
  split at h
  · rename_i x y before hsplit
    obtain ⟨hname, hrun, hdot⟩ := Text.exists_run_of_dropWhile hsplit
    obtain rfl : x = dot := by simpa using hdot
    obtain rfl := Option.some.inj h
    refine ⟨(y :: before).reverse, ?_, ?_, ?_⟩
    · simp
    · have hforward := congrArg List.reverse hname
      rw [List.reverse_reverse, List.reverse_append, List.reverse_cons, List.append_assoc]
        at hforward
      exact hforward
    · intro hmem
      exact of_decide_eq_true (hrun _ (List.mem_reverse.1 hmem)) rfl
  · cases h

theorem splitExtension_eq (name : String) : splitExtension name =
    (String.ofList (splitLast '.' name.toList).1,
      (splitLast '.' name.toList).2.map String.ofList) := rfl

/-- Only names with something before the dot have the extension. -/
theorem splitExtension_eq_json_iff {name stem : String} :
    (splitExtension name).2 = some "json" ∧ (splitExtension name).1 = stem ↔
      stem ≠ "" ∧ name = stem ++ ".json" := by
  have hjson : '.' ∉ "json".toList := by decide
  rw [splitExtension_eq]
  constructor
  · rintro ⟨hext, rfl⟩
    obtain ⟨ext, hext, hjson⟩ := Option.map_eq_some_iff.1 hext
    obtain ⟨stem, hs, hname, hdot⟩ := exists_of_splitLast hext
    have hstem : (splitLast '.' name.toList).1 = stem := by rw [hname, splitLast_append hs hdot]
    rw [hstem]
    refine ⟨by simpa using hs, ?_⟩
    rw [← String.toList_inj, String.toList_append, String.toList_ofList, hname,
      show ext = "json".toList by rw [← hjson, String.toList_ofList]]
    rfl
  · rintro ⟨hs, rfl⟩
    have hname : (stem ++ ".json").toList = stem.toList ++ '.' :: "json".toList := by
      rw [String.toList_append]
      rfl
    rw [hname, splitLast_append (by simpa using hs) hjson]
    exact ⟨rfl, String.ofList_toList⟩

end Path

/-- What is left of a name that is no text is none either, if the extension is one. -/
theorem RawName.stem?_eq_none {name : RawName} {ext : String} (h : name.extension? = some ext) :
    name.stem? = none := by
  obtain ⟨bytes, hsplit, hext⟩ := Option.bind_eq_some_iff.1 h
  obtain ⟨stem, hs, hname, hdot⟩ := Path.exists_of_splitLast hsplit
  have hstem : (Path.splitLast 0x2e name.bytes).1 = stem := by
    rw [hname, Path.splitLast_append hs hdot]
  rw [Option.eq_none_iff_forall_not_mem]
  intro text htext
  rw [RawName.stem?, hstem, Option.mem_def, Workspace.fromUTF8?_eq_some_iff] at htext
  rw [Workspace.fromUTF8?_eq_some_iff] at hext
  -- The two texts and the dot between them would make a text of the name.
  have hbytes : name.bytes.toByteArray = (text ++ "." ++ ext).toUTF8 := by
    rw [hname, ← List.singleton_append, List.toByteArray_append, List.toByteArray_append, htext,
      hext, ← ByteArray.append_assoc]
    simp only [String.toUTF8_eq_toByteArray, String.toByteArray_append]
    rfl
  have hwhole := Workspace.fromUTF8?_eq_some_iff.2 hbytes
  rw [name.not_text] at hwhole
  cases hwhole

/-! ## Names of either kind -/

namespace FileName

/-- The name, if it is a text. -/
def text? : FileName → Option String
  | text name => some name
  | raw _ => none

def stem? : FileName → Option String
  | text name => some (Path.splitExtension name).1
  | raw name => name.stem?

def extension? : FileName → Option String
  | text name => (Path.splitExtension name).2
  | raw name => name.extension?

end FileName

namespace LocaleFolder

variable {w : Workspace} {folder : Path}

/-- **A file whose name is no text is that of no locale**, whatever its extension. -/
theorem entryPath?_raw (name : RawName) : entryPath? w folder (.raw name) = none := by
  unfold entryPath?
  dsimp only
  split
  · rename_i hfile
    rw [Bool.and_eq_true, decide_eq_true_iff] at hfile
    rw [RawName.stem?_eq_none hfile.2]
    rfl
  · rfl

theorem filterMap_entryPath? (names : List FileName) :
    names.filterMap (entryPath? w folder) =
      (names.filterMap FileName.text?).filterMap (localePath? w folder) := by
  rw [List.filterMap_filterMap]
  refine List.filterMap_congr fun name _ => ?_
  cases name with
  | text name => rfl
  | raw name => exact entryPath?_raw name

theorem filterMap_text?_listing : (w.listing folder).filterMap FileName.text? = w.names folder := by
  unfold Workspace.listing Workspace.names
  cases w.locate folder with
  | error e => rfl
  | ok l =>
    dsimp only
    rw [List.filterMap_append, List.filterMap_map, List.filterMap_map]
    have htexts : (w.tree.names l).filterMap (FileName.text? ∘ .text) = w.tree.names l :=
      List.filterMap_some
    have hraws : (w.tree.rawNames l).filterMap (FileName.text? ∘ .raw) = [] :=
      List.filterMap_eq_nil_iff.2 fun _ _ => rfl
    rw [htexts, hraws, List.append_nil]

/-- The locale files of a folder are those under its names that are texts. -/
theorem localePaths_eq_names (w : Workspace) (folder : Path) (source : String) :
    localePaths w folder source =
      ((w.names folder).filterMap (localePath? w folder)).mergeSort fun a b =>
        (order source a b).isLE := by
  rw [localePaths, filterMap_entryPath?, filterMap_text?_listing]

end LocaleFolder

end Phrasebook
