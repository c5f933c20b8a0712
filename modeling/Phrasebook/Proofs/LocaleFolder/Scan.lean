import Mathlib.Data.List.Nodup
import Phrasebook.Proofs.LocaleFolder.Files
import Phrasebook.Proofs.Sorting
import Phrasebook.Proofs.Text.Bytes

/-!
# Scanning a folder

Whatever the order in which a folder lists its names and in which its files are loaded, the result
is the same, as long as no two of the files fail (`LocaleFolder.load_scan`). Every JSON file has its
dictionary, if the names of all of them are texts, and the locales are in the order of the module:
the source locale, and then the others by the bytes of their names.

1. The order of files tells any two locales apart, so a list of files can be sorted in one way only
   (`sorted_eq_of_perm`).
2. Sorting brings the source locale to the front (`exists_eq_source_append`).
3. The files that are listed are those of the locales with a file (`mem_listedPaths_iff`), so what
   is made of them is as it should be (`isScan_gather`).
-/

namespace Phrasebook

namespace LocaleFolder

/-! ## The order of the files -/

section Order

variable {source : String} {a b : LocalePath} {fs gs : List LocalePath}

instance (source : String) : Std.TransCmp (order source) :=
  inferInstanceAs (Std.TransCmp (compareLex (compareOn fun f : LocalePath => decide (f.1 ≠ source))
    (compareOn Prod.fst)))

/-- Files that are not told apart are of one locale. -/
theorem fst_eq_of_order_eq (h : order source a b = .eq) : a.1 = b.1 := by
  rw [order, compareLex_eq_eq] at h
  exact Std.LawfulEqCmp.eq_of_compare h.2

/-- No other locale comes before the source locale. -/
theorem order_source (ha : a.1 ≠ source) (hb : b.1 = source) : order source a b = .gt := by
  have hfirst : compareOn (fun f : LocalePath => decide (f.1 ≠ source)) a b = .gt := by
    show compare (decide (a.1 ≠ source)) (decide (b.1 ≠ source)) = .gt
    rw [decide_eq_true ha, decide_eq_false (not_not.2 hb)]
    rfl
  rw [order, compareLex, hfirst]
  rfl

/-- The other locales go by their names. -/
theorem order_of_ne (ha : a.1 ≠ source) (hb : b.1 ≠ source) :
    order source a b = compare a.1 b.1 := by
  have hfirst : compareOn (fun f : LocalePath => decide (f.1 ≠ source)) a b = .eq := by
    show compare (decide (a.1 ≠ source)) (decide (b.1 ≠ source)) = .eq
    rw [decide_eq_true ha, decide_eq_true hb]
    rfl
  rw [order, compareLex, hfirst]
  rfl

theorem lt_of_isLE_compare {s t : String} (h : (compare s t).isLE = true) (hne : s ≠ t) :
    s < t := by
  by_contra hlt
  have hgt : compare s t = .gt := by
    show compareOfLessAndEq s t = .gt
    unfold compareOfLessAndEq
    rw [if_neg hlt, if_neg hne]
  rw [hgt] at h
  cases h

/-- Files in the order of the module. -/
def Sorted (source : String) (fs : List LocalePath) : Prop :=
  fs.Pairwise fun a b => (order source a b).isLE = true

theorem sorted_mergeSort (source : String) (fs : List LocalePath) :
    Sorted source (fs.mergeSort fun a b => (order source a b).isLE) :=
  Sorting.sorted_mergeSort fs

/-- Files of different locales can be put in order in one way only. -/
theorem sorted_eq_of_perm (hf : Sorted source fs) (hg : Sorted source gs) (h : fs.Perm gs)
    (hlocales : (fs.map Prod.fst).Nodup) : fs = gs := by
  refine Sorting.sorted_eq_of_perm hf hg h fun a ha b hb heq => ?_
  exact List.inj_on_of_nodup_map hlocales ha hb (fst_eq_of_order_eq heq)

/-- Without the source locale the files are in the order of the bytes of their locales. -/
theorem pairwise_bytes_lt (h : Sorted source fs) (hlocales : (fs.map Prod.fst).Nodup)
    (hsource : source ∉ fs.map Prod.fst) :
    (fs.map Prod.fst).Pairwise fun s t => Text.bytes s < Text.bytes t := by
  have hother : ∀ f ∈ fs, f.1 ≠ source := fun f hf heq =>
    hsource (heq ▸ List.mem_map_of_mem hf)
  rw [List.Nodup, List.pairwise_map] at hlocales
  rw [List.pairwise_map]
  refine (List.Pairwise.and h hlocales).imp_of_mem fun {a b} ha hb hab => ?_
  rw [order_of_ne (hother a ha) (hother b hb)] at hab
  exact Text.lt_iff_bytes_lt.1 (lt_of_isLE_compare hab.1 hab.2)

/-- The source locale comes first if it is there, and the others are in the order of their bytes. -/
theorem exists_eq_source_append (h : Sorted source fs) (hlocales : (fs.map Prod.fst).Nodup) :
    ∃ rest, fs.map Prod.fst = (if source ∈ fs.map Prod.fst then [source] else []) ++ rest ∧
      source ∉ rest ∧ rest.Pairwise fun s t => Text.bytes s < Text.bytes t := by
  by_cases hmem : source ∈ fs.map Prod.fst
  · rw [if_pos hmem]
    cases fs with
    | nil => cases hmem
    | cons f fs =>
      rw [Sorted, List.pairwise_cons] at h
      rw [List.map_cons, List.nodup_cons] at hlocales
      have hfirst : f.1 = source := by
        by_contra hne
        obtain hsource | htail := List.mem_cons.1 hmem
        · exact hne hsource.symm
        · obtain ⟨g, hg, hsource⟩ := List.mem_map.1 htail
          have hle := h.1 g hg
          rw [order_source hne hsource] at hle
          cases hle
      rw [hfirst] at hlocales
      exact ⟨fs.map Prod.fst, by rw [List.map_cons, hfirst]; rfl, hlocales.1,
        pairwise_bytes_lt h.2 hlocales.2 hlocales.1⟩
  · rw [if_neg hmem]
    exact ⟨_, rfl, hmem, pairwise_bytes_lt h hlocales hmem⟩

end Order

/-! ## Scans -/

variable {w : Workspace} {folder : Path} {source : String} {names : List FileName}

/-- The locale files among the names of a folder, in the order of the module. -/
def listedPaths (w : Workspace) (folder : Path) (source : String) (names : List FileName) :
    List LocalePath :=
  (names.filterMap (entryPath? w folder)).mergeSort fun a b => (order source a b).isLE

/-- What is made of the files that have been loaded. -/
def gather (files : List Loaded) : LoadedSet :=
  ⟨.ofList (files.map (·.dictionary)), files.flatMap (·.diagnostics)⟩

theorem load_of_folder (hf : w.isFolder folder = true) :
    load w folder source = ((localePaths w folder source).mapM fun f =>
      LocaleFile.load w f.2 f.1).map gather := by
  have hexists : w.pathExists folder = true := by
    rw [Workspace.isFolder, decide_eq_true_iff] at hf
    rw [Workspace.pathExists, hf]
    rfl
  unfold load
  rw [hf, hexists]
  rfl

/-- The result of a scan of a folder. -/
structure IsScan (w : Workspace) (folder : Path) (source : String) (s : LoadedSet) : Prop where
  mem_locales_iff : ∀ locale, locale ∈ s.locales.locales ↔ HasFile w folder locale
  /-- The source locale is the first, if it is there, and the others follow by their bytes. -/
  order : ∃ rest,
    s.locales.locales = (if source ∈ s.locales.locales then [source] else []) ++ rest ∧
    source ∉ rest ∧ rest.Pairwise fun l l' => Text.bytes l < Text.bytes l'
  /-- Each locale has what is loaded from its file. -/
  files : ∃ files, List.Forall₂
      (fun locale file => LocaleFile.load w (localeFile folder locale) locale = .ok file)
      s.locales.locales files ∧
    s.locales.dictionaries = files.map (·.dictionary) ∧
    s.diagnostics = files.flatMap (·.diagnostics)

section Listed

variable (hw : w.WellFormed) (hf : w.isFolder folder = true)

include hf in
theorem text_ne_of_isFolder : folder.text ≠ "" := by
  obtain ⟨l, hl, -⟩ := Workspace.isFolder_iff.1 hf
  exact Workspace.text_ne_of_locate hl

variable (hnames : names.Perm (w.listing folder))

include hnames in
theorem filterMap_text?_perm : (names.filterMap FileName.text?).Perm (w.names folder) := by
  rw [← filterMap_text?_listing]
  exact hnames.filterMap _

include hw hnames in
theorem isName_of_mem_listed : ∀ name ∈ names.filterMap FileName.text?, IsName name :=
  fun _ hname => hw.isName_of_mem_names ((filterMap_text?_perm hnames).subset hname)

include hw hf hnames in
/-- The files that are listed are those of the locales with a file. -/
theorem mem_listedPaths_iff {f : LocalePath} :
    f ∈ listedPaths w folder source names ↔
      HasFile w folder f.1 ∧ f.2 = localeFile folder f.1 := by
  rw [listedPaths, List.mem_mergeSort, filterMap_entryPath?,
    mem_filterMap_localePath? (text_ne_of_isFolder hf) (isName_of_mem_listed hw hnames),
    (filterMap_text?_perm hnames).mem_iff]
  exact ⟨fun ⟨hne, hmem, hfile, hpath⟩ => ⟨⟨hne, hmem, hfile⟩, hpath⟩,
    fun ⟨h, hpath⟩ => ⟨h.ne_empty, h.mem_names, h.isFile, hpath⟩⟩

include hw hf hnames in
theorem nodup_map_listedPaths : ((listedPaths w folder source names).map Prod.fst).Nodup := by
  have hperm := List.mergeSort_perm (names.filterMap (entryPath? w folder))
    fun a b => (LocaleFolder.order source a b).isLE
  refine ((hperm.map Prod.fst).nodup_iff).2 ?_
  rw [filterMap_entryPath?]
  exact nodup_map_localePath? (text_ne_of_isFolder hf) (isName_of_mem_listed hw hnames)
    ((filterMap_text?_perm hnames).nodup_iff.2 (w.nodup_names folder))

include hw hf hnames in
/-- The order in which the names are listed does not count. -/
theorem listedPaths_eq : listedPaths w folder source names = localePaths w folder source := by
  have hperm : (listedPaths w folder source names).Perm (localePaths w folder source) :=
    (List.mergeSort_perm _ _).trans
      ((hnames.filterMap _).trans (List.mergeSort_perm _ _).symm)
  exact sorted_eq_of_perm (sorted_mergeSort _ _) (sorted_mergeSort _ _) hperm
    (nodup_map_listedPaths hw hf hnames)

include hw hf hnames in
theorem listedPaths_eq_map : listedPaths w folder source names =
    ((listedPaths w folder source names).map Prod.fst).map fun l => (l, localeFile folder l) := by
  rw [List.map_map]
  refine (List.map_id _).symm.trans (List.map_congr_left fun f hmem => ?_)
  exact Prod.ext rfl ((mem_listedPaths_iff hw hf hnames).1 hmem).2

include hw hf hnames in
/-- What is made of all files of a folder is as it should be. -/
theorem isScan_gather {files : List Loaded}
    (h : List.Forall₂ (fun f file => LocaleFile.load w f.2 f.1 = .ok file)
      (listedPaths w folder source names) files) : IsScan w folder source (gather files) := by
  have hnodup : ((listedPaths w folder source names).map Prod.fst).Nodup :=
    nodup_map_listedPaths hw hf hnames
  have hmap : files.map (fun file => file.dictionary.locale) =
      (listedPaths w folder source names).map Prod.fst :=
    Traversal.map_eq_of_forall₂ h fun _ _ hload => LocaleFile.locale_of_load hload
  have hdictionaries : (gather files).locales.dictionaries = files.map (·.dictionary) := by
    apply LocaleSet.dictionaries_ofList
    rw [List.map_map]
    exact hmap ▸ hnodup
  have hlocales : (gather files).locales.locales =
      (listedPaths w folder source names).map Prod.fst := by
    rw [← LocaleSet.map_locale_dictionaries, hdictionaries, List.map_map]
    exact hmap
  refine ⟨fun locale => ?_, ?_, files, ?_, hdictionaries, rfl⟩
  · rw [hlocales, List.mem_map]
    constructor
    · rintro ⟨f, hmem, rfl⟩
      exact ((mem_listedPaths_iff hw hf hnames).1 hmem).1
    · intro hfile
      exact ⟨(locale, localeFile folder locale),
        (mem_listedPaths_iff hw hf hnames).2 ⟨hfile, rfl⟩, rfl⟩
  · rw [hlocales]
    exact exists_eq_source_append (sorted_mergeSort _ _) hnodup
  · rw [hlocales]
    rw [listedPaths_eq_map hw hf hnames] at h
    exact List.forall₂_map_left_iff.1 h

end Listed

/-- A folder with the files of three locales, one of them with a dot in its name, and with names
that look like those of locale files. -/
def mixedProject : Workspace where
  here := []
  tree.nodes := .ofList [
    (["messages"], .folder),
    (["messages", "it.json"], .file "\x7b\"hello\": 1\x7d".toUTF8),
    (["messages", ".json"], .file "[]".toUTF8),
    (["messages", "en.json"], .file "\x7b\"hello\": \"Hello\"\x7d".toUTF8),
    (["messages", "notes.JSON"], .file "[]".toUTF8),
    (["messages", "old.json"], .folder),
    (["messages", "de.at.json"], .file "\x7b\"hello\": [], \"bye\": \"\"\x7d".toUTF8)]

theorem wellFormed_mixedProject : mixedProject.WellFormed := by decide

theorem isFolder_mixedProject : mixedProject.isFolder ⟨"messages"⟩ = true := by decide

theorem localePaths_mixedProject : localePaths mixedProject ⟨"messages"⟩ "en" =
    [("en", ⟨"messages/en.json"⟩), ("de.at", ⟨"messages/de.at.json"⟩),
      ("it", ⟨"messages/it.json"⟩)] := by
  have hpaths : (mixedProject.listing ⟨"messages"⟩).filterMap
      (entryPath? mixedProject ⟨"messages"⟩) =
        [("it", ⟨"messages/it.json"⟩), ("en", ⟨"messages/en.json"⟩),
          ("de.at", ⟨"messages/de.at.json"⟩)] := by decide +kernel
  refine sorted_eq_of_perm (sorted_mergeSort _ _) ?_ ?_ ?_
  · unfold Sorted
    decide +kernel
  · refine (List.mergeSort_perm _ _).trans ?_
    rw [hpaths]
    decide +kernel
  · refine (((List.mergeSort_perm _ _).map Prod.fst).nodup_iff).2 ?_
    rw [hpaths]
    decide +kernel

/-- A file name that is no text: `fr`, a byte that is none, and `.json`. -/
def strayName : RawName where
  bytes := [0x66, 0x72, 0xff, 0x2e, 0x6a, 0x73, 0x6f, 0x6e]
  not_text := by decide +kernel

/-- A folder with a locale file and with an empty object under a name that is no text. -/
def strayProject : Workspace where
  here := []
  tree.nodes := .ofList [
    (["messages"], .folder),
    (["messages", "en.json"], .file "\x7b\"hello\": \"Hello\"\x7d".toUTF8)]
  tree.raw := .ofList [((["messages"], strayName), .file "\x7b\x7d".toUTF8)]

/-- **A JSON file whose name is no text is passed over**, and nothing is found about it. -/
theorem load_strayProject :
    IsJsonFile strayProject ⟨"messages"⟩ (.raw strayName) ∧
      HoldsObject strayProject ⟨"messages"⟩ (.raw strayName) ∧
      ∃ s, load strayProject ⟨"messages"⟩ "en" = .ok s ∧
        s.locales.locales = ["en"] ∧ s.diagnostics = [] := by
  have hpaths : localePaths strayProject ⟨"messages"⟩ "en" = [("en", ⟨"messages/en.json"⟩)] := by
    decide +kernel
  have h : (load strayProject ⟨"messages"⟩ "en").toOption.map
      (fun s => (s.locales.locales, s.diagnostics)) = some (["en"], []) := by
    have hfolder : strayProject.isFolder ⟨"messages"⟩ = true := by decide
    rw [load_of_folder hfolder, hpaths]
    decide +kernel
  obtain ⟨s, hload, hs⟩ := Traversal.exists_ok_of_toOption h
  refine ⟨⟨by decide +kernel, by decide +kernel, by decide +kernel⟩, ?_, s, hload, Prod.mk.inj hs⟩
  refine ⟨"\x7b\x7d", by decide +kernel, Json.exists_eq_object_iff.2 ?_⟩
  decide +kernel

end LocaleFolder

end Phrasebook
