import Phrasebook.Proofs.Compilation.Subjects
import Phrasebook.Proofs.Diagnostic.Order
import Phrasebook.Proofs.LocaleFolder.Scan

/-!
# The report on a folder

The findings of a run are those in the locale files and those of the compilation. The order of a
report looks at the file, the line, the rule and the message only, and still no two of the findings
have the same place in it (`eq_of_order_eq`): the file tells the locale, since every locale has a
file of its own, and then the message tells what the finding is about. So the order in which the
findings come does not count (`report_eq_of_perm`).
-/

namespace Phrasebook.LocaleFolder

variable {w : Workspace} {folder : Path} {scanSource source : String} {loaded : LoadedSet}
  {c : Compilation} {a b : Diagnostic}

/-- Different locales have different files. -/
theorem localeFile_inj {l l' : String} (hw : w.WellFormed) (hb : folder.text ≠ "")
    (hl : HasFile w folder l) (hl' : HasFile w folder l')
    (h : (localeFile folder l).text = (localeFile folder l').text) : l = l' := by
  have hname := Path.fileName?_join hb (hw.isName_of_mem_names hl.mem_names)
  have hname' := Path.fileName?_join hb (hw.isName_of_mem_names hl'.mem_names)
  have hpath : localeFile folder l = localeFile folder l' := congrArg Path.mk h
  have hjson : some (l ++ ".json") = some (l' ++ ".json") := by
    rw [← hname, ← hname']
    exact congrArg Path.fileName? hpath
  exact (String.append_left_inj _).1 (Option.some.inj hjson)

/-- A folder that has been loaded has been scanned. -/
theorem isScan_of_load (hw : w.WellFormed) (h : load w folder scanSource = .ok loaded) :
    w.isFolder folder = true ∧ IsScan w folder scanSource loaded := by
  have hf : w.isFolder folder = true := Workspace.isFolder_iff.2 (exists_folder_of_load h)
  rw [load_of_folder hf] at h
  obtain ⟨files, hfiles, rfl⟩ := Traversal.exists_ok_of_map h
  have hlisted : listedPaths w folder scanSource (w.listing folder) =
      localePaths w folder scanSource := listedPaths_eq hw hf (List.Perm.refl _)
  refine ⟨hf, isScan_gather hw hf (List.Perm.refl _) ?_⟩
  rw [hlisted]
  exact Traversal.mapM_eq_ok_iff.1 hfiles

/-- Each locale has its dictionary from its own file. -/
theorem IsScan.isOfFile (h : IsScan w folder scanSource loaded) :
    ∀ d ∈ loaded.locales.dictionaries, d.IsOfFile (localeFile folder d.locale).text := by
  obtain ⟨files, hfiles, hdictionaries, -⟩ := h.files
  intro d hd
  rw [hdictionaries] at hd
  obtain ⟨file, hmem, rfl⟩ := List.mem_map.1 hd
  obtain ⟨locale, -, hload⟩ := Traversal.exists_left_of_forall₂ hfiles hmem
  rw [LocaleFile.locale_of_load hload]
  exact LocaleFile.isOfFile_of_load hload

/-- What is found in the files of a folder. -/
theorem IsScan.eq_of_mem_diagnostics (h : IsScan w folder scanSource loaded) :
    ∀ f ∈ loaded.diagnostics, ∃ locale ∈ loaded.locales.locales, ∃ key kind,
      f = .nonStringValue key locale kind
        (LocaleFile.positionInFile w (localeFile folder locale) key) := by
  obtain ⟨files, hfiles, -, hdiagnostics⟩ := h.files
  intro f hf
  rw [hdiagnostics] at hf
  obtain ⟨file, hmem, hf⟩ := List.mem_flatMap.1 hf
  obtain ⟨locale, hlocale, hload⟩ := Traversal.exists_left_of_forall₂ hfiles hmem
  exact ⟨locale, hlocale, LocaleFile.eq_of_mem_diagnostics hload f hf⟩

section Run

variable (hw : w.WellFormed) (hload : load w folder scanSource = .ok loaded)
  (hcompile : loaded.locales.compile source = .ok c)

include hw hload hcompile in
/-- A finding of a run can be made for the source locale, and is in the file of its locale. -/
theorem mem_findings (ha : a ∈ loaded.diagnostics ++ c.diagnostics) :
    a.MadeFor source ∧ HasFile w folder a.subject.2 ∧
      a.place.file? = some (localeFile folder a.subject.2).text := by
  obtain ⟨-, hscan⟩ := isScan_of_load hw hload
  rcases List.mem_append.1 ha with ha | ha
  · obtain ⟨locale, hlocale, key, kind, rfl⟩ := hscan.eq_of_mem_diagnostics a ha
    exact ⟨trivial, (hscan.mem_locales_iff locale).1 hlocale,
      congrArg some (LocaleFile.file_positionInFile _ _ _)⟩
  · obtain ⟨hmade, -, hlocale, hfile⟩ :=
      LocaleSet.exists_locale_of_mem (fun l => (localeFile folder l).text) hscan.isOfFile hcompile
        ha
    exact ⟨hmade, (hscan.mem_locales_iff _).1 hlocale, hfile⟩

include hw hload hcompile in
/-- **Findings that the order does not tell apart are the same.** -/
theorem eq_of_order_eq (ha : a ∈ loaded.diagnostics ++ c.diagnostics)
    (hb : b ∈ loaded.diagnostics ++ c.diagnostics) (h : Diagnostic.order a b = .eq) : a = b := by
  obtain ⟨hf, hscan⟩ := isScan_of_load hw hload
  obtain ⟨hmade, hlocale, hfile⟩ := mem_findings hw hload hcompile ha
  obtain ⟨hmade', hlocale', hfile'⟩ := mem_findings hw hload hcompile hb
  obtain ⟨hfiles, -, hrule, hmessage⟩ := Diagnostic.order_eq_eq_iff.1 h
  have hlocales : a.subject.2 = b.subject.2 := by
    rw [hfile, hfile'] at hfiles
    exact localeFile_inj hw (text_ne_of_isFolder hf) hlocale hlocale' (Option.some.inj hfiles)
  have hcompiled : ∀ {f}, f ∈ c.diagnostics → f.rule ≠ .nonStringValue := fun hf =>
    (LocaleSet.exists_locale_of_mem (fun l => (localeFile folder l).text) hscan.isOfFile hcompile
      hf).2.1
  rcases List.mem_append.1 ha with ha | ha <;> rcases List.mem_append.1 hb with hb | hb
  · obtain ⟨locale, -, key, kind, rfl⟩ := hscan.eq_of_mem_diagnostics a ha
    obtain ⟨locale', -, key', kind', rfl⟩ := hscan.eq_of_mem_diagnostics b hb
    obtain rfl : locale = locale' := hlocales
    obtain ⟨rfl, rfl⟩ := Diagnostic.eq_of_nonStringValue hmessage
    rfl
  · obtain ⟨_, -, _, _, rfl⟩ := hscan.eq_of_mem_diagnostics a ha
    exact absurd hrule.symm (hcompiled hb)
  · obtain ⟨_, -, _, _, rfl⟩ := hscan.eq_of_mem_diagnostics b hb
    exact absurd hrule (hcompiled ha)
  · exact LocaleSet.eq_of_subject_eq hcompile ha hb
      (Diagnostic.subject_eq_of_message_eq hmade hmade' hrule hlocales hmessage)

end Run

/-- **The report does not depend on the order in which the findings are collected.** For a folder
that is loaded and compiled, findings that the order of the report does not tell apart are the same,
so that all findings in any order make the same report. -/
theorem report_eq_of_perm (hw : w.WellFormed) (hload : load w folder scanSource = .ok loaded)
    (hcompile : loaded.locales.compile source = .ok c) :
    (∀ a ∈ loaded.diagnostics ++ c.diagnostics, ∀ b ∈ loaded.diagnostics ++ c.diagnostics,
      Diagnostic.order a b = .eq → a = b) ∧
    ∀ findings, findings.Perm (loaded.diagnostics ++ c.diagnostics) →
      Diagnostic.sort findings = Diagnostic.sort (loaded.diagnostics ++ c.diagnostics) := by
  have htold : ∀ a ∈ loaded.diagnostics ++ c.diagnostics,
      ∀ b ∈ loaded.diagnostics ++ c.diagnostics, Diagnostic.order a b = .eq → a = b :=
    fun a ha b hb => eq_of_order_eq hw hload hcompile ha hb
  refine ⟨htold, fun findings hperm => (Diagnostic.sort_eq_of_perm hperm.symm htold).symm⟩

/-- The five findings about the mixed project are reported alike when they come backwards. -/
theorem report_mixedProject :
    mixedProject.WellFormed ∧ ∃ loaded c, load mixedProject ⟨"messages"⟩ "en" = .ok loaded ∧
      loaded.locales.compile "en" = .ok c ∧
      (loaded.diagnostics ++ c.diagnostics).map (fun f => (f.rule, f.subject)) =
        [(.nonStringValue, "hello", "de.at"), (.nonStringValue, "hello", "it"),
          (.fallback, "hello", "de.at"), (.fallback, "hello", "it"),
          (.unknownToken, "bye", "de.at")] ∧
      Diagnostic.sort (loaded.diagnostics ++ c.diagnostics).reverse =
        Diagnostic.sort (loaded.diagnostics ++ c.diagnostics) := by
  have h : (load mixedProject ⟨"messages"⟩ "en").toOption.bind (fun s =>
      (s.locales.compile "en").toOption.map fun c =>
        (s.diagnostics ++ c.diagnostics).map fun f => (f.rule, f.subject)) =
      some [(.nonStringValue, "hello", "de.at"), (.nonStringValue, "hello", "it"),
        (.fallback, "hello", "de.at"), (.fallback, "hello", "it"),
        (.unknownToken, "bye", "de.at")] := by
    rw [load_of_folder isFolder_mixedProject, localePaths_mixedProject]
    decide +kernel
  cases hload : load mixedProject ⟨"messages"⟩ "en" with
  | error e => rw [hload] at h; cases h
  | ok loaded =>
    rw [hload] at h
    obtain ⟨c, hcompile, hfindings⟩ := Traversal.exists_ok_of_toOption h
    refine ⟨wellFormed_mixedProject, loaded, c, rfl, hcompile, hfindings, ?_⟩
    exact (report_eq_of_perm wellFormed_mixedProject hload hcompile).2 _ (List.reverse_perm _)

end Phrasebook.LocaleFolder
