import Phrasebook.Proofs.LocaleFolder.Names
import Phrasebook.Proofs.Path.Join
import Phrasebook.Proofs.Project.Output
import Phrasebook.Proofs.Traversal

/-!
# What compiling reads

What is added with a file at the end of a path has a name of the path (`exists_name_of_changed`). So
if the path has none of the names that decide about the configuration, and does not end with a
locale file, the settings (`configuration_eq`) and what is compiled with them (`compileProject_eq`)
stay the same.
-/

namespace Phrasebook

open FileTree Move

namespace Workspace

variable {w w' : Workspace} {output p base file : Path} {content : ByteArray} {l : Location}
  {name : String}

/-! ## Paths that lead to the same -/

/-- The path leads to the same thing in both workspaces. -/
def SameAt (w w' : Workspace) (p : Path) : Prop :=
  ∃ l, w.locate p = .ok l ∧ w'.locate p = .ok l ∧ w'.tree.node? l = w.tree.node? l

namespace SameAt

theorem node?_eq (h : SameAt w w' p) : w'.node? p = w.node? p := by
  obtain ⟨l, hl, hl', hn⟩ := h
  rw [node?, node?, hl, hl']
  exact hn

theorem pathExists_eq (h : SameAt w w' p) : w'.pathExists p = w.pathExists p := by
  rw [pathExists, pathExists, h.node?_eq]

theorem isFolder_eq (h : SameAt w w' p) : w'.isFolder p = w.isFolder p := by
  rw [isFolder, isFolder, h.node?_eq]

theorem readText_eq (h : SameAt w w' p) : w'.readText p = w.readText p := by
  obtain ⟨l, hl, hl', hn⟩ := h
  have hread : w'.read p = w.read p := by
    rw [read, read, hl, hl']
    dsimp only [bind, Except.bind]
    rw [hn]
  rw [readText, readText, hread]

end SameAt

/-! ## What is added with a file -/

/-- What differs has the last name of some way along the path of the file. -/
theorem exists_name_of_changed (hw : w.WellFormed) (h : AddsFile output content w w')
    (hl : w'.tree.node? l ≠ w.tree.node? l) :
    ∃ folder name, l = folder ++ [name] ∧ .name name ∈ output.components := by
  have hne := text_ne_of_locate h.locate_eq
  have hway : w.tree.node? l ≠ some .folder ∧
      ∃ ms, ms <+: output.way ∧ destination (w.origin output.isAbsolute) ms = l := by
    by_cases hlt : l = w.target output
    · subst hlt
      exact ⟨h.free, output.way, List.prefix_rfl, Path.destination_way hne _⟩
    · rcases h.node?_cases l hlt with hsame | ⟨hnone, -, p, hp, hlp⟩
      · exact absurd hsame hl
      · refine ⟨(by rw [hnone]; nofun), exists_prefix_of_mem_passed ?_⟩
        rw [Path.passed_way hne, ← origin_of_here h.here_eq]
        exact mem_passed_of_leads output.way_around hp hlp
  obtain ⟨hfree, ms, hms, rfl⟩ := hway
  obtain ⟨start, names, heq, ⟨rest, hrest⟩, hnames⟩ :=
    exists_destination_eq (w.origin output.isAbsolute) ms
  have hstart : w.tree.node? start = some .folder :=
    hw.tree.folder_of_append (by rw [hrest]; exact hw.origin _)
  have hcons : names ≠ [] := by
    rintro rfl
    rw [heq, List.append_nil] at hfree
    exact hfree hstart
  refine ⟨start ++ names.dropLast, names.getLast hcons, ?_, ?_⟩
  · rw [heq, List.append_assoc, List.dropLast_concat_getLast]
  · have hmem := hms.subset (hnames _ (List.getLast_mem hcons))
    obtain ⟨c, hc, hmove⟩ := List.mem_map.1 hmem
    cases c <;> cases hmove
    exact hc

theorem sameAt_join (hw : w.WellFormed) (h : AddsFile output content w w')
    (hl : w.locate base = .ok l) (hf : w.tree.node? l = some .folder) (hname : IsName name)
    (hnot : .name name ∉ output.components) : SameAt w w' (base.join ⟨name⟩) := by
  have hlocate := locate_join hl hf hname
  refine ⟨_, hlocate, locate_of_keepsFolders h.here_eq h.keepsFolders hlocate, ?_⟩
  by_cases hsame : w'.tree.node? (l ++ [name]) = w.tree.node? (l ++ [name])
  · exact hsame
  · obtain ⟨folder, name', heq, hmem⟩ := exists_name_of_changed hw h hsame
    obtain ⟨-, hn⟩ := List.append_inj' heq rfl
    obtain rfl := List.singleton_inj.1 hn
    exact absurd hmem hnot

end Workspace

/-! ## The configuration -/

namespace Config

variable {w w' : Workspace} {folders : List Path} {start file : Path}

theorem findIn_eq (h : ∀ folder ∈ folders, Workspace.SameAt w w' (folder.join ⟨configFileName⟩) ∧
    Workspace.SameAt w w' (folder.join ⟨".git"⟩)) : findIn w' folders = findIn w folders := by
  induction folders with
  | nil => rfl
  | cons folder folders ih =>
    obtain ⟨⟨hconfig, hgit⟩, hrest⟩ := List.forall_mem_cons.1 h
    rw [findIn, findIn, hconfig.pathExists_eq, hgit.pathExists_eq, ih hrest]

theorem exists_of_findIn (h : findIn w folders = some file) :
    ∃ folder ∈ folders, file = folder.join ⟨configFileName⟩ := by
  induction folders with
  | nil => cases h
  | cons folder folders ih =>
    rw [findIn] at h
    split at h
    · exact ⟨folder, List.mem_cons_self, (Option.some.inj h).symm⟩
    · split at h
      · cases h
      · obtain ⟨folder', hmem, hfile⟩ := ih h
        exact ⟨folder', List.mem_cons_of_mem folder hmem, hfile⟩

theorem load_eq (h : ∀ folder ∈ start.ancestors,
    Workspace.SameAt w w' (folder.join ⟨configFileName⟩) ∧
      Workspace.SameAt w w' (folder.join ⟨".git"⟩)) : load w' start = load w start := by
  have hfind : find? w' start = find? w start := findIn_eq h
  unfold load
  rw [hfind]
  cases hf : find? w start with
  | none => rfl
  | some file =>
    obtain ⟨folder, hmem, rfl⟩ := exists_of_findIn hf
    dsimp only
    rw [(h folder hmem).1.readText_eq]

end Config

theorem Settings.configuration_eq {w w' : Workspace} {output : Path} {content : ByteArray}
    (hw : w.WellFormed) (h : w.AddsFile output content w')
    (hconfig : .name configFileName ∉ output.components)
    (hgit : .name ".git" ∉ output.components) :
    Settings.configuration w' = Settings.configuration w := by
  have hpath : w'.path = w.path := by rw [Workspace.path, Workspace.path, h.here_eq]
  have hload : Config.load w' w.path = Config.load w w.path := by
    refine Config.load_eq fun folder hfolder => ?_
    obtain ⟨l, hl, hf⟩ := Workspace.exists_locate_of_mem_ancestors hw hfolder
    exact ⟨Workspace.sameAt_join hw h hl hf (by decide) hconfig,
      Workspace.sameAt_join hw h hl hf (by decide) hgit⟩
  rw [configuration, configuration, hpath, hload]

/-! ## The locale files -/

namespace FileTree

variable {t t' : FileTree} {folder : Location} {name : String}

theorem mem_keys_of_mem_names (h : name ∈ t.names folder) : folder ++ [name] ∈ t.nodes.keys := by
  obtain ⟨l, hl, hname⟩ := List.mem_filterMap.1 h
  split at hname
  · rename_i hfolder
    obtain ⟨init, rfl⟩ := List.getLast?_eq_some_iff.1 hname
    rw [List.dropLast_concat] at hfolder
    rw [← hfolder]
    exact hl
  · cases hname

theorem WellFormed.isName_of_mem_names (h : t.WellFormed) (hname : name ∈ t.names folder) :
    IsName name :=
  h.named _ (mem_keys_of_mem_names hname) name (List.mem_append_right _ (List.mem_singleton_self _))

/-- What has come last into a tree comes last in its folder. -/
theorem exists_names_eq (folder : Location) (h : t.nodes.keys <+: t'.nodes.keys) :
    ∃ added, t'.names folder = t.names folder ++ added ∧
      ∀ name ∈ added, t.node? (folder ++ [name]) = none := by
  obtain ⟨keys, hkeys⟩ := h
  refine ⟨_, by rw [names, ← hkeys, List.filterMap_append]; rfl, fun name hname => ?_⟩
  obtain ⟨l, hl, hlast⟩ := List.mem_filterMap.1 hname
  split at hlast
  · rename_i hfolder
    obtain ⟨init, rfl⟩ := List.getLast?_eq_some_iff.1 hlast
    rw [List.dropLast_concat] at hfolder
    subst hfolder
    have hnodup := t'.nodes.keys_nodup
    rw [← hkeys] at hnodup
    have hnot : init ++ [name] ∉ t.nodes.keys :=
      fun hmem => (List.nodup_append.1 hnodup).2.2 _ hmem _ hl rfl
    rw [node?, if_neg (List.append_ne_nil_of_right_ne_nil _ (List.cons_ne_nil _ _))]
    exact OrderedMap.get?_eq_none_iff.2 hnot
  · cases hlast

end FileTree

namespace LocaleFolder

variable {w w' : Workspace} {output folder : Path} {content : ByteArray} {m : Location}
  {name source : String} {f : LocalePath}

/-- The path is not that of a locale file directly in the folder. -/
def Avoids (w : Workspace) (output folder : Path) : Prop :=
  ∀ name, w.target output = w.target folder ++ [name] →
    (Path.splitExtension name).2 ≠ some "json"

theorem Avoids.ne_target (h : Avoids w output folder) (hm : w.locate folder = .ok m)
    (hext : (Path.splitExtension name).2 = some "json") : m ++ [name] ≠ w.target output := by
  intro heq
  obtain ⟨-, -, htarget⟩ := Workspace.locate_eq_ok_iff.1 hm
  rw [← htarget] at heq
  exact h name heq.symm hext

theorem eq_of_localePath? (h : localePath? w folder name = some f) :
    f.2 = folder.join ⟨name⟩ ∧ w.isFile f.2 = true ∧ f.2.extension? = some "json" := by
  unfold localePath? at h
  dsimp only at h
  split at h
  · rename_i hfile
    rw [Bool.and_eq_true, decide_eq_true_iff] at hfile
    obtain ⟨locale, -, rfl⟩ := Option.map_eq_some_iff.1 h
    exact ⟨rfl, hfile⟩
  · cases h

/-- A locale file that there was stays what it was. -/
theorem sameAt_of_localePath? (h : w.AddsFile output content w') (hm : w.locate folder = .ok m)
    (hf : w.tree.node? m = some .folder) (hname : IsName name) (havoids : Avoids w output folder)
    (hpath : localePath? w folder name = some f) : w.SameAt w' f.2 := by
  obtain ⟨hfile, his, hext⟩ := eq_of_localePath? hpath
  have hlocate := Workspace.locate_join hm hf hname
  rw [hfile] at his hext ⊢
  rw [Path.extension?_join (Workspace.text_ne_of_locate hm) hname] at hext
  refine ⟨_, hlocate, Workspace.locate_of_keepsFolders h.here_eq h.keepsFolders hlocate, ?_⟩
  rcases h.node?_cases _ (havoids.ne_target hm hext) with hsame | ⟨hnone, -, -⟩
  · exact hsame
  · rw [Workspace.isFile, Workspace.node?, hlocate] at his
    dsimp only at his
    rw [hnone] at his
    cases his

/-- No locale file is added. -/
theorem localePath?_eq (h : w.AddsFile output content w') (hm : w.locate folder = .ok m)
    (hf : w.tree.node? m = some .folder) (hname : IsName name)
    (havoids : Avoids w output folder) :
    localePath? w' folder name = localePath? w folder name := by
  have hlocate := Workspace.locate_join hm hf hname
  have hlocate' := Workspace.locate_of_keepsFolders h.here_eq h.keepsFolders hlocate
  unfold localePath?
  dsimp only
  rw [Path.extension?_join (Workspace.text_ne_of_locate hm) hname]
  by_cases hext : (Path.splitExtension name).2 = some "json"
  · have hfile : w'.isFile (folder.join ⟨name⟩) = w.isFile (folder.join ⟨name⟩) := by
      rw [Workspace.isFile, Workspace.isFile, Workspace.node?, Workspace.node?, hlocate, hlocate']
      dsimp only
      rcases h.node?_cases _ (havoids.ne_target hm hext) with hsame | ⟨hnone, hfolder, -⟩
      · rw [hsame]
      · rw [hnone, hfolder]
    rw [hfile]
  · rw [decide_eq_false hext, Bool.and_false, Bool.and_false]

theorem localePath?_eq_none (hm : w.locate folder = .ok m) (hf : w.tree.node? m = some .folder)
    (hname : IsName name) (hnone : w.tree.node? (m ++ [name]) = none) :
    localePath? w folder name = none := by
  have hfile : w.isFile (folder.join ⟨name⟩) = false := by
    rw [Workspace.isFile, Workspace.node?, Workspace.locate_join hm hf hname]
    dsimp only
    rw [hnone]
  unfold localePath?
  dsimp only
  rw [hfile]
  rfl

/-- The locale files of the folder stay the same. -/
theorem localePaths_eq (hw : w.WellFormed) (hw' : w'.WellFormed) (h : w.AddsFile output content w')
    (hm : w.locate folder = .ok m) (hf : w.tree.node? m = some .folder)
    (havoids : Avoids w output folder) :
    localePaths w' folder source = localePaths w folder source := by
  have hm' := Workspace.locate_of_keepsFolders h.here_eq h.keepsFolders hm
  obtain ⟨added, hnames, hadded⟩ := FileTree.exists_names_eq m h.keys_prefix
  have hnone : added.filterMap (localePath? w' folder) = [] := by
    rw [List.filterMap_eq_nil_iff]
    intro name hname
    have hmem : name ∈ w'.tree.names m := hnames ▸ List.mem_append_right _ hname
    have hisName := hw'.tree.isName_of_mem_names hmem
    rw [localePath?_eq h hm hf hisName havoids]
    exact localePath?_eq_none hm hf hisName (hadded name hname)
  have hsame : (w.tree.names m).filterMap (localePath? w' folder) =
      (w.tree.names m).filterMap (localePath? w folder) :=
    List.filterMap_congr fun name hname =>
      localePath?_eq h hm hf (hw.tree.isName_of_mem_names hname) havoids
  rw [localePaths_eq_names, localePaths_eq_names]
  unfold Workspace.names
  rw [hm, hm']
  dsimp only
  rw [hnames, List.filterMap_append, hnone, hsame, List.append_nil]

theorem load_eq_of_sameAt {file : Path} {locale : String} (h : w.SameAt w' file) :
    LocaleFile.load w' file locale = LocaleFile.load w file locale := by
  unfold LocaleFile.load
  rw [h.readText_eq]

/-- **Loading the folder gives the same.** -/
theorem load_eq (hw : w.WellFormed) (hw' : w'.WellFormed) (h : w.AddsFile output content w')
    (hm : w.locate folder = .ok m) (hf : w.tree.node? m = some .folder)
    (havoids : Avoids w output folder) : load w' folder source = load w folder source := by
  have hfolder : w.SameAt w' folder := by
    refine ⟨m, hm, Workspace.locate_of_keepsFolders h.here_eq h.keepsFolders hm, ?_⟩
    rw [hf, h.keepsFolders m hf]
  have hfiles : ∀ f ∈ localePaths w folder source,
      LocaleFile.load w' f.2 f.1 = LocaleFile.load w f.2 f.1 := by
    intro f hmem
    rw [localePaths_eq_names, List.mem_mergeSort] at hmem
    obtain ⟨name, hname, hpath⟩ := List.mem_filterMap.1 hmem
    rw [Workspace.names, hm] at hname
    exact load_eq_of_sameAt (sameAt_of_localePath? h hm hf (hw.tree.isName_of_mem_names hname)
      havoids hpath)
  unfold load
  rw [hfolder.pathExists_eq, hfolder.isFolder_eq, localePaths_eq hw hw' h hm hf havoids,
    Traversal.mapM_congr hfiles]

theorem load_of_not_folder (h : w.isFolder folder = false) :
    load w folder source =
      .error (if w.pathExists folder then .messagesNotFolder folder
        else .messagesMissing folder) := by
  unfold load
  rw [h]
  cases w.pathExists folder <;> rfl

theorem exists_folder_of_load {loaded : LoadedSet} (h : load w folder source = .ok loaded) :
    ∃ m, w.locate folder = .ok m ∧ w.tree.node? m = some .folder := by
  rw [← Workspace.isFolder_iff]
  cases hf : w.isFolder folder with
  | true => rfl
  | false =>
    rw [load_of_not_folder hf] at h
    cases h

end LocaleFolder

namespace Workspace

variable {w w' : Workspace} {s : Settings} {f : Failure}

theorem compileProject_of_load_error
    (h : LocaleFolder.load w s.messagesRoot s.sourceLocale = .error f) :
    w.compileProject s = .error f := by
  rw [compileProject, h]
  rfl

theorem compileProject_of_load_eq
    (h : LocaleFolder.load w' s.messagesRoot s.sourceLocale =
      LocaleFolder.load w s.messagesRoot s.sourceLocale) :
    w'.compileProject s = w.compileProject s := by
  rw [compileProject, compileProject, h]

/-- **Compiling gives the same** after a file has been added that is no locale file. -/
theorem compileProject_eq {output : Path} {content : ByteArray} {c : CompiledProject}
    (hw : w.WellFormed) (hw' : w'.WellFormed) (h : w.AddsFile output content w')
    (havoids : LocaleFolder.Avoids w output s.messagesRoot) (hc : w.compileProject s = .ok c) :
    w'.compileProject s = .ok c := by
  have hload : LocaleFolder.load w' s.messagesRoot s.sourceLocale =
      LocaleFolder.load w s.messagesRoot s.sourceLocale := by
    cases hl : LocaleFolder.load w s.messagesRoot s.sourceLocale with
    | error f =>
      rw [compileProject_of_load_error hl] at hc
      cases hc
    | ok loaded =>
      obtain ⟨m, hm, hf⟩ := LocaleFolder.exists_folder_of_load hl
      rw [LocaleFolder.load_eq hw hw' h hm hf havoids, hl]
  rw [compileProject_of_load_eq hload]
  exact hc

end Workspace

end Phrasebook
