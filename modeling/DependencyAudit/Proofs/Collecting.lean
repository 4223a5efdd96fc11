import DependencyAudit.Files.Sources
import DependencyAudit.Proofs.Places
import DependencyAudit.Proofs.Sets

/-!
Which files are collected. A file is found below the root or below one of the
chosen directories; the set of the sources keeps one spelling of each file that
is found, and every spelling leads to a file. So the places that the sources lead
to can be said without any spelling.
-/

namespace DependencyAudit

theorem FileTree.mem_filesBelow {tree : FileTree} {location names : Location} :
    names ∈ tree.filesBelow location ↔ tree.isFileAt (location ++ names) = true := by
  simp only [filesBelow, List.mem_filterMap, List.mem_filter,
    List.isPrefixOf?_eq_some_iff_append_eq, exists_eq_right', and_iff_right_iff_imp]
  exact fun h => tree.complete _ (entryAt_ne_none_of_isFileAt h)

namespace Selection

variable {selection : Selection} {tree : FileTree} {root base path : Path} {within : Option Nat}
  {working : Location}

/-- Whether a file below a place is one to choose, by the names on the way to it. -/
def chooses (selection : Selection) (location names : Location) (within : Option Nat) : Bool :=
  selection.admits (location ++ names) && !names.any isHidden && within.all (names.length ≤ ·)

theorem chooses_iff {location names : Location} :
    selection.chooses location names within = true ↔
      selection.admits (location ++ names) = true ∧ (∀ name ∈ names, isHidden name = false) ∧
        ∀ bound ∈ within, names.length ≤ bound := by
  cases within <;> simp [chooses, and_assoc]

theorem mem_filesUnder :
    path ∈ selection.filesUnder tree base within working ↔
      ∃ location names, tree.locateFrom working base = .ok location ∧
        tree.isFileAt (location ++ names) = true ∧
        selection.chooses location names within = true ∧ path = base.joinAll names := by
  rw [filesUnder]
  cases tree.locateFrom working base with
  | error e => simp
  | ok location =>
      simp only [List.mem_map, List.mem_filter, FileTree.mem_filesBelow, chooses, and_assoc]
      refine ⟨fun h => ?_, fun h => ?_⟩
      · obtain ⟨names, hfile, hchosen, rfl⟩ := h
        exact ⟨location, names, rfl, hfile, hchosen, rfl⟩
      · obtain ⟨place, names, hplace, hfile, hchosen, rfl⟩ := h
        obtain rfl : location = place := Except.ok.inj hplace
        exact ⟨names, hfile, hchosen, rfl⟩

/-- The files that a search finds, each in the spelling in which it is found. -/
def Finds (selection : Selection) (tree : FileTree) (root path : Path)
    (working : Location := []) : Prop :=
  path ∈ selection.filesUnder tree root (some 1) working ∨
    ∃ directory ∈ selection.directories, tree.isDirectory (root.join directory) working = true ∧
      path ∈ selection.filesUnder tree (root.join directory) none working

theorem sources_eq_ofList :
    ∃ found, selection.sources tree root working = .ofList found ∧
      ∀ path, path ∈ found ↔ selection.Finds tree root path working := by
  refine ⟨_, rfl, fun path => ?_⟩
  simp only [List.mem_append, List.mem_flatMap, List.mem_filter, List.mem_map, Finds]
  refine or_congr_right ⟨fun h => ?_, fun h => ?_⟩
  · obtain ⟨_, ⟨⟨directory, hdirectory, rfl⟩, hbase⟩, hpath⟩ := h
    exact ⟨directory, hdirectory, hbase, hpath⟩
  · obtain ⟨directory, hdirectory, hbase, hpath⟩ := h
    exact ⟨_, ⟨⟨directory, hdirectory, rfl⟩, hbase⟩, hpath⟩

theorem finds_of_mem_sources (h : path ∈ (selection.sources tree root working).toList) :
    selection.Finds tree root path working := by
  obtain ⟨found, hfound, hmem⟩ := @sources_eq_ofList selection tree root working
  rw [hfound] at h
  exact (hmem path).mp (Ascending.mem_of_mem_ofList h)

theorem exists_mem_sources_of_finds (h : selection.Finds tree root path working) :
    ∃ other ∈ (selection.sources tree root working).toList, Path.compare path other = .eq := by
  obtain ⟨found, hfound, hmem⟩ := @sources_eq_ofList selection tree root working
  rw [hfound]
  exact Ascending.exists_eq_mem_ofList ((hmem path).mpr h)

theorem locateFrom_of_mem_filesUnder
    (h : path ∈ selection.filesUnder tree base within working) :
    ∃ place, tree.locateFrom working path = .ok place ∧ tree.isFileAt place = true := by
  obtain ⟨location, names, hbase, hfile, -, rfl⟩ := mem_filesUnder.mp h
  exact ⟨location ++ names,
    FileTree.locateFrom_joinAll hbase (FileTree.entryAt_ne_none_of_isFileAt hfile), hfile⟩

theorem Finds.locateFrom (h : selection.Finds tree root path working) :
    ∃ place, tree.locateFrom working path = .ok place ∧ tree.isFileAt place = true := by
  rcases h with h | h
  · exact locateFrom_of_mem_filesUnder h
  · obtain ⟨directory, -, -, h⟩ := h
    exact locateFrom_of_mem_filesUnder h

/-! ### Absolute roots -/

theorem sources_of_isAbsolute (hroot : root.isAbsolute = true) :
    selection.sources tree root working = selection.sources tree root := by
  have hfiles : ∀ base within, base.isAbsolute = true →
      selection.filesUnder tree base within working =
        selection.filesUnder tree base within := by
    intro base within hbase
    rw [filesUnder, filesUnder, FileTree.locateFrom_of_isAbsolute hbase]
  have hbases : ∀ base ∈ selection.directories.map root.join, base.isAbsolute = true := by
    intro base hbase
    obtain ⟨directory, -, rfl⟩ := List.mem_map.mp hbase
    exact Path.isAbsolute_join_of_isAbsolute hroot directory
  have hfilter := List.filter_congr fun base hbase =>
    @FileTree.isDirectory_of_isAbsolute tree base working (hbases base hbase)
  rw [sources, sources, hfilter, hfiles root _ hroot]
  refine congrArg (fun found => Ascending.ofList (_ ++ found)) (List.flatMap_congr ?_)
  exact fun base hbase => hfiles base none (hbases base (List.mem_of_mem_filter hbase))

theorem isAbsolute_of_mem_sources (hroot : root.isAbsolute = true)
    (h : path ∈ (selection.sources tree root working).toList) : path.isAbsolute = true := by
  rcases finds_of_mem_sources h with h | ⟨directory, -, -, h⟩
  · obtain ⟨_, names, -, -, -, rfl⟩ := mem_filesUnder.mp h
    exact Path.isAbsolute_joinAll hroot names
  · obtain ⟨_, names, -, -, -, rfl⟩ := mem_filesUnder.mp h
    exact Path.isAbsolute_joinAll (Path.isAbsolute_join_of_isAbsolute hroot directory) names

/-- Below an absolute root nothing is taken for standard input. -/
theorem withoutInput_of_isAbsolute (hroot : root.isAbsolute = true) :
    selection.withoutInput root = selection := by
  have hkept : ∀ directory ∈ selection.directories,
      (!isStandardInput (root.join directory)) = true := by
    intro directory _
    have hmem := Path.root_mem_components (Path.isAbsolute_join_of_isAbsolute hroot directory)
    rw [Bool.not_eq_true', isStandardInput, decide_eq_false_iff_not]
    intro hinput
    rw [hinput, List.mem_singleton] at hmem
    cases hmem
  rw [withoutInput, List.filter_eq_self.mpr hkept]

/-! ### The places of the sources -/

variable {place file : Location}

/-- A file directly in a place that is chosen by its name. -/
def IsDirectlyIn (selection : Selection) (tree : FileTree) (place file : Location) : Prop :=
  tree.isFileAt file = true ∧ selection.admits file = true ∧
    ∃ name, file = place ++ [name] ∧ isHidden name = false

/-- A file anywhere below a place that is chosen by its name, with nothing hidden
on the way to it. -/
def IsBelow (selection : Selection) (tree : FileTree) (place file : Location) : Prop :=
  tree.isFileAt file = true ∧ selection.admits file = true ∧
    ∃ names, file = place ++ names ∧ ∀ name ∈ names, isHidden name = false

theorem exists_mem_filesUnder_iff :
    (∃ path ∈ selection.filesUnder tree base within working,
        tree.locateFrom working path = .ok file) ↔
      ∃ place names, tree.locateFrom working base = .ok place ∧ tree.isFileAt file = true ∧
        file = place ++ names ∧ selection.chooses place names within = true := by
  refine ⟨fun h => ?_, fun h => ?_⟩
  · obtain ⟨path, hpath, hlocate⟩ := h
    obtain ⟨place, names, hbase, hfile, hchosen, rfl⟩ := mem_filesUnder.mp hpath
    have hfound :=
      FileTree.locateFrom_joinAll hbase (FileTree.entryAt_ne_none_of_isFileAt hfile)
    obtain rfl := Except.ok.inj (hfound.symm.trans hlocate)
    exact ⟨place, names, hbase, hfile, rfl, hchosen⟩
  · obtain ⟨place, names, hbase, hfile, rfl, hchosen⟩ := h
    exact ⟨base.joinAll names, mem_filesUnder.mpr ⟨place, names, hbase, hfile, hchosen, rfl⟩,
      FileTree.locateFrom_joinAll hbase (FileTree.entryAt_ne_none_of_isFileAt hfile)⟩

theorem exists_mem_filesUnder_none_iff :
    (∃ path ∈ selection.filesUnder tree base none working,
        tree.locateFrom working path = .ok file) ↔
      ∃ place, tree.locateFrom working base = .ok place ∧
        selection.IsBelow tree place file := by
  rw [exists_mem_filesUnder_iff]
  refine exists_congr fun place => ⟨fun h => ?_, fun h => ?_⟩
  · obtain ⟨names, hbase, hfile, rfl, hchosen⟩ := h
    obtain ⟨hadmits, hhidden, -⟩ := chooses_iff.mp hchosen
    exact ⟨hbase, hfile, hadmits, names, rfl, hhidden⟩
  · obtain ⟨hbase, hfile, hadmits, names, rfl, hhidden⟩ := h
    exact ⟨names, hbase, hfile, rfl, chooses_iff.mpr ⟨hadmits, hhidden, by simp⟩⟩

theorem exists_mem_filesUnder_one_iff (hroot : tree.locateFrom working root = .ok place)
    (hdirectory : tree.entryAt place = some .directory) :
    (∃ path ∈ selection.filesUnder tree root (some 1) working,
        tree.locateFrom working path = .ok file) ↔
      selection.IsDirectlyIn tree place file := by
  rw [exists_mem_filesUnder_iff]
  refine ⟨fun h => ?_, fun h => ?_⟩
  · obtain ⟨place', names, hroot', hfile, rfl, hchosen⟩ := h
    rw [hroot] at hroot'
    obtain rfl := Except.ok.inj hroot'
    obtain ⟨hadmits, hhidden, hlength⟩ := chooses_iff.mp hchosen
    -- the root itself is no file
    obtain _ | ⟨name, _ | ⟨_, _⟩⟩ := names
    · rw [List.append_nil, FileTree.isFileAt, hdirectory] at hfile
      cases hfile
    · exact ⟨hfile, hadmits, name, rfl, hhidden name (by simp)⟩
    · simp at hlength
  · obtain ⟨hfile, hadmits, name, rfl, hhidden⟩ := h
    exact ⟨place, [name], hroot, hfile, rfl,
      chooses_iff.mpr ⟨hadmits, by simpa using hhidden, by simp⟩⟩

/-- The spelling that is kept leads to the same file. -/
theorem Finds.exists_mem_sources_locateFrom (h : selection.Finds tree root path working)
    (hlocate : tree.locateFrom working path = .ok file) :
    ∃ other ∈ (selection.sources tree root working).toList,
      Path.compare path other = .eq ∧ tree.locateFrom working other = .ok file := by
  obtain ⟨other, hother, hcompare⟩ := exists_mem_sources_of_finds h
  obtain ⟨place, hplace, -⟩ := (finds_of_mem_sources hother).locateFrom
  have hsame := Path.lexicalFrom_eq_of_compare_eq hcompare working
  rw [← FileTree.eq_lexicalFrom_of_locateFrom hlocate,
    ← FileTree.eq_lexicalFrom_of_locateFrom hplace] at hsame
  rw [hsame]
  exact ⟨other, hother, hcompare, hplace⟩

theorem exists_mem_sources_iff :
    (∃ path ∈ (selection.sources tree root working).toList,
        tree.locateFrom working path = .ok file) ↔
      ∃ path, selection.Finds tree root path working ∧
        tree.locateFrom working path = .ok file := by
  refine ⟨fun h => ?_, fun h => ?_⟩
  · obtain ⟨path, hpath, hlocate⟩ := h
    exact ⟨path, finds_of_mem_sources hpath, hlocate⟩
  · obtain ⟨path, hpath, hlocate⟩ := h
    obtain ⟨other, hother, -, hplace⟩ := hpath.exists_mem_sources_locateFrom hlocate
    exact ⟨other, hother, hplace⟩

/-- What is found by way of the chosen directories lies below those that exist. -/
theorem exists_mem_directories_iff :
    (∃ path, (∃ directory ∈ selection.directories,
          tree.isDirectory (root.join directory) working = true ∧
            path ∈ selection.filesUnder tree (root.join directory) none working) ∧
        tree.locateFrom working path = .ok file) ↔
      ∃ directory ∈ selection.directories, ∃ base,
        tree.locateFrom working (root.join directory) = .ok base ∧
          tree.entryAt base = some .directory ∧ selection.IsBelow tree base file := by
  refine ⟨fun h => ?_, fun h => ?_⟩
  · obtain ⟨path, ⟨directory, hmem, hexists, hpath⟩, hlocate⟩ := h
    obtain ⟨base, hbase, hentry⟩ := FileTree.isDirectory_iff.mp hexists
    obtain ⟨place, hplace, hbelow⟩ := exists_mem_filesUnder_none_iff.mp ⟨path, hpath, hlocate⟩
    rw [hbase] at hplace
    obtain rfl := Except.ok.inj hplace
    exact ⟨directory, hmem, base, hbase, hentry, hbelow⟩
  · obtain ⟨directory, hmem, base, hbase, hentry, hbelow⟩ := h
    obtain ⟨path, hpath, hlocate⟩ := exists_mem_filesUnder_none_iff.mpr ⟨base, hbase, hbelow⟩
    exact ⟨path, ⟨directory, hmem, FileTree.isDirectory_iff.mpr ⟨base, hbase, hentry⟩, hpath⟩,
      hlocate⟩

/-- The sources are the files directly in the root and the files below those of
the chosen directories that exist. -/
theorem exists_mem_sources_iff_place (hroot : tree.locateFrom working root = .ok place)
    (hdirectory : tree.entryAt place = some .directory) :
    (∃ path ∈ (selection.sources tree root working).toList,
        tree.locateFrom working path = .ok file) ↔
      selection.IsDirectlyIn tree place file ∨
        ∃ directory ∈ selection.directories, ∃ base,
          tree.locateFrom working (root.join directory) = .ok base ∧
            tree.entryAt base = some .directory ∧ selection.IsBelow tree base file := by
  rw [exists_mem_sources_iff, ← exists_mem_filesUnder_one_iff hroot hdirectory,
    ← exists_mem_directories_iff]
  simp only [Finds, or_and_right, exists_or]

/-- An empty root leads nowhere and so has no files of its own. What is found lies below
the chosen directories, which are followed from the working directory. -/
theorem exists_mem_sources_empty_iff :
    (∃ path ∈ (selection.sources tree ⟨""⟩ working).toList,
        tree.locateFrom working path = .ok file) ↔
      ∃ directory ∈ selection.directories, ∃ base,
        tree.locateFrom working ⟨directory⟩ = .ok base ∧
          tree.entryAt base = some .directory ∧ selection.IsBelow tree base file := by
  have hnowhere : ∀ path, path ∉ selection.filesUnder tree ⟨""⟩ (some 1) working := by
    intro path hpath
    obtain ⟨place, names, hplace, -⟩ := mem_filesUnder.mp hpath
    cases hplace
  have hdirectories := @exists_mem_directories_iff selection tree ⟨""⟩ working file
  simp only [Path.join_empty] at hdirectories
  rw [exists_mem_sources_iff, ← hdirectories]
  simp only [Finds, hnowhere, false_or, Path.join_empty]

end Selection

end DependencyAudit
