import DependencyAudit.Proofs.Collecting
import DependencyAudit.Proofs.Runs

/-!
The searches that a collection consists of: one of the root, which goes no deeper
than its own entries, and then one of each chosen directory that exists. Within
one search every file has a path of its own, so two spellings of one path come
from different searches, and the earlier search decides which of them stays.
What stays up to spelling does not depend on the order of the searches.
-/

namespace DependencyAudit

/-- Ascending lists of paths with the same paths in them, up to spelling, are the same
list up to spelling. -/
theorem Path.map_components_eq_of_mem_iff {paths paths' : Ascending Path.compare}
    (h : ∀ components, components ∈ paths.toList.map Path.components ↔
      components ∈ paths'.toList.map Path.components) :
    paths.toList.map Path.components = paths'.toList.map Path.components := by
  -- the keys that paths compare by say as much as their components
  have hkey : Function.Injective (List.map Component.key) :=
    List.map_injective_iff.mpr Component.key_injective
  have hkeys : ∀ paths : Ascending Path.compare,
      (paths.toList.map Path.components).map (List.map Component.key) =
        paths.toList.map orderKey := fun paths => List.map_map
  have hascends : ∀ paths : Ascending Path.compare,
      (paths.toList.map orderKey).Pairwise fun key key' => Ord.compare key key' = .lt :=
    fun paths => List.pairwise_map.mpr paths.ascends
  have hmem : ∀ key, key ∈ paths.toList.map orderKey ↔ key ∈ paths'.toList.map orderKey := by
    intro key
    rw [← hkeys, ← hkeys, List.mem_map, List.mem_map]
    exact exists_congr fun components => and_congr_left fun _ => h components
  apply List.map_injective_iff.mpr hkey
  rw [hkeys, hkeys]
  exact Ascending.toList_eq_of_mem_iff (s := ⟨_, hascends paths⟩) (t := ⟨_, hascends paths'⟩) hmem

namespace Selection

variable {selection : Selection} {tree : FileTree} {root base path : Path} {within : Option Nat}
  {working file : Location}

/-! ### Extensions -/

/-- The last name of a place ends in a dot and one of the extensions, and something
stands before that dot. -/
def HasExtension (extensions : List String) (file : Location) : Prop :=
  ∃ name stem ending, file.getLast? = some name ∧ name.toList = stem ++ '.' :: ending ∧
    stem ≠ [] ∧ '.' ∉ ending ∧ String.ofList ending ∈ extensions

theorem extension?_eq_some_iff {name extension : String} :
    extension? name = some extension ↔
      ∃ stem ending, name.toList = stem ++ '.' :: ending ∧ stem ≠ [] ∧ '.' ∉ ending ∧
        String.ofList ending = extension := by
  rw [extension?]
  split
  next first stem ending hcut =>
    obtain ⟨hname, hending⟩ := Text.cutAtLast_eq_some_iff.mp hcut
    refine ⟨fun h => ⟨_, ending, hname, List.cons_ne_nil _ _, hending, Option.some.inj h⟩,
      fun h => ?_⟩
    obtain ⟨stem', ending', hname', -, hending', rfl⟩ := h
    rw [Text.cutAtLast_eq_some_iff.mpr ⟨hname', hending'⟩] at hcut
    rw [(Prod.mk.inj (Option.some.inj hcut)).2]
  next hcut =>
    refine ⟨nofun, fun h => ?_⟩
    obtain ⟨stem, ending, hname, hstem, hending, -⟩ := h
    obtain ⟨first, stem, rfl⟩ := List.exists_cons_of_ne_nil hstem
    exact absurd (Text.cutAtLast_eq_some_iff.mpr ⟨hname, hending⟩) (hcut first stem ending)

theorem admits_iff : selection.admits file = true ↔ HasExtension selection.extensions file := by
  rw [admits]
  split
  next extension h =>
    obtain ⟨name, hname, hextension⟩ := Option.bind_eq_some_iff.mp h
    obtain ⟨stem, ending, htext, hstem, hending, rfl⟩ := extension?_eq_some_iff.mp hextension
    rw [List.contains_iff_mem]
    refine ⟨fun hmem => ⟨name, stem, ending, hname, htext, hstem, hending, hmem⟩, fun h => ?_⟩
    obtain ⟨name', stem', ending', hname', htext', hstem', hending', hmem⟩ := h
    obtain rfl := Option.some.inj (hname.symm.trans hname')
    have hsame := extension?_eq_some_iff.mpr ⟨stem', ending', htext', hstem', hending', rfl⟩
    rwa [Option.some.inj (hextension.symm.trans hsame)]
  next h =>
    refine ⟨nofun, fun hextension => ?_⟩
    obtain ⟨name, stem, ending, hname, htext, hstem, hending, -⟩ := hextension
    have hsome := extension?_eq_some_iff.mpr ⟨stem, ending, htext, hstem, hending, rfl⟩
    rw [hname, Option.bind_some, hsome] at h
    cases h

/-! ### Single searches -/

/-- The searches of a collection in their order, each with how far below its base
it goes. -/
def searches (selection : Selection) (tree : FileTree) (root : Path)
    (working : Location := []) : List (Path × Option Nat) :=
  (root, some 1) ::
    ((selection.directories.map root.join).filter fun base =>
      tree.isDirectory base working).map fun base => (base, none)

/-- A search meets a file with a chosen extension, with nothing hidden between its
base and the file. -/
def Meets (selection : Selection) (tree : FileTree) (search : Path × Option Nat)
    (path : Path) (working : Location := []) : Prop :=
  ∃ place names, tree.locateFrom working search.1 = .ok place ∧
    tree.isFileAt (place ++ names) = true ∧
    HasExtension selection.extensions (place ++ names) ∧
    (∀ name ∈ names, isHidden name = false) ∧ (∀ bound ∈ search.2, names.length ≤ bound) ∧
    path = search.1.joinAll names

theorem mem_filesUnder_iff_meets :
    path ∈ selection.filesUnder tree base within working ↔
      selection.Meets tree (base, within) path working := by
  simp only [mem_filesUnder, chooses_iff, admits_iff, and_assoc, Meets]

theorem components_of_meets {search : Path × Option Nat} {names : List String} {place : Location}
    (hfile : tree.isFileAt (place ++ names) = true) :
    (search.1.joinAll names).components = search.1.components ++ names.map .name := by
  apply Path.components_joinAll
  intro name hname
  exact tree.named _ (FileTree.entryAt_ne_none_of_isFileAt hfile) name
    (List.mem_append_right place hname)

/-- In one search no path is met in two spellings. -/
theorem Meets.eq_of_components_eq {search : Path × Option Nat} {path' : Path}
    (h : selection.Meets tree search path working)
    (h' : selection.Meets tree search path' working)
    (hcomponents : path.components = path'.components) : path = path' := by
  obtain ⟨place, names, -, hfile, -, -, -, rfl⟩ := h
  obtain ⟨place', names', -, hfile', -, -, -, rfl⟩ := h'
  rw [components_of_meets hfile, components_of_meets hfile',
    List.append_cancel_left_eq] at hcomponents
  have hinjective : Function.Injective Path.Component.name := fun _ _ => Path.Component.name.inj
  rw [List.map_injective_iff.mpr hinjective hcomponents]

theorem sources_eq_ofList_flatten :
    selection.sources tree root working =
      .ofList ((selection.searches tree root working).map fun search =>
        selection.filesUnder tree search.1 search.2 working).flatten := by
  rw [sources, searches, List.map_cons, List.flatten_cons, List.map_map, List.flatMap_def]
  rfl

/-- A path is kept in the spelling in which the first search meets it. -/
theorem mem_sources_iff_first :
    path ∈ (selection.sources tree root working).toList ↔
      ∃ earlier search later,
        selection.searches tree root working = earlier ++ search :: later ∧
        selection.Meets tree search path working ∧
        ∀ before ∈ earlier, ∀ other, selection.Meets tree before other working →
          other.components ≠ path.components := by
  have hapart : ∀ list ∈ (selection.searches tree root working).map fun search =>
      selection.filesUnder tree search.1 search.2 working,
      ∀ first ∈ list, ∀ second ∈ list, Path.compare first second = .eq → first = second := by
    intro list hlist first hfirst second hsecond heq
    obtain ⟨search, -, rfl⟩ := List.mem_map.mp hlist
    exact (mem_filesUnder_iff_meets.mp hfirst).eq_of_components_eq
      (mem_filesUnder_iff_meets.mp hsecond) (Path.compare_eq_iff.mp heq)
  rw [sources_eq_ofList_flatten, Ascending.mem_ofList_flatten hapart]
  refine ⟨fun h => ?_, fun h => ?_⟩
  · obtain ⟨lists, list, lists', hsplit, hmem, hfree⟩ := h
    obtain ⟨earlier, rest, hsearches, rfl, hrest⟩ := List.map_eq_append_iff.mp hsplit
    obtain ⟨search, later, rfl, rfl, -⟩ := List.map_eq_cons_iff.mp hrest
    refine ⟨earlier, search, later, hsearches, mem_filesUnder_iff_meets.mp hmem, ?_⟩
    intro before hbefore other hother heq
    exact hfree _ (List.mem_map_of_mem hbefore) other (mem_filesUnder_iff_meets.mpr hother)
      (Path.compare_eq_iff.mpr heq)
  · obtain ⟨earlier, search, later, hsearches, hmeets, hfree⟩ := h
    rw [hsearches, List.map_append, List.map_cons]
    refine ⟨_, _, _, rfl, mem_filesUnder_iff_meets.mpr hmeets, ?_⟩
    intro list hlist other hother heq
    obtain ⟨before, hbefore, rfl⟩ := List.mem_map.mp hlist
    exact hfree before hbefore other (mem_filesUnder_iff_meets.mp hother)
      (Path.compare_eq_iff.mp heq)

/-! ### All searches together -/

/-- The files of a collection with the paths under which they can be met: the root if
it is a file, the root's own entries, and what lies below a chosen directory. Names
that begin with a dot are left out, but not that of the root or of the directory. -/
inductive IsSource (selection : Selection) (tree : FileTree) (root : Path) :
    Path → Location → Prop
  | itself {file : Location} (leads : tree.locate root = .ok file)
      (regular : tree.isFileAt file = true)
      (extension : HasExtension selection.extensions file) : IsSource selection tree root root file
  | child {place : Location} {name : String} (leads : tree.locate root = .ok place)
      (regular : tree.isFileAt (place ++ [name]) = true) (visible : isHidden name = false)
      (extension : HasExtension selection.extensions (place ++ [name])) :
      IsSource selection tree root (root.join name) (place ++ [name])
  | below {directory : String} {base names : Location} (chosen : directory ∈ selection.directories)
      (leads : tree.locate (root.join directory) = .ok base)
      (isDirectory : tree.entryAt base = some .directory)
      (regular : tree.isFileAt (base ++ names) = true)
      (visible : ∀ name ∈ names, isHidden name = false)
      (extension : HasExtension selection.extensions (base ++ names)) :
      IsSource selection tree root ((root.join directory).joinAll names) (base ++ names)

theorem mem_searches {search : Path × Option Nat} :
    search ∈ selection.searches tree root ↔
      search = (root, some 1) ∨ ∃ directory ∈ selection.directories,
        tree.isDirectory (root.join directory) = true ∧ search = (root.join directory, none) := by
  simp only [searches, List.mem_cons, List.mem_map, List.mem_filter]
  refine or_congr_right ⟨fun h => ?_, fun h => ?_⟩
  · obtain ⟨_, ⟨⟨directory, hmem, rfl⟩, hexists⟩, rfl⟩ := h
    exact ⟨directory, hmem, hexists, rfl⟩
  · obtain ⟨directory, hmem, hexists, rfl⟩ := h
    exact ⟨_, ⟨⟨directory, hmem, rfl⟩, hexists⟩, rfl⟩

theorem IsSource.exists_meets (h : selection.IsSource tree root path file) :
    ∃ search ∈ selection.searches tree root, selection.Meets tree search path := by
  cases h with
  | itself leads regular extension =>
      refine ⟨(root, some 1), mem_searches.mpr (.inl rfl), file, [], leads, ?_⟩
      rw [List.append_nil]
      exact ⟨regular, extension, by simp, by simp, rfl⟩
  | @child place name leads regular visible extension =>
      exact ⟨(root, some 1), mem_searches.mpr (.inl rfl), place, [name], leads, regular,
        extension, by simpa using visible, by simp, rfl⟩
  | @below directory base names chosen leads isDirectory regular visible extension =>
      have hexists := FileTree.isDirectory_iff.mpr ⟨base, leads, isDirectory⟩
      exact ⟨(root.join directory, none), mem_searches.mpr (.inr ⟨_, chosen, hexists, rfl⟩),
        base, names, leads, regular, extension, visible, by simp, rfl⟩

theorem IsSource.locate (h : selection.IsSource tree root path file) :
    tree.locate path = .ok file := by
  cases h with
  | itself leads => exact leads
  | child leads regular =>
      exact FileTree.locateFrom_join leads (FileTree.entryAt_ne_none_of_isFileAt regular)
  | below chosen leads isDirectory regular =>
      exact FileTree.locateFrom_joinAll leads (FileTree.entryAt_ne_none_of_isFileAt regular)

theorem Meets.isSource {search : Path × Option Nat}
    (hsearch : search ∈ selection.searches tree root) (h : selection.Meets tree search path)
    (hlocate : tree.locate path = .ok file) : selection.IsSource tree root path file := by
  obtain ⟨place, names, hbase, hfile, hextension, hvisible, hdepth, rfl⟩ := h
  have hfound := FileTree.locateFrom_joinAll hbase (FileTree.entryAt_ne_none_of_isFileAt hfile)
  obtain rfl := Except.ok.inj (hfound.symm.trans hlocate)
  rcases mem_searches.mp hsearch with rfl | ⟨directory, hchosen, hexists, rfl⟩
  · -- the search of the root meets the root and its own entries
    obtain _ | ⟨name, _ | ⟨_, _⟩⟩ := names
    · rw [List.append_nil] at hfile hextension ⊢
      exact .itself hbase hfile hextension
    · exact .child hbase hfile (hvisible name (by simp)) hextension
    · simp at hdepth
  · obtain ⟨base, hplace, hdirectory⟩ := FileTree.isDirectory_iff.mp hexists
    obtain rfl : base = place := Except.ok.inj (hplace.symm.trans hbase)
    exact .below hchosen hbase hdirectory hfile hvisible hextension

theorem finds_iff_exists_meets :
    selection.Finds tree root path ↔
      ∃ search ∈ selection.searches tree root, selection.Meets tree search path := by
  simp only [Finds, mem_filesUnder_iff_meets, mem_searches]
  refine ⟨fun h => ?_, fun h => ?_⟩
  · rcases h with h | ⟨directory, hmem, hexists, h⟩
    · exact ⟨_, .inl rfl, h⟩
    · exact ⟨_, .inr ⟨directory, hmem, hexists, rfl⟩, h⟩
  · obtain ⟨search, rfl | ⟨directory, hmem, hexists, rfl⟩, h⟩ := h
    · exact .inl h
    · exact .inr ⟨directory, hmem, hexists, h⟩

theorem isSource_iff_finds :
    selection.IsSource tree root path file ↔
      selection.Finds tree root path ∧ tree.locate path = .ok file := by
  rw [finds_iff_exists_meets]
  refine ⟨fun h => ⟨h.exists_meets, h.locate⟩, fun h => ?_⟩
  obtain ⟨⟨search, hsearch, hmeets⟩, hlocate⟩ := h
  exact hmeets.isSource hsearch hlocate

/-- What a list of paths has to be to hold the files of a collection. -/
structure Collects (selection : Selection) (tree : FileTree) (root : Path)
    (paths : List Path) : Prop where
  mem_iff : ∀ components file,
    (∃ path ∈ paths, path.components = components ∧ tree.locate path = .ok file) ↔
      ∃ path, selection.IsSource tree root path file ∧ path.components = components
  ascending : paths.Pairwise fun first second => Path.compare first second = .lt
  apart : paths.Pairwise fun first second => first.components ≠ second.components
  /-- Of the spellings of one path the one that is met first stays. -/
  mem_iff_first : ∀ path, path ∈ paths ↔
    ∃ earlier search later, selection.searches tree root = earlier ++ search :: later ∧
      selection.Meets tree search path ∧
      ∀ before ∈ earlier, ∀ other, selection.Meets tree before other →
        other.components ≠ path.components

theorem collects_sources (selection : Selection) (tree : FileTree) (root : Path) :
    selection.Collects tree root (selection.sources tree root).toList where
  mem_iff components file := by
    simp only [isSource_iff_finds]
    refine ⟨fun h => ?_, fun h => ?_⟩
    · obtain ⟨path, hpath, hcomponents, hlocate⟩ := h
      exact ⟨path, ⟨finds_of_mem_sources hpath, hlocate⟩, hcomponents⟩
    · obtain ⟨path, ⟨hfinds, hlocate⟩, rfl⟩ := h
      obtain ⟨other, hother, hcompare, hplace⟩ := hfinds.exists_mem_sources_locateFrom hlocate
      exact ⟨other, hother, (Path.components_eq_of_compare_eq hcompare).symm, hplace⟩
  ascending := (selection.sources tree root).ascends
  apart := by
    refine (selection.sources tree root).ascends.imp fun {first second} hlt heq => ?_
    rw [Path.compare_eq_iff.mpr heq] at hlt
    cases hlt
  mem_iff_first path := mem_sources_iff_first

/-! ### Other orders -/

theorem IsSource.of_mem_imp {other : Selection} (h : selection.IsSource tree root path file)
    (hdirectories : ∀ directory ∈ selection.directories, directory ∈ other.directories)
    (hextensions : ∀ extension ∈ selection.extensions, extension ∈ other.extensions) :
    other.IsSource tree root path file := by
  have hadmitted : ∀ {place}, HasExtension selection.extensions place →
      HasExtension other.extensions place := by
    intro place hextension
    obtain ⟨name, stem, ending, hname, htext, hstem, hending, hmem⟩ := hextension
    exact ⟨name, stem, ending, hname, htext, hstem, hending, hextensions _ hmem⟩
  cases h with
  | itself leads regular extension => exact .itself leads regular (hadmitted extension)
  | child leads regular visible extension =>
      exact .child leads regular visible (hadmitted extension)
  | below chosen leads isDirectory regular visible extension =>
      exact .below (hdirectories _ chosen) leads isDirectory regular visible (hadmitted extension)

theorem mem_map_components_sources_iff {components : List Path.Component} :
    components ∈ (selection.sources tree root).toList.map Path.components ↔
      ∃ path file, selection.IsSource tree root path file ∧ path.components = components := by
  have hmem := (collects_sources selection tree root).mem_iff components
  rw [List.mem_map]
  refine ⟨fun h => ?_, fun h => ?_⟩
  · obtain ⟨path, hpath, hcomponents⟩ := h
    obtain ⟨file, hlocate, -⟩ := (finds_of_mem_sources hpath).locateFrom
    obtain ⟨other, hother⟩ := (hmem file).mp ⟨path, hpath, hcomponents, hlocate⟩
    exact ⟨other, file, hother⟩
  · obtain ⟨path, file, hpath⟩ := h
    obtain ⟨other, hother, hcomponents, -⟩ := (hmem file).mpr ⟨path, hpath⟩
    exact ⟨other, hother, hcomponents⟩

/-- The files of a project are collected exactly, each in the first spelling that is
met. In which order the directories and extensions are given, and how often, makes no
difference up to spelling. -/
theorem sources_exact (selection : Selection) (tree : FileTree) (root : Path) :
    selection.Collects tree root (selection.sources tree root).toList ∧
      ∀ other : Selection,
        (∀ directory, directory ∈ other.directories ↔ directory ∈ selection.directories) →
        (∀ extension, extension ∈ other.extensions ↔ extension ∈ selection.extensions) →
        (other.sources tree root).toList.map Path.components =
          (selection.sources tree root).toList.map Path.components := by
  refine ⟨collects_sources selection tree root, fun other hdirectories hextensions => ?_⟩
  apply Path.map_components_eq_of_mem_iff
  intro components
  rw [mem_map_components_sources_iff, mem_map_components_sources_iff]
  refine exists_congr fun path => exists_congr fun file => and_congr_left fun _ => ?_
  exact ⟨fun h => h.of_mem_imp (fun _ => (hdirectories _).mp) fun _ => (hextensions _).mp,
    fun h => h.of_mem_imp (fun _ => (hdirectories _).mpr) fun _ => (hextensions _).mpr⟩

/-- Two directories that overlap and one with a hidden name, given in another order and
one of them twice. The file that two searches meet is spelled as in the first one. -/
theorem sources_exact_overlapping :
    let tree := FileTree.ofFiles
      [("/app/b.ts", "".toUTF8), ("/app/.a.ts", "".toUTF8), ("/app/s/x/c.ts", "".toUTF8),
        ("/app/s/.d/e.ts", "".toUTF8), ("/app/.f/g.ts", "".toUTF8)]
    let selection : Selection := ⟨["./s", "s/x", ".f"], ["js", "ts"]⟩
    let other : Selection := ⟨[".f", "s/x", "./s", "s/x"], ["ts", "js"]⟩
    (selection.sources tree ⟨"/app"⟩).toList =
        [⟨"/app/.f/g.ts"⟩, ⟨"/app/b.ts"⟩, ⟨"/app/./s/x/c.ts"⟩] ∧
      (other.sources tree ⟨"/app"⟩).toList =
        [⟨"/app/.f/g.ts"⟩, ⟨"/app/b.ts"⟩, ⟨"/app/s/x/c.ts"⟩] ∧
      (∀ directory, directory ∈ other.directories ↔ directory ∈ selection.directories) ∧
      (∀ extension, extension ∈ other.extensions ↔ extension ∈ selection.extensions) ∧
      (other.sources tree ⟨"/app"⟩).toList.map Path.components =
        (selection.sources tree ⟨"/app"⟩).toList.map Path.components := by
  intro tree selection other
  have hdirectories : ∀ directory,
      directory ∈ other.directories ↔ directory ∈ selection.directories := by
    intro directory
    simp only [other, selection, List.mem_cons, List.not_mem_nil, or_false]
    tauto
  have hextensions : ∀ extension,
      extension ∈ other.extensions ↔ extension ∈ selection.extensions := by
    intro extension
    simp only [other, selection, List.mem_cons, List.not_mem_nil, or_false]
    exact or_comm
  exact ⟨by decide +kernel, by decide +kernel, hdirectories, hextensions,
    (sources_exact selection tree ⟨"/app"⟩).2 other hdirectories hextensions⟩

end Selection

end DependencyAudit
