import DependencyAudit.Proofs.Collecting
import DependencyAudit.Proofs.Detection
import DependencyAudit.Proofs.Trimming

/-!
What a directory option chooses. The items of a list option lose the dots in
front of them and the slashes behind them, which is meant for extensions but
befalls directories too. A directory that begins with no dot is chosen as it is
written, with or without a slash behind it, and then the files that are scanned
are the root's own and those below the directory. One that does begin with a dot
is mistaken for the directory that is left without the dots; after `./` that is
an absolute path, which no longer lies in the project.
-/

namespace DependencyAudit

/-! ### Items of a list option -/

namespace Selection

/-- What an item is read as. -/
def readItem (item : List Char) : List Char :=
  (((Text.trim item).dropWhile (· = '.')).reverse.dropWhile (· = '/')).reverse

/-- A name without the dots in front of it. -/
def undotted (name : String) : String :=
  String.ofList (name.toList.dropWhile (· = '.'))

theorem readItem_eq {item : List Char} (htrim : Text.trim item = item)
    (hslash : item.getLast? ≠ some '/') : readItem item = item.dropWhile (· = '.') := by
  rw [readItem, htrim]
  refine List.rdropWhile_eq_self_iff.mpr fun hne => ?_
  obtain ⟨dots, hitem⟩ := List.dropWhile_suffix (· = '.') (l := item)
  intro hlast
  rw [decide_eq_true_eq] at hlast
  apply hslash
  rw [← hitem, List.getLast?_append_of_ne_nil _ hne, List.getLast?_eq_some_getLast hne, hlast]

/-- One more slash behind an item makes no difference. -/
theorem readItem_append_slash {item : List Char} (htrim : Text.trim item = item) :
    readItem (item ++ ['/']) = readItem item := by
  have hslash : Text.trim (item ++ ['/']) = item ++ ['/'] := by
    rw [Text.trim_append_cons (by decide), Text.trimStart_eq_self htrim]
    rfl
  have hdots : (item ++ ['/']).dropWhile (· = '.') = item.dropWhile (· = '.') ++ ['/'] := by
    rw [List.dropWhile_append]
    split
    next hempty => rw [List.isEmpty_iff.mp hempty]; rfl
    next => rfl
  rw [readItem, readItem, hslash, hdots, htrim]
  exact List.rdropWhile_concat_pos _ _ _ (by decide)

theorem readList_of_not_mem {value : String} (hcomma : ',' ∉ value.toList) :
    readList value = ([readItem value.toList].filter (· ≠ [])).map String.ofList := by
  rw [readList, List.splitOn_eq_singleton hcomma]
  rfl

theorem readList_append_slash {value : String} (hcomma : ',' ∉ value.toList)
    (htrim : Text.trim value.toList = value.toList) :
    readList (value ++ "/") = readList value := by
  have htext : (value ++ "/").toList = value.toList ++ ['/'] := by
    rw [String.toList_append]
    rfl
  rw [readList_of_not_mem hcomma, readList_of_not_mem (by simp [htext, hcomma]), htext,
    readItem_append_slash htrim]

theorem mem_readList_iff {value directory : String} (hcomma : ',' ∉ value.toList)
    (htrim : Text.trim value.toList = value.toList) (hslash : value.toList.getLast? ≠ some '/') :
    directory ∈ readList value ↔ directory = undotted value ∧ undotted value ≠ "" := by
  rw [readList_of_not_mem hcomma, readItem_eq htrim hslash, undotted]
  by_cases hempty : value.toList.dropWhile (· = '.') = []
  · simp [hempty]
  · simp [hempty]

theorem undotted_eq_self {value : String} (h : value.toList.head? ≠ some '.') :
    undotted value = value := by
  rw [undotted, List.dropWhile_eq_self_iff.mpr, String.ofList_toList]
  intro hne hdot
  rw [decide_eq_true_eq] at hdot
  apply h
  rw [List.head?_eq_getElem?, List.getElem?_eq_getElem hne, hdot]

end Selection

/-! ### Audits of one chosen directory -/

namespace Audit

variable {tree : FileTree} {working : Location} {root : Option Path} {selection : Selection}
  {manifest : Manifest} {place base : Location} {files : Location → Prop} {directory : String}
  {extensions : List String}

/-- An outcome that comes from scanning some files and no others, each of them
by a path that leads to it. -/
structure Outcome.Scans (outcome : Outcome) (tree : FileTree) (paths : List Path)
    (files : Location → Prop) : Prop where
  mem_iff : ∀ file, files file ↔ ∃ path ∈ paths, tree.locate path = .ok file
  filesScanned : outcome.filesScanned = paths.length
  mem_detected : ∀ name, name ∈ outcome.findings.detected ↔
    ∃ file, files file ∧ ∃ text, tree.entryAt file = some (.file (String.toUTF8 text)) ∧
      ∃ specifier ∈ Import.specifiersInText text,
        Package.nameOf specifier.request = some name ∧ name ∉ Package.builtins

theorem outcomeAt_scans {root : Path} (hroot : root.isAbsolute = true)
    (h : ∀ file, files file ↔
      ∃ path ∈ (selection.sources tree root).toList, tree.locate path = .ok file) :
    (outcomeAt tree working root selection manifest).Scans tree
      (selection.sources tree root).toList files where
  mem_iff := h
  filesScanned := by rw [outcomeAt, sourcesOf_of_isAbsolute hroot]
  mem_detected name := by
    have hleads : ∀ path ∈ (selection.sources tree root).toList,
        tree.locateFrom working path = tree.locate path := fun path hpath =>
      FileTree.locateFrom_of_isAbsolute (Selection.isAbsolute_of_mem_sources hroot hpath) working
    simp only [outcomeAt, Findings.classify, mem_detectedAt, sourcesOf_of_isAbsolute hroot,
      FileTree.readText_eq_ok_iff]
    refine ⟨fun hname => ?_, fun hname => ?_⟩
    · obtain ⟨path, hpath, text, ⟨file, hlocate, hentry⟩, hspecifier⟩ := hname
      rw [hleads path hpath] at hlocate
      exact ⟨file, (h file).mpr ⟨path, hpath, hlocate⟩, text, hentry, hspecifier⟩
    · obtain ⟨file, hfile, text, hentry, hspecifier⟩ := hname
      obtain ⟨path, hpath, hlocate⟩ := (h file).mp hfile
      rw [← hleads path hpath] at hlocate
      exact ⟨path, hpath, text, ⟨file, hlocate, hentry⟩, hspecifier⟩

/-- The name leads from a place to a directory. -/
def LeadsTo (tree : FileTree) (place : Location) (name : String) (base : Location) : Prop :=
  tree.locate ((Path.ofLocation place).join name) = .ok base ∧
    tree.entryAt base = some .directory

/-- A directory option chooses the directory that its value leads to when the
dots in front are dropped, with or without a slash behind it. A value that does
not begin with a dot is a path from the root. -/
theorem run_directory_option (hroot : rootPlace tree working root = .ok place)
    (hexists : tree.entryAt place = some .directory)
    (hmanifest : readManifest tree (.ofLocation place) = .ok manifest)
    (hcomma : ',' ∉ directory.toList) (htrim : Text.trim directory.toList = directory.toList)
    (hslash : directory.toList.getLast? ≠ some '/') (hbase : LeadsTo tree place directory base) :
    let selection : Selection := ⟨Selection.readList directory, extensions⟩
    let paths := (selection.sources tree (.ofLocation place)).toList
    ∃ outcome, run tree working root selection = .ok outcome ∧
      run tree working root ⟨Selection.readList (directory ++ "/"), extensions⟩ = .ok outcome ∧
      outcome.Scans tree paths (fun file => selection.IsDirectlyIn tree place file ∨
        Selection.undotted directory ≠ "" ∧
          ∃ base, LeadsTo tree place (Selection.undotted directory) base ∧
            selection.IsBelow tree base file) ∧
      (directory ≠ "" → directory.toList.head? ≠ some '.' →
        outcome.Scans tree paths fun file =>
          selection.IsDirectlyIn tree place file ∨ selection.IsBelow tree base file) := by
  intro selection paths
  have hlocate : tree.locate (.ofLocation place) = .ok place :=
    FileTree.locate_ofLocation (by simp [hexists])
  have hfiles : ∀ file, (∃ path ∈ paths, tree.locate path = .ok file) ↔
      selection.IsDirectlyIn tree place file ∨
        Selection.undotted directory ≠ "" ∧
          ∃ base, LeadsTo tree place (Selection.undotted directory) base ∧
            selection.IsBelow tree base file := by
    intro file
    rw [Selection.exists_mem_sources_iff_place hlocate hexists]
    simp only [selection, Selection.mem_readList_iff hcomma htrim hslash, LeadsTo, and_assoc,
      exists_eq_left]
  have habsolute := Path.isAbsolute_ofLocation place
  have hrun : run tree working root selection =
      .ok (outcomeAt tree working (.ofLocation place) selection manifest) := by
    rw [run, rootPath_eq_ofLocation hroot, runAt_eq_ok_iff]
    exact ⟨manifest, by rw [readManifest_of_isAbsolute habsolute, hmanifest], rfl⟩
  refine ⟨_, hrun, ?_, outcomeAt_scans habsolute fun file => (hfiles file).symm,
    fun hne hdot => ?_⟩
  · rw [Selection.readList_append_slash hcomma htrim]
    exact hrun
  · refine outcomeAt_scans habsolute fun file => ?_
    rw [hfiles, Selection.undotted_eq_self hdot]
    refine or_congr_right ⟨fun hbelow => ⟨hne, base, hbase, hbelow⟩, fun hfound => ?_⟩
    obtain ⟨-, other, hother, hbelow⟩ := hfound
    have hsame := hbase.1
    rw [hother.1] at hsame
    rwa [← Except.ok.inj hsame]

/-- A path that leads up again, to a directory whose own name begins with a dot. -/
theorem run_directory_option_parent :
    let tree := FileTree.ofFiles
      [("/app/package.json", "\x7b\x7d".toUTF8), ("/app/a.ts", "from 'a'".toUTF8),
        ("/app/x/b.ts", "from 'b'".toUTF8), ("/app/.l/c.ts", "from 'c'".toUTF8),
        ("/app/.l/.d/e.ts", "from 'e'".toUTF8)]
    let selection : Selection := ⟨Selection.readList "x/../.l", ["ts"]⟩
    LeadsTo tree ["app"] "x/../.l" ["app", ".l"] ∧
      ∃ outcome, run tree [] (some ⟨"app"⟩) selection = .ok outcome ∧
        run tree [] (some ⟨"app"⟩) ⟨Selection.readList "x/../.l/", ["ts"]⟩ = .ok outcome ∧
        outcome.Scans tree (selection.sources tree (.ofLocation ["app"])).toList fun file =>
          selection.IsDirectlyIn tree ["app"] file ∨
            selection.IsBelow tree ["app", ".l"] file := by
  intro tree selection
  have hroot : (rootPlace tree [] (some ⟨"app"⟩)).toOption = some ["app"] := by decide +kernel
  have hmanifest : (readManifest tree (.ofLocation ["app"])).toOption = some .empty := by
    decide +kernel
  have hbase : (tree.locate ((Path.ofLocation ["app"]).join "x/../.l")).toOption =
      some ["app", ".l"] := by decide +kernel
  have hleads : LeadsTo tree ["app"] "x/../.l" ["app", ".l"] :=
    ⟨eq_ok_of_toOption hbase, by decide +kernel⟩
  obtain ⟨outcome, hrun, hslash, -, hscans⟩ :=
    @run_directory_option _ _ _ _ _ _ "x/../.l" ["ts"] (eq_ok_of_toOption hroot)
      (by decide +kernel) (eq_ok_of_toOption hmanifest) (by decide) (by decide) (by decide) hleads
  exact ⟨hleads, outcome, hrun, hslash, hscans (by decide) (by decide)⟩

/-- The dots in front of a directory are dropped: another directory is scanned in
its place, or none at all if it was written from `./`. -/
theorem dotted_directory_not_scanned :
    let tree := FileTree.ofFiles
      [("/app/package.json", "\x7b\x7d".toUTF8), ("/app/.pages/a.ts", "from 'a'".toUTF8),
        ("/app/pages/b.ts", "from 'b'".toUTF8)]
    let hidden : Selection := ⟨Selection.readList ".pages", ["ts"]⟩
    let nested : Selection := ⟨Selection.readList "./pages", ["ts"]⟩
    let found : Outcome := ⟨⟨["b"], ["b"], []⟩, 1⟩
    let nothing : Outcome := ⟨⟨[], [], []⟩, 0⟩
    LeadsTo tree ["app"] ".pages" ["app", ".pages"] ∧
      (run tree ["app"] none hidden).toOption = some found ∧
      (¬ found.Scans tree (hidden.sources tree (.ofLocation ["app"])).toList fun file =>
        hidden.IsDirectlyIn tree ["app"] file ∨ hidden.IsBelow tree ["app", ".pages"] file) ∧
      LeadsTo tree ["app"] "./pages" ["app", "pages"] ∧
      (run tree ["app"] none nested).toOption = some nothing ∧
      ¬ nothing.Scans tree (nested.sources tree (.ofLocation ["app"])).toList fun file =>
        nested.IsDirectlyIn tree ["app"] file ∨ nested.IsBelow tree ["app", "pages"] file := by
  intro tree hidden nested found nothing
  have hhidden : (tree.locate ((Path.ofLocation ["app"]).join ".pages")).toOption =
      some ["app", ".pages"] := by decide +kernel
  have hnested : (tree.locate ((Path.ofLocation ["app"]).join "./pages")).toOption =
      some ["app", "pages"] := by decide +kernel
  have hother : (tree.locate ⟨"/app/pages/b.ts"⟩).toOption = some ["app", "pages", "b.ts"] := by
    decide +kernel
  have hpaths : (hidden.sources tree (.ofLocation ["app"])).toList = [⟨"/app/pages/b.ts"⟩] := by
    decide +kernel
  have hnone : (nested.sources tree (.ofLocation ["app"])).toList = [] := by decide +kernel
  have ha : hidden.IsBelow tree ["app", ".pages"] ["app", ".pages", "a.ts"] :=
    ⟨by decide +kernel, by decide +kernel, ["a.ts"], rfl, by decide +kernel⟩
  have hb : nested.IsBelow tree ["app", "pages"] ["app", "pages", "b.ts"] :=
    ⟨by decide +kernel, by decide +kernel, ["b.ts"], rfl, by decide +kernel⟩
  refine ⟨⟨eq_ok_of_toOption hhidden, by decide +kernel⟩, by decide +kernel, fun hscans => ?_,
    ⟨eq_ok_of_toOption hnested, by decide +kernel⟩, by decide +kernel, fun hscans => ?_⟩
  · obtain ⟨path, hpath, hlocate⟩ := (hscans.mem_iff _).mp (.inr ha)
    rw [hpaths, List.mem_singleton] at hpath
    rw [hpath, eq_ok_of_toOption hother] at hlocate
    exact absurd (Except.ok.inj hlocate) (by decide)
  · obtain ⟨path, hpath, -⟩ := (hscans.mem_iff _).mp (.inr hb)
    rw [hnone] at hpath
    cases hpath

end Audit

end DependencyAudit
