import DependencyAudit.Audit
import DependencyAudit.Proofs.Collecting

/-!
What a run is made of. Only the manifest of the project can stop a run; once it
has been read, the findings are a function of the manifest, of the packages that
the sources name and of the types packages in order.
-/

namespace DependencyAudit

/-- The tree that has nothing but these files and the directories on the way to
them; a file for which there is no room is left out. -/
def FileTree.ofFiles (files : List (String × ByteArray)) : FileTree :=
  files.foldl (fun tree file => (tree.writeFile? ⟨file.1⟩ file.2).getD tree) .empty

theorem eq_ok_of_toOption {ε α : Type} {result : Except ε α} {value : α}
    (h : result.toOption = some value) : result = .ok value := by
  cases result with
  | error e => cases h
  | ok value' => rw [Option.some.inj h]

theorem Findings.isIdle_iff {detected : NameSet} {name : String} :
    isIdle detected name = true ↔ name ∉ detected.toList ∧ name ∉ Package.implicits := by
  simp [isIdle, NameSet.contains, Package.isImplicit]

namespace Audit

variable {tree : FileTree} {working : Location} {root : Option Path} {selection : Selection}
  {outcome : Outcome}

/-- The place of the project, if the root leads anywhere. -/
def rootPlace (tree : FileTree) (working : Location) : Option Path → Except ReadError Location
  | none => .ok working
  | some path => tree.locateFrom working path

theorem rootPath_eq_ofLocation {place : Location}
    (h : rootPlace tree working root = .ok place) :
    rootPath tree working root = .ofLocation place := by
  cases root with
  | none => rw [rootPath, Except.ok.inj h]
  | some path =>
      have hlocate : tree.locateFrom working path = .ok place := h
      simp only [rootPath, hlocate]

theorem rootPath_empty (tree : FileTree) (working : Location) :
    rootPath tree working (some ⟨""⟩) = ⟨""⟩ :=
  rfl

/-- A root without a place has no manifest, unless it is empty: then the manifest is
the one in the working directory. -/
theorem exists_rootPlace_or_eq_empty {manifest : Location}
    (h : tree.locateFrom working (manifestPath (rootPath tree working root)) = .ok manifest) :
    (∃ place, rootPlace tree working root = .ok place) ∨ root = some ⟨""⟩ := by
  cases root with
  | none => exact .inl ⟨working, rfl⟩
  | some path =>
      cases hlocate : tree.locateFrom working path with
      | ok place => exact .inl ⟨place, hlocate⟩
      | error e =>
          by_cases hempty : path.text = ""
          · exact .inr (by rw [← hempty])
          · simp only [rootPath, hlocate] at h
            obtain ⟨parent, hparent⟩ :=
              FileTree.exists_locateFrom_of_join (by decide) hempty h
            rw [hlocate] at hparent
            cases hparent

theorem readManifest_eq_ok_iff {root : Path} {manifest : Manifest} :
    readManifest tree root working = .ok manifest ↔
      ∃ text, tree.readText (manifestPath root) working = .ok text ∧
        manifest = (Manifest.ofText? text).getD .empty := by
  rw [readManifest]
  cases htext : tree.readText (manifestPath root) working with
  | error e =>
      by_cases hfile : tree.isFile (manifestPath root) working = true <;> simp [hfile]
  | ok text => simp [FileTree.isFile_of_readText htext, eq_comm]

/-! ### Absolute roots -/

theorem isAbsolute_manifestPath {root : Path} (hroot : root.isAbsolute = true) :
    (manifestPath root).isAbsolute = true :=
  Path.isAbsolute_join_of_isAbsolute hroot _

theorem readManifest_of_isAbsolute {root : Path} (hroot : root.isAbsolute = true) :
    readManifest tree root working = readManifest tree root := by
  have hpath := isAbsolute_manifestPath hroot
  simp only [readManifest, FileTree.isFile_of_isAbsolute hpath,
    FileTree.readText_of_isAbsolute hpath]

theorem sourcesOf_of_isAbsolute {root : Path} (hroot : root.isAbsolute = true) :
    sourcesOf tree working root selection = (selection.sources tree root).toList := by
  rw [sourcesOf, Selection.withoutInput_of_isAbsolute hroot,
    Selection.sources_of_isAbsolute hroot]

/-! ### The empty root -/

/-- Under an empty root only the chosen directories count, as they are seen from the
working directory and without those that are taken for standard input. -/
theorem exists_mem_sourcesOf_empty_iff {file : Location} :
    (∃ path ∈ sourcesOf tree working ⟨""⟩ selection, tree.locateFrom working path = .ok file) ↔
      ∃ directory ∈ selection.directories, Selection.isStandardInput ⟨directory⟩ = false ∧
        ∃ base, tree.locateFrom working ⟨directory⟩ = .ok base ∧
          tree.entryAt base = some .directory ∧ selection.IsBelow tree base file := by
  rw [sourcesOf, Selection.exists_mem_sources_empty_iff]
  simp only [Selection.withoutInput, Path.join_empty, List.mem_filter, Bool.not_eq_true',
    and_assoc]
  rfl

/-- In the same directory, no root and an empty one: the latter has no files of its own. -/
example :
    let tree := FileTree.ofFiles
      [("/w/package.json", "\x7b\x7d".toUTF8), ("/w/a.ts", "from 'a'".toUTF8),
        ("/w/src/b.ts", "from 'b'".toUTF8)]
    let selection : Selection := ⟨["src"], ["ts"]⟩
    run tree ["w"] none selection = .ok ⟨⟨["a", "b"], ["a", "b"], []⟩, 2⟩ ∧
      run tree ["w"] (some ⟨""⟩) selection = .ok ⟨⟨["b"], ["b"], []⟩, 1⟩ := by
  decide +kernel

/-! ### Outcomes -/

/-- The packages that the sources of a project name. -/
def detectedAt (tree : FileTree) (working : Location) (root : Path) (selection : Selection) :
    NameSet :=
  detectedIn (.ofList ((sourcesOf tree working root selection).map (requestsOf tree working)))

/-- What an audit reports of a project with a given manifest. -/
def outcomeAt (tree : FileTree) (working : Location) (root : Path) (selection : Selection)
    (manifest : Manifest) : Outcome :=
  ⟨.classify (detectedAt tree working root selection) manifest
      (Types.usable tree root manifest.typesPackages working),
    (sourcesOf tree working root selection).length⟩

theorem runAt_eq_ok_iff {root : Path} :
    runAt tree working root selection = .ok outcome ↔
      ∃ manifest, readManifest tree root working = .ok manifest ∧
        outcome = outcomeAt tree working root selection manifest := by
  rw [runAt]
  cases hmanifest : readManifest tree root working with
  | error e => simp
  | ok manifest => simp [outcomeAt, detectedAt, eq_comm]

theorem exists_manifest_of_run (h : run tree working root selection = .ok outcome) :
    ∃ manifest, readManifest tree (rootPath tree working root) working = .ok manifest ∧
      outcome = outcomeAt tree working (rootPath tree working root) selection manifest :=
  runAt_eq_ok_iff.mp h

theorem outcome_eq_of_run {manifest : Manifest}
    (h : run tree working root selection = .ok outcome)
    (hmanifest : readManifest tree (rootPath tree working root) working = .ok manifest) :
    outcome = outcomeAt tree working (rootPath tree working root) selection manifest := by
  obtain ⟨manifest', hmanifest', houtcome⟩ := exists_manifest_of_run h
  rw [hmanifest] at hmanifest'
  rw [houtcome, Except.ok.inj hmanifest']

theorem detected_of_run (h : run tree working root selection = .ok outcome) :
    outcome.findings.detected =
      (detectedAt tree working (rootPath tree working root) selection).toList := by
  obtain ⟨manifest, -, houtcome⟩ := exists_manifest_of_run h
  simp only [houtcome, outcomeAt, Findings.classify]

end Audit

end DependencyAudit
