import DependencyAudit.Proofs.Consistency
import DependencyAudit.Proofs.Detection
import DependencyAudit.Proofs.Searches

/-!
What an audit depends on. A run reads the manifest first and stops if that is
missing or no text; nothing that is read later can stop it. From there on the
result is a function of the manifest, of the contents of the sources and of the
installed types packages, and the last of these are only looked at for the unused
types packages. So two trees that agree on the project lead to the same result,
whatever else is in them.

A manifest is a file like any other, though: if the extension `json` is chosen, it
is scanned as well.
-/

namespace DependencyAudit

/-! ### Contents of files -/

namespace FileTree

variable {tree tree' : FileTree} {working place : Location} {path : Path}

/-- The content of the file that a path leads to. -/
def contentFrom? (tree : FileTree) (working : Location) (path : Path) : Option ByteArray :=
  match tree.locateFrom working path with
  | .error _ => none
  | .ok place =>
    match tree.entryAt place with
    | some (.file content) => some content
    | _ => none

theorem contentFrom?_eq_some_iff {content : ByteArray} :
    tree.contentFrom? working path = some content ↔
      ∃ place, tree.locateFrom working path = .ok place ∧
        tree.entryAt place = some (.file content) := by
  rw [contentFrom?]
  cases tree.locateFrom working path with
  | error e => simp
  | ok place =>
      cases hentry : tree.entryAt place with
      | none => simp [hentry]
      | some entry => cases entry <;> simp [hentry]

theorem isFile_eq_isSome_contentFrom? :
    tree.isFile path working = (tree.contentFrom? working path).isSome := by
  rw [isFile, contentFrom?]
  cases tree.locateFrom working path with
  | error e => rfl
  | ok place =>
      cases hentry : tree.entryAt place with
      | none => simp [isFileAt, hentry]
      | some entry => cases entry <;> simp [isFileAt, hentry]

theorem readText_eq_ok_iff_contentFrom? {text : String} :
    tree.readText path working = .ok text ↔
      tree.contentFrom? working path = some text.toUTF8 := by
  rw [readText_eq_ok_iff, contentFrom?_eq_some_iff]

theorem readText_eq_notText {content : ByteArray}
    (h : tree.contentFrom? working path = some content)
    (hinvalid : ∀ text, content ≠ String.toUTF8 text) :
    tree.readText path working = .error .notText := by
  obtain ⟨place, hplace, hentry⟩ := contentFrom?_eq_some_iff.mp h
  have htext : String.fromUTF8? content = none := by
    rw [Option.eq_none_iff_forall_ne_some]
    intro text htext
    exact hinvalid text (fromUTF8?_eq_some_iff.mp htext)
  simp only [readText, hplace, hentry, htext]

/-- Trees need only be compared at the places that they list. -/
theorem entryAt_eq_of_places
    (h : ∀ other ∈ tree.places ++ tree'.places, other ≠ place →
      tree'.entryAt other = tree.entryAt other) (other : Location) (hother : other ≠ place) :
    tree'.entryAt other = tree.entryAt other := by
  by_cases hmem : other ∈ tree.places ++ tree'.places
  · exact h other hmem hother
  · rw [List.mem_append, not_or] at hmem
    rw [not_imp_comm.mp (tree.complete other) hmem.1, not_imp_comm.mp (tree'.complete other) hmem.2]

/-! ### Trees that differ in contents only -/

/-- The trees have their directories at the same places, and their files too. -/
def SameShape (tree tree' : FileTree) : Prop :=
  ∀ place, tree.entryAt place = tree'.entryAt place ∨
    ∃ content content', tree.entryAt place = some (.file content) ∧
      tree'.entryAt place = some (.file content')

namespace SameShape

theorem directory_iff (h : tree.SameShape tree') :
    tree.entryAt place = some .directory ↔ tree'.entryAt place = some .directory := by
  rcases h place with heq | ⟨content, content', hfile, hfile'⟩
  · rw [heq]
  · simp [hfile, hfile']

theorem isFileAt_eq (h : tree.SameShape tree') : tree.isFileAt place = tree'.isFileAt place := by
  rcases h place with heq | ⟨content, content', hfile, hfile'⟩
  · rw [isFileAt, isFileAt, heq]
  · simp [isFileAt, hfile, hfile']

theorem isSome_entryAt_eq (h : tree.SameShape tree') :
    (tree.entryAt place).isSome = (tree'.entryAt place).isSome := by
  rcases h place with heq | ⟨content, content', hfile, hfile'⟩
  · rw [heq]
  · simp [hfile, hfile']

theorem locateFrom_eq (h : tree.SameShape tree') :
    tree.locateFrom working path = tree'.locateFrom working path := by
  have hstep : tree.step = tree'.step := by
    funext location segment
    simp only [step, ne_eq, h.directory_iff, h.isSome_entryAt_eq]
  rw [locateFrom, locateFrom, hstep]

theorem isDirectory_eq (h : tree.SameShape tree') :
    tree.isDirectory path working = tree'.isDirectory path working := by
  rw [Bool.eq_iff_iff, isDirectory_iff, isDirectory_iff]
  simp only [h.locateFrom_eq, h.directory_iff]

theorem searches_eq (h : tree.SameShape tree') (selection : Selection) (root : Path) :
    selection.searches tree root working = selection.searches tree' root working := by
  rw [Selection.searches, Selection.searches]
  refine congrArg (_ :: List.map _ ·) (List.filter_congr fun base _ => ?_)
  exact h.isDirectory_eq

theorem meets_iff (h : tree.SameShape tree') {selection : Selection}
    {search : Path × Option Nat} :
    selection.Meets tree search path working ↔ selection.Meets tree' search path working := by
  simp only [Selection.Meets, h.locateFrom_eq, h.isFileAt_eq]

/-- What is collected does not depend on what is in the files. -/
theorem sources_eq (h : tree.SameShape tree') (selection : Selection) (root : Path) :
    (selection.sources tree root working).toList =
      (selection.sources tree' root working).toList := by
  apply Ascending.toList_eq_of_mem_iff
  intro path
  simp only [Selection.mem_sources_iff_first, h.searches_eq, h.meets_iff]

end SameShape

end FileTree

namespace Audit

variable {tree tree' : FileTree} {working place : Location} {root : Option Path}
  {selection : Selection}

/-! ### Reading the manifest -/

/-- The content of the manifest, if there is a file in its place. -/
def manifestContent? (tree : FileTree) (working : Location) (root : Option Path) :
    Option ByteArray :=
  tree.contentFrom? working (manifestPath (rootPath tree working root))

theorem run_of_no_manifest (h : manifestContent? tree working root = none) :
    run tree working root selection =
      .error (.manifestMissing (manifestPath (rootPath tree working root))) := by
  have hfile : tree.isFile (manifestPath (rootPath tree working root)) working = false := by
    rw [manifestContent?] at h
    rw [FileTree.isFile_eq_isSome_contentFrom?, h, Option.isSome_none]
  simp [run, runAt, readManifest, hfile]

theorem run_of_broken_manifest {content : ByteArray}
    (h : manifestContent? tree working root = some content)
    (hinvalid : ∀ text, content ≠ String.toUTF8 text) :
    run tree working root selection =
      .error (.unreadable (manifestPath (rootPath tree working root)) .notText) := by
  rw [manifestContent?] at h
  have hfile : tree.isFile (manifestPath (rootPath tree working root)) working = true := by
    rw [FileTree.isFile_eq_isSome_contentFrom?, h, Option.isSome_some]
  simp [run, runAt, readManifest, hfile, FileTree.readText_eq_notText h hinvalid]

theorem run_of_manifest {text : String}
    (h : manifestContent? tree working root = some text.toUTF8) :
    run tree working root selection =
      .ok (outcomeAt tree working (rootPath tree working root) selection
        ((Manifest.ofText? text).getD .empty)) := by
  rw [manifestContent?, ← FileTree.readText_eq_ok_iff_contentFrom?] at h
  rw [run, runAt_eq_ok_iff]
  exact ⟨_, readManifest_eq_ok_iff.mpr ⟨text, h, rfl⟩, rfl⟩

/-- The ways in which the manifest of a project can stop a run: there is no file in its
place, or the file is no text. -/
inductive Stops (tree : FileTree) (working : Location) (root : Option Path) : Error → Prop
  | missing (absent : manifestContent? tree working root = none) :
      Stops tree working root (.manifestMissing (manifestPath (rootPath tree working root)))
  | notText {content : ByteArray} (present : manifestContent? tree working root = some content)
      (invalid : ∀ text, content ≠ String.toUTF8 text) :
      Stops tree working root
        (.unreadable (manifestPath (rootPath tree working root)) .notText)

theorem run_eq_error_iff {error : Error} :
    run tree working root selection = .error error ↔ Stops tree working root error := by
  cases hcontent : manifestContent? tree working root with
  | none =>
      rw [run_of_no_manifest hcontent, Except.error.injEq]
      refine ⟨fun h => h ▸ .missing hcontent, fun h => ?_⟩
      cases h with
      | missing => rfl
      | notText present => rw [hcontent] at present; cases present
  | some content =>
      by_cases htext : ∃ text, content = String.toUTF8 text
      · obtain ⟨text, rfl⟩ := htext
        rw [run_of_manifest hcontent]
        refine ⟨nofun, fun h => ?_⟩
        cases h with
        | missing absent => rw [hcontent] at absent; cases absent
        | notText present invalid =>
            rw [hcontent] at present
            exact absurd (Option.some.inj present).symm (invalid text)
      · rw [run_of_broken_manifest hcontent (not_exists.mp htext), Except.error.injEq]
        refine ⟨fun h => h ▸ .notText hcontent (not_exists.mp htext), fun h => ?_⟩
        cases h with
        | missing absent => rw [hcontent] at absent; cases absent
        | notText => rfl

/-! ### What a run depends on -/

theorem requestsOf_eq {file : Path}
    (h : tree.contentFrom? working file = tree'.contentFrom? working file) :
    requestsOf tree working file = requestsOf tree' working file := by
  have hread : ∀ text,
      tree.readText file working = .ok text ↔ tree'.readText file working = .ok text := by
    intro text
    rw [FileTree.readText_eq_ok_iff_contentFrom?, FileTree.readText_eq_ok_iff_contentFrom?, h]
  rw [requestsOf, requestsOf, specifiersOf, specifiersOf]
  cases htext : tree.readText file working with
  | ok text => rw [(hread text).mp htext]
  | error e =>
      cases htext' : tree'.readText file working with
      | ok text => rw [(hread text).mpr htext'] at htext; cases htext
      | error e' => rfl

/-- The packages that sources name are a matter of the sources and their requests. -/
theorem detectedAt_eq {root : Path}
    (hsources : sourcesOf tree working root selection = sourcesOf tree' working root selection)
    (hrequests : ∀ file ∈ sourcesOf tree working root selection,
      requestsOf tree working file = requestsOf tree' working file) :
    detectedAt tree working root selection = detectedAt tree' working root selection := by
  rw [detectedAt, detectedAt, ← hsources, List.map_congr_left hrequests]

theorem sourcesOf_eq_of_sameShape (h : tree.SameShape tree') (working : Location) (root : Path)
    (selection : Selection) :
    sourcesOf tree working root selection = sourcesOf tree' working root selection :=
  h.sources_eq (selection.withoutInput root) root

/-- The files that a run collects. -/
def collected (tree : FileTree) (working : Location) (root : Option Path)
    (selection : Selection) : List Path :=
  sourcesOf tree working (rootPath tree working root) selection

/-! ### A manifest that is no JSON -/

/-- The file at a place is no JSON in the one tree and an empty object in the other.
All other entries are the same. -/
structure Empties (tree tree' : FileTree) (place : Location) (text : String) : Prop where
  broken : tree.entryAt place = some (.file text.toUTF8)
  noJson : Json.ofText? text = none
  emptied : tree'.entryAt place = some (.file (String.toUTF8 "\x7b\x7d"))
  elsewhere : ∀ other, other ≠ place → tree'.entryAt other = tree.entryAt other

theorem Empties.sameShape {text : String} (h : Empties tree tree' place text) :
    tree.SameShape tree' := by
  intro other
  by_cases hother : other = place
  · rw [hother]
    exact .inr ⟨_, _, h.broken, h.emptied⟩
  · exact .inl (h.elsewhere other hother).symm

theorem outcomeAt_empty (tree : FileTree) (working : Location) (root : Path)
    (selection : Selection) :
    outcomeAt tree working root selection .empty =
      ⟨.classify (detectedAt tree working root selection) .empty [],
        (sourcesOf tree working root selection).length⟩ :=
  rfl

theorem requestsOf_eq_empty {file : Path} {text : String}
    (h : tree.readText file working = .ok text) (hnone : Import.specifiersInText text = []) :
    requestsOf tree working file = .ofList [] := by
  rw [requestsOf, specifiersOf, h, Except.map, hnone]
  rfl

theorem Empties.requestsOf_eq {text : String} {file : Path} (h : Empties tree tree' place text)
    (hnone : tree.locateFrom working file = .ok place → Import.specifiersInText text = []) :
    requestsOf tree working file = requestsOf tree' working file := by
  by_cases hfile : tree.locateFrom working file = .ok place
  · have hfile' : tree'.locateFrom working file = .ok place := by
      rwa [← h.sameShape.locateFrom_eq]
    have hread : tree.readText file working = .ok text :=
      FileTree.readText_eq_ok_iff.mpr ⟨place, hfile, h.broken⟩
    have hread' : tree'.readText file working = .ok "\x7b\x7d" :=
      FileTree.readText_eq_ok_iff.mpr ⟨place, hfile', h.emptied⟩
    rw [requestsOf_eq_empty hread (hnone hfile), requestsOf_eq_empty hread' (by decide)]
  · apply Audit.requestsOf_eq
    ext1 content
    rw [FileTree.contentFrom?_eq_some_iff, FileTree.contentFrom?_eq_some_iff,
      h.sameShape.locateFrom_eq]
    refine exists_congr fun other => and_congr_right fun hother => ?_
    rw [h.elsewhere]
    rintro rfl
    exact hfile (by rwa [h.sameShape.locateFrom_eq])

theorem Empties.rootPath_eq {text : String} (h : Empties tree tree' place text) :
    rootPath tree' working root = rootPath tree working root := by
  cases root with
  | none => rfl
  | some path => simp only [rootPath, h.sameShape.locateFrom_eq]

theorem Empties.exists_run {text : String} (h : Empties tree tree' place text)
    (hmanifest :
      tree.locateFrom working (manifestPath (rootPath tree working root)) = .ok place)
    (hnone : ∀ file ∈ collected tree working root selection,
      tree.locateFrom working file = .ok place → Import.specifiersInText text = []) :
    ∃ outcome, run tree working root selection = .ok outcome ∧
      run tree' working root selection = .ok outcome := by
  have hcontent : manifestContent? tree working root = some text.toUTF8 :=
    FileTree.contentFrom?_eq_some_iff.mpr ⟨place, hmanifest, h.broken⟩
  have hcontent' : manifestContent? tree' working root = some (String.toUTF8 "\x7b\x7d") := by
    refine FileTree.contentFrom?_eq_some_iff.mpr ⟨place, ?_, h.emptied⟩
    rw [← h.sameShape.locateFrom_eq, h.rootPath_eq, hmanifest]
  have hbroken : (Manifest.ofText? text).getD .empty = .empty := by
    rw [Manifest.ofText?, h.noJson]
    rfl
  have hbraces : (Manifest.ofText? "\x7b\x7d").getD .empty = .empty := by decide
  have hsources :=
    sourcesOf_eq_of_sameShape h.sameShape working (rootPath tree working root) selection
  have hdetected := detectedAt_eq hsources fun file hfile => h.requestsOf_eq (hnone file hfile)
  have houtcome : outcomeAt tree working (rootPath tree working root) selection .empty =
      outcomeAt tree' working (rootPath tree working root) selection .empty := by
    rw [outcomeAt_empty, outcomeAt_empty, hdetected, hsources]
  rw [run_of_manifest hcontent, run_of_manifest hcontent', hbroken, hbraces, h.rootPath_eq,
    houtcome]
  exact ⟨_, rfl, rfl⟩

/-! ### Trees with the same project -/

/-- The root leads somewhere, be it to a directory or not. -/
def RootExists (tree : FileTree) (working : Location) (root : Option Path) : Prop :=
  ∃ place, rootPlace tree working root = .ok place

/-- An empty root leads nowhere in any tree. -/
theorem not_rootExists_empty : ¬ RootExists tree working (some ⟨""⟩) := by
  intro ⟨place, hplace⟩
  cases hplace

/-- The trees have the same manifest for a run, and the same files to collect with the
same contents. -/
structure SameProject (tree tree' : FileTree) (working : Location) (root : Option Path)
    (selection : Selection) : Prop where
  manifest : manifestContent? tree working root = manifestContent? tree' working root
  collected : collected tree working root selection = collected tree' working root selection
  contents : ∀ file ∈ Audit.collected tree working root selection,
    tree.contentFrom? working file = tree'.contentFrom? working file

/-- Results of runs that differ in nothing but unused types packages. -/
inductive AgreeButTypes : Except Error Outcome → Except Error Outcome → Prop
  | error (error : Error) : AgreeButTypes (.error error) (.error error)
  | ok {outcome outcome' : Outcome}
      (detected : outcome.findings.detected = outcome'.findings.detected)
      (missing : outcome.findings.missing = outcome'.findings.missing)
      (filesScanned : outcome.filesScanned = outcome'.filesScanned)
      (plainUnused : (outcome.findings.unused.filter fun name => !Manifest.isTypesName name) =
        outcome'.findings.unused.filter fun name => !Manifest.isTypesName name) :
      AgreeButTypes (.ok outcome) (.ok outcome')

/-- A tree decides whether the root leads anywhere, but not where to. -/
theorem rootPlace_unique {place' : Location} (h : rootPlace tree working root = .ok place)
    (h' : rootPlace tree' working root = .ok place') : place = place' := by
  cases root with
  | none => exact Except.ok.inj (h.symm.trans h')
  | some path =>
      rw [FileTree.eq_lexicalFrom_of_locateFrom h, FileTree.eq_lexicalFrom_of_locateFrom h']

theorem rootPath_eq_of_iff (h : RootExists tree working root ↔ RootExists tree' working root) :
    rootPath tree working root = rootPath tree' working root := by
  by_cases hroot : RootExists tree working root
  · obtain ⟨place, hplace⟩ := hroot
    obtain ⟨place', hplace'⟩ := h.mp ⟨place, hplace⟩
    rw [rootPath_eq_ofLocation hplace, rootPath_eq_ofLocation hplace',
      rootPlace_unique hplace hplace']
  · cases root with
    | none => rfl
    | some path =>
        cases hlocate : tree.locateFrom working path with
        | ok place => exact absurd ⟨place, hlocate⟩ hroot
        | error e =>
            cases hlocate' : tree'.locateFrom working path with
            | ok place => exact absurd (h.mpr ⟨place, hlocate'⟩) hroot
            | error e' => simp only [rootPath, hlocate, hlocate']

theorem filter_plain_unused_classify (start : Path) (detected : NameSet) (manifest : Manifest) :
    ((Findings.classify detected manifest
        (Types.usable tree start manifest.typesPackages working)).unused.filter fun name =>
          !Manifest.isTypesName name) = Findings.plainUnused detected manifest := by
  rw [Findings.unused_classify_eq, List.filter_append, List.filter_eq_self.mpr,
    List.filter_eq_nil_iff.mpr, List.append_nil]
  · intro name hname
    have htypes := (Manifest.mem_typesPackages.mp (List.mem_filter.mp hname).1).2
    simp [htypes]
  · intro name hname
    simp [(Findings.mem_plainUnused.mp hname).2.1]

theorem SameProject.agree (h : SameProject tree tree' working root selection)
    (hroot : RootExists tree working root ↔ RootExists tree' working root) :
    AgreeButTypes (run tree working root selection) (run tree' working root selection) := by
  have hmanifest := h.manifest
  have hpath := rootPath_eq_of_iff hroot
  cases hcontent : manifestContent? tree working root with
  | none =>
      rw [hcontent] at hmanifest
      rw [run_of_no_manifest hcontent, run_of_no_manifest hmanifest.symm, hpath]
      exact .error _
  | some content =>
      rw [hcontent] at hmanifest
      by_cases htext : ∃ text, content = String.toUTF8 text
      · obtain ⟨text, rfl⟩ := htext
        have hsources := h.collected
        have hcontents := h.contents
        rw [Audit.collected, hpath] at hsources hcontents
        rw [Audit.collected] at hsources
        have hdetected := detectedAt_eq hsources fun file hfile =>
          requestsOf_eq (hcontents file hfile)
        rw [run_of_manifest hcontent, run_of_manifest hmanifest.symm, hpath]
        refine .ok ?_ ?_ ?_ ?_
        · simp only [outcomeAt, Findings.classify, hdetected]
        · simp only [outcomeAt, Findings.classify, hdetected]
        · simp only [outcomeAt, hsources]
        · simp only [outcomeAt, filter_plain_unused_classify, hdetected]
      · have hinvalid := not_exists.mp htext
        rw [run_of_broken_manifest hcontent hinvalid,
          run_of_broken_manifest hmanifest.symm hinvalid, hpath]
        exact .error _

theorem rootExists_or_eq_empty {content : ByteArray}
    (h : manifestContent? tree working root = some content) :
    RootExists tree working root ∨ root = some ⟨""⟩ := by
  obtain ⟨place, hplace, -⟩ := FileTree.contentFrom?_eq_some_iff.mp h
  exact exists_rootPlace_or_eq_empty hplace

/-- If only one of the trees has the root, then neither has a manifest. -/
theorem SameProject.manifestContent?_eq_none (h : SameProject tree tree' working root selection)
    (hroot : ¬ (RootExists tree working root ↔ RootExists tree' working root)) :
    manifestContent? tree working root = none ∧ manifestContent? tree' working root = none := by
  rw [← h.manifest, and_self]
  cases hcontent : manifestContent? tree working root with
  | none => rfl
  | some content =>
      have hcontent' : manifestContent? tree' working root = some content := by
        rw [← h.manifest, hcontent]
      rcases rootExists_or_eq_empty hcontent with hexists | rfl
      · rcases rootExists_or_eq_empty hcontent' with hexists' | rfl
        · exact absurd (iff_of_true hexists hexists') hroot
        · exact absurd hexists not_rootExists_empty
      · exact absurd (iff_of_false not_rootExists_empty not_rootExists_empty) hroot

/-- Only the manifest can stop a run, and one that is no JSON counts as an empty one,
unless it is itself scanned and imports anything. Whatever is in the tree besides the
project has an influence on unused types packages alone; only how a missing manifest is
named depends on whether the root leads anywhere. -/
theorem run_depends_on_project (tree : FileTree) (working : Location) (root : Option Path)
    (selection : Selection) :
    (∀ error, run tree working root selection = .error error ↔ Stops tree working root error) ∧
      (∀ tree' place text,
        tree.locateFrom working (manifestPath (rootPath tree working root)) = .ok place →
        Empties tree tree' place text →
        (∀ file ∈ collected tree working root selection,
          tree.locateFrom working file = .ok place → Import.specifiersInText text = []) →
        ∃ outcome, run tree working root selection = .ok outcome ∧
          run tree' working root selection = .ok outcome) ∧
      ∀ tree', SameProject tree tree' working root selection →
        ((RootExists tree working root ↔ RootExists tree' working root) →
          AgreeButTypes (run tree working root selection) (run tree' working root selection)) ∧
        (¬ (RootExists tree working root ↔ RootExists tree' working root) →
          run tree working root selection =
              .error (.manifestMissing (manifestPath (rootPath tree working root))) ∧
            run tree' working root selection =
              .error (.manifestMissing (manifestPath (rootPath tree' working root)))) := by
  refine ⟨fun error => run_eq_error_iff, fun tree' place text hmanifest hempties hnone =>
    hempties.exists_run hmanifest hnone, fun tree' hsame => ⟨hsame.agree, fun hroot => ?_⟩⟩
  obtain ⟨hcontent, hcontent'⟩ := hsame.manifestContent?_eq_none hroot
  exact ⟨run_of_no_manifest hcontent, run_of_no_manifest hcontent'⟩

/-- A manifest that is no JSON beside a source, and a project with a types package that is
installed in one tree and broken in the other. -/
theorem run_depends_on_project_broken_install :
    let broken := FileTree.ofFiles
      [("/package.json", "\x7b".toUTF8), ("/a.ts", "from 'a'".toUTF8)]
    let emptied := FileTree.ofFiles
      [("/package.json", "\x7b\x7d".toUTF8), ("/a.ts", "from 'a'".toUTF8)]
    let manifest := "\x7b\"dependencies\":\x7b\"a\":\"\",\"@types/b\":\"\"\x7d\x7d"
    let header := "//Type definitions for b 1\n//Project:\n//Definitions by:\n//Definitions:"
    let installed := FileTree.ofFiles
      [("/package.json", manifest.toUTF8), ("/c.ts", "from 'c'".toUTF8),
        ("/node_modules/@types/b/package.json", "\x7b\x7d".toUTF8),
        ("/node_modules/@types/b/index.d.ts", header.toUTF8)]
    let uninstalled := FileTree.ofFiles
      [("/package.json", manifest.toUTF8), ("/c.ts", "from 'c'".toUTF8),
        ("/node_modules/@types/b/package.json", "\x7b".toUTF8)]
    let selection : Selection := ⟨[], ["ts"]⟩
    (∃ outcome, run broken [] none selection = .ok outcome ∧
        run emptied [] none selection = .ok outcome) ∧
      SameProject installed uninstalled [] none selection ∧
      run installed [] none selection = .ok ⟨⟨["c"], ["c"], ["a", "@types/b"]⟩, 1⟩ ∧
      run uninstalled [] none selection = .ok ⟨⟨["c"], ["c"], ["a"]⟩, 1⟩ ∧
      AgreeButTypes (run installed [] none selection) (run uninstalled [] none selection) := by
  intro broken emptied manifest header installed uninstalled selection
  have hempties : Empties broken emptied ["package.json"] "\x7b" :=
    ⟨by decide +kernel, by decide +kernel, by decide +kernel,
      FileTree.entryAt_eq_of_places (by decide +kernel)⟩
  have hsame : SameProject installed uninstalled [] none selection :=
    ⟨by decide +kernel, by decide +kernel, by decide +kernel⟩
  have hroot : ∀ tree : FileTree, RootExists tree [] none := fun _ => ⟨[], rfl⟩
  refine ⟨?_, hsame, by decide +kernel, by decide +kernel, ?_⟩
  · exact (run_depends_on_project broken [] none selection).2.1 emptied ["package.json"] "\x7b"
      (by decide +kernel) hempties (by decide +kernel)
  · exact ((run_depends_on_project installed [] none selection).2.2 uninstalled hsame).1
      (iff_of_true (hroot _) (hroot _))

/-- A manifest that is no JSON and a manifest that is missing, each with other results in
two trees that hold the same project: the one is scanned itself, and the other is
looked for by the path of the root as it is written, or by that of its place. -/
theorem manifest_scanned_and_root_missing :
    let broken := FileTree.ofFiles [("/package.json", "from 'x'".toUTF8)]
    let emptied := FileTree.ofFiles [("/package.json", "\x7b\x7d".toUTF8)]
    let rootless := FileTree.ofFiles [("/p/x", "".toUTF8)]
    let rooted := FileTree.ofFiles [("/p/x", "".toUTF8), ("/a/y", "".toUTF8)]
    let selection : Selection := ⟨["src"], ["json"]⟩
    let root : Option Path := some ⟨"a/../p"⟩
    Empties broken emptied ["package.json"] "from 'x'" ∧
      run broken [] none selection = .ok ⟨⟨["x"], ["x"], []⟩, 1⟩ ∧
      run emptied [] none selection = .ok ⟨⟨[], [], []⟩, 1⟩ ∧
      SameProject rootless rooted [] root selection ∧
      run rootless [] root selection = .error (.manifestMissing ⟨"a/../p/package.json"⟩) ∧
      run rooted [] root selection = .error (.manifestMissing ⟨"/p/package.json"⟩) := by
  intro broken emptied rootless rooted selection root
  have hempties : Empties broken emptied ["package.json"] "from 'x'" :=
    ⟨by decide +kernel, by decide +kernel, by decide +kernel,
      FileTree.entryAt_eq_of_places (by decide +kernel)⟩
  have hsame : SameProject rootless rooted [] root selection :=
    ⟨by decide +kernel, by decide +kernel, by decide +kernel⟩
  exact ⟨hempties, by decide +kernel, by decide +kernel, hsame, by decide +kernel,
    by decide +kernel⟩

end Audit

end DependencyAudit
