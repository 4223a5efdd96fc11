import DependencyAudit.Proofs.Leftmost
import DependencyAudit.Proofs.Runs
import DependencyAudit.Proofs.Sets

/-!
Which packages are detected. The stages of an audit (lines, files, merging,
names) are each a set of their own; read as membership they compose to one
description, in which neither the order of the files nor the way their sets are
merged occurs any more.
-/

namespace DependencyAudit

open DependencyAudit.Import DependencyAudit.Text

namespace Package

theorem Gathering.mem_merged {gathering : Gathering} {request : String} :
    request ∈ gathering.merged.toList ↔ ∃ set ∈ gathering.files, request ∈ set.toList := by
  induction gathering with
  | nothing => simp [merged, files, Ascending.empty]
  | file set => simp [merged, files]
  | both first second ihf ihs =>
      simp only [merged, files, Ascending.mem_union, ihf, ihs, List.mem_append, or_and_right,
        exists_or]

theorem Gathering.files_ofList (sets : List NameSet) : (ofList sets).files = sets := by
  have hfold : ∀ gathering : Gathering,
      (sets.foldl (fun merged set => both merged (file set)) gathering).files =
        gathering.files ++ sets := by
    induction sets with
    | nil => simp
    | cons set sets ih =>
        intro gathering
        rw [List.foldl_cons, ih]
        simp [files]
  exact hfold .nothing

theorem mem_detect {specifiers : List String} {name : String} :
    name ∈ (detect specifiers).toList ↔
      ∃ specifier ∈ specifiers, nameOf specifier = some name ∧ name ∉ builtins := by
  simp only [detect, Ascending.mem_ofList, List.mem_filter, List.mem_filterMap, isBuiltin,
    Bool.not_eq_true', List.contains_eq_mem, decide_eq_false_iff_not]
  refine ⟨fun h => ?_, fun h => ?_⟩
  · obtain ⟨⟨specifier, hmem, hname⟩, hbuiltin⟩ := h
    exact ⟨specifier, hmem, hname, hbuiltin⟩
  · obtain ⟨specifier, hmem, hname, hbuiltin⟩ := h
    exact ⟨⟨specifier, hmem, hname⟩, hbuiltin⟩

end Package

namespace Audit

variable {tree : FileTree} {working : Location} {root : Option Path} {selection : Selection}
  {outcome : Outcome}

theorem mem_requestsOf {file : Path} {request : String} :
    request ∈ (requestsOf tree working file).toList ↔
      ∃ text, tree.readText file working = .ok text ∧
        ∃ specifier ∈ specifiersInText text, specifier.request = request := by
  rw [requestsOf, specifiersOf]
  cases tree.readText file working with
  | error e => simp [Except.map, Ascending.empty]
  | ok text => simp [Except.map]

theorem mem_detectedIn {gathering : Package.Gathering} {name : String} :
    name ∈ (detectedIn gathering).toList ↔
      ∃ set ∈ gathering.files, ∃ request ∈ set.toList,
        Package.nameOf request = some name ∧ name ∉ Package.builtins := by
  simp only [detectedIn, Package.mem_detect, Package.Gathering.mem_merged]
  refine ⟨fun h => ?_, fun h => ?_⟩
  · obtain ⟨request, ⟨set, hset, hmem⟩, hname⟩ := h
    exact ⟨set, hset, request, hmem, hname⟩
  · obtain ⟨set, hset, request, hmem, hname⟩ := h
    exact ⟨request, ⟨set, hset, hmem⟩, hname⟩

/-- Two gatherings of the same sets lead to the same packages. -/
theorem detectedIn_eq_of_perm {gathering gathering' : Package.Gathering}
    (h : gathering.files.Perm gathering'.files) :
    (detectedIn gathering).toList = (detectedIn gathering').toList := by
  apply Ascending.toList_eq_of_mem_iff
  intro name
  simp only [mem_detectedIn, h.mem_iff]

theorem mem_detectedAt {root : Path} {name : String} :
    name ∈ (detectedAt tree working root selection).toList ↔
      ∃ file ∈ sourcesOf tree working root selection, ∃ text,
        tree.readText file working = .ok text ∧ ∃ specifier ∈ specifiersInText text,
          Package.nameOf specifier.request = some name ∧ name ∉ Package.builtins := by
  simp only [detectedAt, mem_detectedIn, Package.Gathering.files_ofList, List.mem_map]
  refine ⟨fun h => ?_, fun h => ?_⟩
  · obtain ⟨_, ⟨file, hfile, rfl⟩, request, hmem, hname⟩ := h
    obtain ⟨text, htext, specifier, hspecifier, rfl⟩ := mem_requestsOf.mp hmem
    exact ⟨file, hfile, text, htext, specifier, hspecifier, hname⟩
  · obtain ⟨file, hfile, text, htext, specifier, hspecifier, hname⟩ := h
    exact ⟨_, ⟨file, hfile, rfl⟩, specifier.request,
      mem_requestsOf.mpr ⟨text, htext, specifier, hspecifier, rfl⟩, hname⟩

/-- What `names` has to be if it lists the packages that some files import. -/
structure DetectsExactly (tree : FileTree) (working : Location) (files : List Path)
    (names : List String) : Prop where
  mem_iff : ∀ name, name ∈ names ↔
    ∃ file ∈ files, ∃ text, tree.readText file working = .ok text ∧
      ∃ line ∈ lines text.toList, ∃ rule request, Rule.FirstIn rule line request ∧
        Package.nameOf (String.ofList request) = some name ∧ name ∉ Package.builtins
  ascending : names.Pairwise fun a b => compareBytes a b = .lt
  merged_eq : ∀ gathering : Package.Gathering,
    gathering.files.Perm (files.map (requestsOf tree working)) →
      (detectedIn gathering).toList = names

theorem detectsExactly_detectedAt (root : Path) :
    DetectsExactly tree working (sourcesOf tree working root selection)
      (detectedAt tree working root selection).toList where
  mem_iff name := by
    rw [mem_detectedAt]
    refine ⟨fun h => ?_, fun h => ?_⟩
    · obtain ⟨file, hfile, text, htext, specifier, hspecifier, hname⟩ := h
      obtain ⟨line, hline, hmem⟩ := List.mem_flatMap.mp hspecifier
      obtain ⟨rule, request, hfirst, rfl⟩ := mem_specifiersInChars.mp hmem
      exact ⟨file, hfile, text, htext, line, hline, rule, request, hfirst, hname⟩
    · obtain ⟨file, hfile, text, htext, line, hline, rule, request, hfirst, hname⟩ := h
      have hmem := mem_specifiersInChars.mpr ⟨rule, request, hfirst, rfl⟩
      exact ⟨file, hfile, text, htext, _, List.mem_flatMap.mpr ⟨line, hline, hmem⟩, hname⟩
  ascending := (detectedAt tree working root selection).ascends
  merged_eq gathering hperm := by
    apply detectedIn_eq_of_perm
    rwa [Package.Gathering.files_ofList]

/-- A run detects exactly the packages that its sources import, and any way of
merging the files' requests leads to the same list. -/
theorem detected_exactly_of_run (h : run tree working root selection = .ok outcome) :
    DetectsExactly tree working
      (sourcesOf tree working (rootPath tree working root) selection)
      outcome.findings.detected := by
  rw [detected_of_run h]
  exact detectsExactly_detectedAt (rootPath tree working root)

/-- Two sources that can be read and one that cannot, under a root that is not
given. -/
theorem detected_exactly_of_run_in_app :
    let tree := FileTree.ofFiles
      [("/app/package.json", "\x7b\"dependencies\": \x7b\"left\": \"1\"\x7d\x7d".toUTF8),
        ("/app/a.ts", "from 'left/pad'; import 'y'\nrequire(\"fs\")".toUTF8),
        ("/app/src/b.js", ⟨#[255]⟩),
        ("/app/src/c.js", "require('@s/d')".toUTF8)]
    let selection : Selection := ⟨["src"], ["ts", "js"]⟩
    (run tree ["app"] none selection).toOption = some ⟨⟨["@s/d", "left"], ["@s/d"], []⟩, 3⟩ ∧
      DetectsExactly tree ["app"]
        (sourcesOf tree ["app"] (rootPath tree ["app"] none) selection) ["@s/d", "left"] := by
  intro tree selection
  have h : (run tree ["app"] none selection).toOption =
      some ⟨⟨["@s/d", "left"], ["@s/d"], []⟩, 3⟩ := by decide +kernel
  exact ⟨h, detected_exactly_of_run (eq_ok_of_toOption h)⟩

end Audit

end DependencyAudit
