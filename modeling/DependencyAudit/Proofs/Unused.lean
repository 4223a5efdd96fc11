import DependencyAudit.Proofs.Consistency
import DependencyAudit.Proofs.Detection

/-!
What it takes to be called unused. A plain dependency is looked for among the
detected packages under its own name, and those lack whatever has the name of a
module of the runtime; so an import keeps a dependency in use unless it shares
its name with such a module. A types package is looked for under the name of the
package that it describes; so one that a source imports itself is detected, and
may be called unused all the same.
-/

namespace DependencyAudit

theorem Package.not_mem_implicits_of_mem_builtins :
    ∀ name ∈ builtins, name ∉ implicits := by
  decide

namespace Findings

variable {detected : NameSet} {manifest : Manifest} {tree : FileTree} {working : Location}
  {start : Path} {name : String}

/-- Without use are the plain dependencies that nothing uses, and the types
packages in order that describe a package which nothing uses. -/
theorem mem_unused_classify :
    name ∈ (classify detected manifest
        (Types.usable tree start manifest.typesPackages working)).unused ↔
      name ∈ plainUnused detected manifest ∨
        name ∈ manifest.typesPackages ∧ Types.IsNpmInstall tree start name working ∧
          Types.targetOf name ∉ detected.toList ∧ Types.targetOf name ∉ Package.implicits := by
  simp only [unused_classify_eq, List.mem_append, List.mem_filter, Bool.and_eq_true,
    decide_eq_true_eq, isIdle_iff]

theorem mem_unused_classify_of_plain (hplain : Manifest.isTypesName name = false) :
    name ∈ (classify detected manifest
        (Types.usable tree start manifest.typesPackages working)).unused ↔
      name ∈ manifest.dependencies ∧ name ∉ detected.toList ∧ name ∉ Package.implicits := by
  simp [mem_unused_classify, mem_plainUnused, Manifest.mem_typesPackages, hplain]

/-- What is detected and unused at once is a types package. -/
theorem mem_unused_classify_of_detected (hdetected : name ∈ detected.toList) :
    name ∈ (classify detected manifest
        (Types.usable tree start manifest.typesPackages working)).unused ↔
      name ∈ manifest.typesPackages ∧ Types.IsNpmInstall tree start name working ∧
        Types.targetOf name ∉ detected.toList ∧ Types.targetOf name ∉ Package.implicits := by
  simp [mem_unused_classify, mem_plainUnused, hdetected]

end Findings

namespace Audit

variable {tree : FileTree} {working : Location} {root : Option Path} {selection : Selection}
  {outcome : Outcome} {manifest : Manifest} {name : String}

/-- Some source that can be read imports the package, under its own name or with
a path inside it. -/
def IsImported (tree : FileTree) (working : Location) (root : Path) (selection : Selection)
    (name : String) : Prop :=
  ∃ file ∈ sourcesOf tree working root selection, ∃ text,
    tree.readText file working = .ok text ∧
    ∃ specifier ∈ Import.specifiersInText text, Package.nameOf specifier.request = some name

theorem mem_detectedAt_iff_isImported {root : Path} :
    name ∈ (detectedAt tree working root selection).toList ↔
      IsImported tree working root selection name ∧ name ∉ Package.builtins := by
  rw [mem_detectedAt, IsImported]
  refine ⟨fun h => ?_, fun h => ?_⟩
  · obtain ⟨file, hfile, text, htext, specifier, hspecifier, hname, hbuiltin⟩ := h
    exact ⟨⟨file, hfile, text, htext, specifier, hspecifier, hname⟩, hbuiltin⟩
  · obtain ⟨⟨file, hfile, text, htext, specifier, hspecifier, hname⟩, hbuiltin⟩ := h
    exact ⟨file, hfile, text, htext, specifier, hspecifier, hname, hbuiltin⟩

/-! ### Plain dependencies -/

/-- A plain dependency that a source imports is called unused exactly if the
runtime has a module of its name. -/
theorem imported_dependency_unused_iff (h : run tree working root selection = .ok outcome)
    (hmanifest : readManifest tree (rootPath tree working root) working = .ok manifest)
    (hdeclared : name ∈ manifest.dependencies) (hplain : Manifest.isTypesName name = false)
    (himported : IsImported tree working (rootPath tree working root) selection name) :
    name ∈ outcome.findings.unused ↔ name ∈ Package.builtins := by
  rw [outcome_eq_of_run h hmanifest, outcomeAt, Findings.mem_unused_classify_of_plain hplain,
    mem_detectedAt_iff_isImported]
  refine ⟨fun hunused => ?_, fun hbuiltin => ?_⟩
  · by_contra hbuiltin
    exact hunused.2.1 ⟨himported, hbuiltin⟩
  · exact ⟨hdeclared, fun hdetected => hdetected.2 hbuiltin,
      Package.not_mem_implicits_of_mem_builtins name hbuiltin⟩

/-- A dependency that is imported by a path inside it, beside one without use. -/
theorem imported_dependency_unused_iff_left :
    let tree := FileTree.ofFiles
      [("/app/package.json",
          "\x7b\"dependencies\": \x7b\"left\": \"1\", \"buffer\": \"6\"\x7d\x7d".toUTF8),
        ("/app/src/a.ts", "import pad from 'left/pad'".toUTF8)]
    let selection : Selection := ⟨["src"], ["ts"]⟩
    let root := rootPath tree ["app"] none
    (run tree ["app"] none selection).toOption = some ⟨⟨["left"], [], ["buffer"]⟩, 1⟩ ∧
      (readManifest tree root ["app"]).toOption = some ⟨["left", "buffer"], []⟩ ∧
      IsImported tree ["app"] root selection "left" ∧
      ("left" ∈ ["buffer"] ↔ "left" ∈ Package.builtins) := by
  intro tree selection root
  have h : (run tree ["app"] none selection).toOption =
      some ⟨⟨["left"], [], ["buffer"]⟩, 1⟩ := by decide +kernel
  have hmanifest : (readManifest tree root ["app"]).toOption =
      some ⟨["left", "buffer"], []⟩ := by decide +kernel
  have htext : (tree.readText ⟨"/app/src/a.ts"⟩ ["app"]).toOption =
      some "import pad from 'left/pad'" := by decide +kernel
  have himported : IsImported tree ["app"] root selection "left" :=
    ⟨⟨"/app/src/a.ts"⟩, by decide +kernel, _, eq_ok_of_toOption htext,
      ⟨.importFrom, "left/pad"⟩, by decide +kernel, by decide +kernel⟩
  exact ⟨h, hmanifest, himported, imported_dependency_unused_iff (eq_ok_of_toOption h)
    (eq_ok_of_toOption hmanifest) (by decide) (by decide) himported⟩

/-- The package `buffer` is declared and imported, and called unused, because the
runtime has a module of that name. -/
theorem buffer_imported_and_unused :
    let tree := FileTree.ofFiles
      [("/package.json", "\x7b\"dependencies\":\x7b\"buffer\":\"6\"\x7d\x7d".toUTF8),
        ("/src/a.ts", "import * as b from 'buffer/'".toUTF8)]
    let selection : Selection := ⟨["src"], ["ts"]⟩
    let root := rootPath tree [] none
    let findings : Findings := ⟨[], [], ["buffer"]⟩
    (run tree [] none selection).toOption = some ⟨findings, 1⟩ ∧
      (readManifest tree root).toOption = some ⟨["buffer"], []⟩ ∧
      Manifest.isTypesName "buffer" = false ∧
      IsImported tree [] root selection "buffer" ∧ "buffer" ∈ findings.unused := by
  intro tree selection root findings
  have htext : (tree.readText ⟨"/src/a.ts"⟩).toOption =
      some "import * as b from 'buffer/'" := by decide +kernel
  have himported : IsImported tree [] root selection "buffer" :=
    ⟨⟨"/src/a.ts"⟩, by decide +kernel, _, eq_ok_of_toOption htext,
      ⟨.importFrom, "buffer/"⟩, by decide +kernel, by decide +kernel⟩
  exact ⟨by decide +kernel, by decide +kernel, by decide, himported, by decide⟩

/-! ### Types packages -/

/-- No package is detected and unused at once exactly if each types package that
a source imports itself, and whose installation describes an npm package,
describes one that is used as well. -/
theorem detected_disjoint_unused_iff (h : run tree working root selection = .ok outcome)
    (hmanifest : readManifest tree (rootPath tree working root) working = .ok manifest) :
    outcome.findings.detected.Disjoint outcome.findings.unused ↔
      ∀ name ∈ outcome.findings.detected, name ∈ manifest.typesPackages →
        Types.IsNpmInstall tree (rootPath tree working root) name working →
          Types.targetOf name ∈ outcome.findings.detected ∨
            Types.targetOf name ∈ Package.implicits := by
  have hdetected : outcome.findings.detected =
      (detectedAt tree working (rootPath tree working root) selection).toList :=
    detected_of_run h
  have hunused : ∀ name ∈ outcome.findings.detected,
      (name ∈ outcome.findings.unused ↔ name ∈ manifest.typesPackages ∧
        Types.IsNpmInstall tree (rootPath tree working root) name working ∧
          Types.targetOf name ∉ outcome.findings.detected ∧
            Types.targetOf name ∉ Package.implicits) := by
    intro name hname
    rw [hdetected] at hname ⊢
    rw [outcome_eq_of_run h hmanifest, outcomeAt]
    exact Findings.mem_unused_classify_of_detected hname
  refine forall_congr' fun name => forall_congr' fun hname => ?_
  rw [hunused name hname]
  refine ⟨fun hused htypes hinstall => ?_, fun hused hunused => ?_⟩
  · by_contra hidle
    exact hused ⟨htypes, hinstall, not_or.mp hidle⟩
  · obtain ⟨htypes, hinstall, htarget, himplicit⟩ := hunused
    exact (hused htypes hinstall).elim htarget himplicit

/-- A types package that is imported beside the package that it describes. -/
theorem detected_disjoint_unused_iff_both_imported :
    let tree := FileTree.ofFiles
      [("/package.json",
          "\x7b\"dependencies\":\x7b\"a\":\"\",\"b\":\"\",\"@types/b\":\"\"\x7d\x7d".toUTF8),
        ("/node_modules/@types/b/package.json", "\x7b\x7d".toUTF8),
        ("/node_modules/@types/b/index.d.ts",
          "//Type definitions for b 1\n//Project:\n//Definitions by:\n//Definitions:".toUTF8),
        ("/a.ts", "from 'b'\nimport '@types/b';".toUTF8)]
    let findings : Findings := ⟨["@types/b", "b"], [], ["a"]⟩
    (run tree [] none ⟨[], ["ts"]⟩).toOption = some ⟨findings, 1⟩ ∧
      (readManifest tree (rootPath tree [] none)).toOption =
        some ⟨["a", "b", "@types/b"], []⟩ ∧
      findings.detected.Disjoint findings.unused := by
  intro tree findings
  have h : (run tree [] none ⟨[], ["ts"]⟩).toOption = some ⟨findings, 1⟩ := by
    decide +kernel
  have hmanifest : (readManifest tree (rootPath tree [] none)).toOption =
      some ⟨["a", "b", "@types/b"], []⟩ := by decide +kernel
  have htarget : ∀ name ∈ findings.detected, Types.targetOf name ∈ findings.detected := by
    decide +kernel
  exact ⟨h, hmanifest, (detected_disjoint_unused_iff (eq_ok_of_toOption h)
    (eq_ok_of_toOption hmanifest)).mpr fun name hname _ _ => .inl (htarget name hname)⟩

/-- A types package that a source imports without the package that it describes
is detected and unused. -/
theorem types_package_detected_and_unused :
    let tree := FileTree.ofFiles
      [("/package.json", "\x7b\"devDependencies\":\x7b\"@types/b\":\"\"\x7d\x7d".toUTF8),
        ("/node_modules/@types/b/package.json", "\x7b\x7d".toUTF8),
        ("/node_modules/@types/b/index.d.ts",
          "//Type definitions for b 1\n//Project:\n//Definitions by:\n//Definitions:".toUTF8),
        ("/a.ts", "import type B from '@types/b'".toUTF8)]
    let findings : Findings := ⟨["@types/b"], [], ["@types/b"]⟩
    (run tree [] none ⟨[], ["ts"]⟩).toOption = some ⟨findings, 1⟩ ∧
      ¬ findings.detected.Disjoint findings.unused := by
  intro tree findings
  refine ⟨by decide +kernel, fun hdisjoint => ?_⟩
  exact hdisjoint List.mem_cons_self List.mem_cons_self

end Audit

end DependencyAudit
