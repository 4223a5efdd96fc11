import DependencyAudit.Proofs.Installs
import DependencyAudit.Proofs.Keys
import DependencyAudit.Proofs.Sets

/-!
How the lists of an audit fit together. Nothing checks that a name comes only
once or that no name is both missing and unused. It follows from where the
names come from: the detected packages are a set, a section of the manifest has
distinct keys, a types package is taken at its first place only, and the plain
unused packages and the types packages differ in what their names begin with.
-/

namespace DependencyAudit

theorem nodup_eraseDups (names : List String) : names.eraseDups.Nodup := by
  -- what remains behind the first name is shorter, but no part of the list
  induction hlength : names.length using Nat.strong_induction_on generalizing names with
  | _ n ih =>
      cases names with
      | nil => exact List.nodup_nil
      | cons name names =>
          have hshorter : (names.filter fun other => !other == name).length < n := by
            have hle := List.length_filter_le (fun other => !other == name) names
            rw [List.length_cons] at hlength
            omega
          rw [List.eraseDups_cons, List.nodup_cons, List.mem_eraseDups]
          exact ⟨by simp, ih _ hshorter _ rfl⟩

/-- What the lists of findings have to be for a manifest. -/
structure Findings.ConsistentWith (findings : Findings) (manifest : Manifest) : Prop where
  mem_missing : ∀ name, name ∈ findings.missing ↔
    name ∈ findings.detected ∧ name ∉ manifest.dependencies ∧ name ∉ manifest.devDependencies
  missing_ascends : findings.missing.Pairwise fun a b => Text.compareBytes a b = .lt
  /-- The plain unused packages stand in the order of declaration, and then the
  unused types packages, each at its first place among those of both sections. -/
  unused_eq : ∃ types,
    findings.unused =
        (manifest.dependencies.filter fun name =>
          ¬ Manifest.isTypesName name ∧ name ∉ findings.detected ∧ name ∉ Package.implicits) ++
        types ∧
      types.Sublist
        ((manifest.dependencies ++ manifest.devDependencies).filter Manifest.isTypesName).eraseDups
  nodup_detected : findings.detected.Nodup
  nodup_missing : findings.missing.Nodup
  nodup_unused : findings.unused.Nodup
  disjoint : findings.missing.Disjoint findings.unused
  declared_of_unused : ∀ name ∈ findings.unused,
    name ∈ manifest.dependencies ∨ name ∈ manifest.devDependencies
  isTypesName_of_unused : ∀ name ∈ findings.unused, name ∉ manifest.dependencies →
    Manifest.isTypesName name = true

namespace Manifest

variable {manifest : Manifest}

theorem mem_typesPackages {name : String} :
    name ∈ manifest.typesPackages ↔
      (name ∈ manifest.dependencies ∨ name ∈ manifest.devDependencies) ∧
        isTypesName name = true := by
  rw [typesPackages, List.mem_eraseDups, List.mem_filter, declared, List.mem_append]

theorem nodup_typesPackages (manifest : Manifest) : manifest.typesPackages.Nodup :=
  nodup_eraseDups _

end Manifest

namespace Findings

variable {detected : NameSet} {manifest : Manifest} {tree : FileTree} {working : Location}
  {start : Path}

theorem mem_missing_classify {types : List TypesPackage} {name : String} :
    name ∈ (classify detected manifest types).missing ↔
      name ∈ detected.toList ∧ name ∉ manifest.dependencies ∧
        name ∉ manifest.devDependencies := by
  simp [classify, Manifest.declares, Manifest.declared]

theorem missing_classify_sublist (types : List TypesPackage) :
    (classify detected manifest types).missing.Sublist detected.toList :=
  List.filter_sublist

/-- The plain packages that are declared as dependencies and not used. -/
def plainUnused (detected : NameSet) (manifest : Manifest) : List String :=
  manifest.dependencies.filter fun name =>
    ¬ Manifest.isTypesName name ∧ name ∉ detected.toList ∧ name ∉ Package.implicits

theorem mem_plainUnused {name : String} :
    name ∈ plainUnused detected manifest ↔
      name ∈ manifest.dependencies ∧ Manifest.isTypesName name = false ∧
        name ∉ detected.toList ∧ name ∉ Package.implicits := by
  simp [plainUnused]

open Classical in
/-- First the plain packages, then the types packages that are installed in order
and describe a package without use. -/
theorem unused_classify_eq (tree : FileTree) (working : Location) (start : Path)
    (detected : NameSet) (manifest : Manifest) :
    (classify detected manifest
        (Types.usable tree start manifest.typesPackages working)).unused =
      plainUnused detected manifest ++ manifest.typesPackages.filter fun name =>
        decide (Types.IsNpmInstall tree start name working) &&
          isIdle detected (Types.targetOf name) := by
  rw [classify, plainUnused, Types.map_name_filter_isIdleTypes]
  refine congrArg (· ++ _) (List.filter_congr fun name _ => ?_)
  rw [Bool.eq_iff_iff, Bool.and_eq_true, isIdle_iff]
  simpa using and_comm

theorem exists_unused_classify (tree : FileTree) (working : Location) (start : Path)
    (detected : NameSet) (manifest : Manifest) :
    ∃ types : List String,
      (classify detected manifest
          (Types.usable tree start manifest.typesPackages working)).unused =
          plainUnused detected manifest ++ types ∧
        types.Sublist manifest.typesPackages :=
  ⟨_, unused_classify_eq tree working start detected manifest, List.filter_sublist⟩

theorem consistentWith_classify (hmanifest : manifest.Distinct) :
    (classify detected manifest
      (Types.usable tree start manifest.typesPackages working)).ConsistentWith manifest := by
  obtain ⟨types, hunused, htypes⟩ := exists_unused_classify tree working start detected manifest
  have hmem : ∀ name, name ∈ types → name ∈ manifest.typesPackages := fun _ h => htypes.subset h
  have hmissing := @missing_classify_sublist detected manifest
    (Types.usable tree start manifest.typesPackages working)
  have hdeclared : ∀ name ∈ plainUnused detected manifest ++ types,
      name ∈ manifest.dependencies ∨ name ∈ manifest.devDependencies := by
    intro name h
    rcases List.mem_append.mp h with h | h
    · exact .inl (mem_plainUnused.mp h).1
    · exact (Manifest.mem_typesPackages.mp (hmem name h)).1
  -- a plain name and the name of a types package begin differently
  have hapart : (plainUnused detected manifest).Disjoint types := by
    intro name hplain htype
    have hfalse := (mem_plainUnused.mp hplain).2.1
    rw [(Manifest.mem_typesPackages.mp (hmem name htype)).2] at hfalse
    cases hfalse
  constructor
  case mem_missing => exact fun name => mem_missing_classify
  case missing_ascends => exact detected.ascends.sublist hmissing
  case unused_eq => exact ⟨types, hunused, htypes⟩
  case nodup_detected => exact detected.nodup
  case nodup_missing => exact detected.nodup.sublist hmissing
  case nodup_unused =>
    rw [hunused, List.nodup_append']
    exact ⟨hmanifest.dependencies.filter _,
      (Manifest.nodup_typesPackages manifest).sublist htypes, hapart⟩
  case disjoint =>
    intro name hname hname'
    rw [hunused] at hname'
    obtain ⟨-, hdependencies, hdevDependencies⟩ := mem_missing_classify.mp hname
    exact (hdeclared name hname').elim hdependencies hdevDependencies
  case declared_of_unused =>
    rw [hunused]
    exact hdeclared
  case isTypesName_of_unused =>
    rw [hunused]
    intro name hname hdependencies
    rcases List.mem_append.mp hname with h | h
    · exact absurd (mem_plainUnused.mp h).1 hdependencies
    · exact (Manifest.mem_typesPackages.mp (hmem name h)).2

end Findings

namespace Audit

variable {tree : FileTree} {working : Location} {root : Option Path} {selection : Selection}
  {outcome : Outcome}

theorem distinct_of_readManifest {root : Path} {manifest : Manifest}
    (h : readManifest tree root working = .ok manifest) : manifest.Distinct := by
  obtain ⟨text, -, rfl⟩ := readManifest_eq_ok_iff.mp h
  exact Manifest.distinct_getD_ofText? text

/-- The lists that a run reports are consistent with the manifest that it read,
whatever the manifest's text is. -/
theorem consistent_of_run (h : run tree working root selection = .ok outcome) :
    ∃ manifest, readManifest tree (rootPath tree working root) working = .ok manifest ∧
      outcome.findings.ConsistentWith manifest := by
  obtain ⟨manifest, hmanifest, rfl⟩ := exists_manifest_of_run h
  exact ⟨manifest, hmanifest,
    Findings.consistentWith_classify (distinct_of_readManifest hmanifest)⟩

/-- A manifest with a key that comes twice in one section and a name that both
sections declare. -/
theorem consistent_of_run_repeated_names :
    let tree := FileTree.ofFiles
      [("/package.json",
          ("\x7b\"dependencies\":\x7b\"b\":\"\",\"@types/b\":\"\",\"b\":\"\"\x7d," ++
            "\"devDependencies\":\x7b\"b\":\"\",\"@types/b\":\"\"\x7d\x7d").toUTF8),
        ("/node_modules/@types/b/package.json", "\x7b\x7d".toUTF8),
        ("/node_modules/@types/b/index.d.ts",
          "//Type definitions for b 1\n//Project:\n//Definitions by:\n//Definitions:".toUTF8),
        ("/a.ts", "from 'd'".toUTF8)]
    let findings : Findings := ⟨["d"], ["d"], ["b", "@types/b"]⟩
    (run tree [] none ⟨[], ["ts"]⟩).toOption = some ⟨findings, 1⟩ ∧
      ∃ manifest, readManifest tree (rootPath tree [] none) = .ok manifest ∧
        findings.ConsistentWith manifest := by
  intro tree findings
  have h : (run tree [] none ⟨[], ["ts"]⟩).toOption = some ⟨findings, 1⟩ := by
    decide +kernel
  exact ⟨h, consistent_of_run (eq_ok_of_toOption h)⟩

end Audit

end DependencyAudit
