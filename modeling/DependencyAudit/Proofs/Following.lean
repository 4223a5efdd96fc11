import DependencyAudit.Proofs.Consistency

/-!
Following the findings. Every name that is reported is taken out of the manifest
or put into it, and nothing is left to report. What is missing is detected, so
the names that are put in are used; what is taken out is not detected, as long
as no types package is, so no detected name loses its declaration. A types
package that stays was looked at before, and the inspection says the same again.
-/

namespace DependencyAudit.Findings

variable {detected : NameSet} {manifest : Manifest} {types : List TypesPackage}
  {inspect : String → Option TypesPackage} {name : String}

/-! ### What is reported -/

theorem mem_missing_classify_iff :
    name ∈ (classify detected manifest types).missing ↔
      name ∈ detected.toList ∧ name ∉ manifest.declared := by
  rw [mem_missing_classify, Manifest.declared, List.mem_append, not_or]

theorem mem_unused_classify_iff :
    name ∈ (classify detected manifest types).unused ↔
      name ∈ plainUnused detected manifest ∨
        ∃ package ∈ types, isIdleTypes detected package = true ∧ package.name = name := by
  have hplain : name ∈ plainUnused detected manifest ↔ name ∈ manifest.dependencies.filter
      fun name => isIdle detected name && !Manifest.isTypesName name := by
    simp only [mem_plainUnused, List.mem_filter, Bool.and_eq_true, isIdle_iff, Bool.not_eq_true']
    refine and_congr_right fun _ => and_comm
  rw [classify, List.mem_append, ← hplain, List.mem_map]
  simp only [List.mem_filter, and_assoc]

/-- The types packages without use, if each is inspected under its own name. -/
theorem mem_unused_classify_inspected
    (hinspect : ∀ name package, Manifest.isTypesName name = true →
      inspect name = some package → package.name = name) :
    name ∈ (classify detected manifest (manifest.typesPackages.filterMap inspect)).unused ↔
      name ∈ plainUnused detected manifest ∨
        name ∈ manifest.declared ∧ Manifest.isTypesName name = true ∧
          ∃ package, inspect name = some package ∧ isIdleTypes detected package = true := by
  have hmem : ∀ name, name ∈ manifest.typesPackages ↔
      name ∈ manifest.declared ∧ Manifest.isTypesName name = true := by
    intro name
    rw [Manifest.mem_typesPackages, Manifest.declared, List.mem_append]
  rw [mem_unused_classify_iff]
  refine or_congr_right ⟨fun h => ?_, fun h => ?_⟩
  · obtain ⟨package, hpackage, hidle, rfl⟩ := h
    obtain ⟨asked, hasked, hsome⟩ := List.mem_filterMap.mp hpackage
    obtain ⟨hdeclared, htypes⟩ := (hmem asked).mp hasked
    rw [hinspect asked package htypes hsome]
    exact ⟨hdeclared, htypes, package, hsome, hidle⟩
  · obtain ⟨hdeclared, htypes, package, hsome, hidle⟩ := h
    exact ⟨package, List.mem_filterMap.mpr ⟨name, (hmem name).mpr ⟨hdeclared, htypes⟩, hsome⟩,
      hidle, hinspect name package htypes hsome⟩

/-! ### The manifest that follows -/

section Follow

variable {findings : Findings}

theorem mem_dependencies_follow :
    name ∈ (findings.follow manifest).dependencies ↔
      name ∈ manifest.dependencies ∧ name ∉ findings.unused ∨ name ∈ findings.missing := by
  simp [follow]

theorem mem_declared_follow :
    name ∈ (findings.follow manifest).declared ↔
      name ∈ manifest.declared ∧ name ∉ findings.unused ∨ name ∈ findings.missing := by
  rw [Manifest.declared, List.mem_append, mem_dependencies_follow, Manifest.declared,
    List.mem_append, or_and_right, or_right_comm]
  simp [follow]

end Follow

section SecondLook

variable (hdetected : ∀ name ∈ detected.toList, Manifest.isTypesName name = false)
  (hinspect : ∀ name package, Manifest.isTypesName name = true →
    inspect name = some package → package.name = name)

include hdetected hinspect

theorem not_mem_detected_of_unused
    (h : name ∈
      (classify detected manifest (manifest.typesPackages.filterMap inspect)).unused) :
    name ∉ detected.toList := by
  rcases (mem_unused_classify_inspected hinspect).mp h with hplain | htypes
  · exact (mem_plainUnused.mp hplain).2.2.1
  · intro hname
    have hfalse := hdetected name hname
    rw [htypes.2.1] at hfalse
    cases hfalse

/-- Every detected package is declared in the manifest that follows. -/
theorem missing_classify_follow :
    (classify detected
      ((classify detected manifest (manifest.typesPackages.filterMap inspect)).follow manifest)
      types).missing = [] := by
  rw [List.eq_nil_iff_forall_not_mem]
  intro name hname
  obtain ⟨hmem, hundeclared⟩ := mem_missing_classify_iff.mp hname
  apply hundeclared
  rw [mem_declared_follow, mem_missing_classify_iff]
  by_cases hdeclared : name ∈ manifest.declared
  · exact .inl ⟨hdeclared,
      fun hunused => not_mem_detected_of_unused hdetected hinspect hunused hmem⟩
  · exact .inr ⟨hmem, hdeclared⟩

/-- Whatever would still be unused was unused before, and is no longer declared. -/
theorem unused_classify_follow {followed : Manifest}
    (hfollowed : followed =
      (classify detected manifest (manifest.typesPackages.filterMap inspect)).follow manifest) :
    (classify detected followed (followed.typesPackages.filterMap inspect)).unused = [] := by
  rw [List.eq_nil_iff_forall_not_mem]
  intro name hname
  have hunused := @mem_unused_classify_inspected detected manifest inspect name hinspect
  rcases (mem_unused_classify_inspected hinspect).mp hname with hplain | htypes
  · obtain ⟨hdeclared, hname⟩ := mem_plainUnused.mp hplain
    rw [hfollowed, mem_dependencies_follow] at hdeclared
    rcases hdeclared with ⟨hdeclared, hused⟩ | hmissing
    · exact hused (hunused.mpr (.inl (mem_plainUnused.mpr ⟨hdeclared, hname⟩)))
    · exact hname.2.1 (mem_missing_classify_iff.mp hmissing).1
  · obtain ⟨hdeclared, htypes, hidle⟩ := htypes
    rw [hfollowed, mem_declared_follow] at hdeclared
    rcases hdeclared with ⟨hdeclared, hused⟩ | hmissing
    · exact hused (hunused.mpr (.inr ⟨hdeclared, htypes, hidle⟩))
    · have hfalse := hdetected name (mem_missing_classify_iff.mp hmissing).1
      rw [htypes] at hfalse
      cases hfalse

end SecondLook

/-- If no types package is detected, the manifest that follows all findings
leaves nothing to report, and the same packages are detected. -/
theorem classify_follow (hdetected : ∀ name ∈ detected.toList, Manifest.isTypesName name = false)
    (hinspect : ∀ name package, Manifest.isTypesName name = true →
      inspect name = some package → package.name = name) :
    let findings := classify detected manifest (manifest.typesPackages.filterMap inspect)
    let followed := findings.follow manifest
    classify detected followed (followed.typesPackages.filterMap inspect) =
      ⟨findings.detected, [], []⟩ := by
  intro findings followed
  have hmissing : (classify detected followed
      (followed.typesPackages.filterMap inspect)).missing = [] :=
    missing_classify_follow hdetected hinspect
  have hunused : (classify detected followed
      (followed.typesPackages.filterMap inspect)).unused = [] :=
    unused_classify_follow hdetected hinspect rfl
  rw [Findings.mk.injEq]
  exact ⟨rfl, hmissing, hunused⟩

/-- Two types packages, of which one has lost its use and is declared in both
sections, beside a plain package without use and a missing one. -/
theorem classify_follow_both_kinds :
    let detected : NameSet := .ofList ["z", "a"]
    let manifest : Manifest :=
      ⟨["b", "@types/a", "@types/c", "tslib"], ["@types/c", "z", "@types/d"]⟩
    let installed : List TypesPackage := [⟨"@types/a", "a", false⟩, ⟨"@types/c", "c", false⟩]
    let inspect := fun name => installed.find? fun package => package.name = name
    let findings := classify detected manifest (manifest.typesPackages.filterMap inspect)
    let followed := findings.follow manifest
    (∀ name ∈ detected.toList, Manifest.isTypesName name = false) ∧
      (∀ name package, Manifest.isTypesName name = true → inspect name = some package →
        package.name = name) ∧
      findings = ⟨["a", "z"], ["a"], ["b", "@types/c"]⟩ ∧
      followed = ⟨["@types/a", "tslib", "a"], ["z", "@types/d"]⟩ ∧
      classify detected followed (followed.typesPackages.filterMap inspect) =
        ⟨findings.detected, [], []⟩ := by
  intro detected manifest installed inspect findings followed
  have hdetected : ∀ name ∈ detected.toList, Manifest.isTypesName name = false := by
    decide +kernel
  have hinspect : ∀ name package, Manifest.isTypesName name = true →
      inspect name = some package → package.name = name := by
    intro name package _ hsome
    simpa using List.find?_some hsome
  exact ⟨hdetected, hinspect, by decide +kernel, by decide +kernel,
    classify_follow hdetected hinspect⟩

end DependencyAudit.Findings
