import DependencyAudit.Proofs.Naming
import DependencyAudit.Proofs.Unused

/-!
Two spellings of a package name. A source asks for a package by its name, with or
without a path inside it, and a types package carries the name in mangled form.
Both are read back to the same name, as long as the scope leaves no doubt about
which double underscore stands for its slash. So a package that is imported keeps
its types package in use. A mangled form without a slash can also be told from the
name that is read from it, so no two of them stand for the same package.
-/

namespace DependencyAudit

/-! ### Names of types packages -/

namespace Types

/-- A double underscore, which stands for the slash behind a scope. -/
def scopeMark : List Char := ['_', '_']

theorem cutAtScope?_eq_none {cs : List Char} (h : ¬ scopeMark <:+: cs) : cutAtScope? cs = none := by
  fun_induction cutAtScope? cs with
  | case1 name => exact absurd ⟨[], name, rfl⟩ h
  | case2 c cs hmark ih =>
      rw [ih fun hscope => h (hscope.trans (List.suffix_cons c cs).isInfix), Option.map_none]
  | case3 => rfl

/-- The first double underscore is the one behind the scope if there is none in the
scope and none begins in it. -/
theorem cutAtScope?_append {scope : List Char} (hfree : ¬ scopeMark <:+: scope)
    (hlast : scope.getLast? ≠ some '_') (name : List Char) :
    cutAtScope? (scope ++ '_' :: '_' :: name) = some (scope, name) := by
  induction scope with
  | nil => rfl
  | cons c scope ih =>
      have hfree' : ¬ scopeMark <:+: scope := fun hmark =>
        hfree (hmark.trans (List.suffix_cons c scope).isInfix)
      have hlast' : scope.getLast? ≠ some '_' := by
        intro h
        apply hlast
        rw [List.getLast?_cons, h, Option.getD_some]
      have hnext : ∀ rest, c = '_' → scope ++ '_' :: '_' :: name = '_' :: rest → False := by
        rintro rest rfl hrest
        cases scope with
        | nil => exact hlast rfl
        | cons d scope =>
            obtain rfl := (List.cons.inj hrest).1
            exact hfree ⟨[], scope, rfl⟩
      rw [List.cons_append, cutAtScope?]
      · rw [ih hfree' hlast', Option.map_some]
      · exact hnext

/-- The name behind `@types/` of the types for a package. -/
inductive Mangles : (mangled package : String) → Prop
  | plain {package : String} (name : Package.IsName package.toList)
      (unscoped : package.toList.head? ≠ some '@') (free : ¬ scopeMark <:+: package.toList) :
      Mangles package package
  | withScope {scope name : String} (isName : Package.IsName ("@" ++ scope ++ "/" ++ name).toList)
      (free : ¬ scopeMark <:+: scope.toList) (last : scope.toList.getLast? ≠ some '_') :
      Mangles (scope ++ "__" ++ name) ("@" ++ scope ++ "/" ++ name)

variable {mangled package : String}

theorem Mangles.isName (h : Mangles mangled package) : Package.IsName package.toList := by
  cases h with
  | plain name => exact name
  | withScope isName => exact isName

theorem targetOf_typesLead_append (mangled : String) :
    targetOf (Manifest.typesLead ++ mangled) = (unmangle? mangled).getD mangled := by
  have hlead : Manifest.typesLead.toList.isPrefixOf?
      (Manifest.typesLead.toList ++ mangled.toList) = some mangled.toList :=
    List.isPrefixOf?_eq_some_iff_append_eq.mpr rfl
  rw [targetOf, String.toList_append, hlead]
  simp only [String.ofList_toList]

theorem targetOf_of_cutAtScope?_eq_none (h : cutAtScope? mangled.toList = none) :
    targetOf (Manifest.typesLead ++ mangled) = mangled := by
  rw [targetOf_typesLead_append, unmangle?, h, Option.map_none, Option.getD_none]

theorem targetOf_unscoped (h : ¬ scopeMark <:+: mangled.toList) :
    targetOf (Manifest.typesLead ++ mangled) = mangled :=
  targetOf_of_cutAtScope?_eq_none (cutAtScope?_eq_none h)

theorem targetOf_of_cutAtScope? {scope name : List Char}
    (h : cutAtScope? mangled.toList = some (scope, name)) :
    targetOf (Manifest.typesLead ++ mangled) = String.ofList ('@' :: scope ++ '/' :: name) := by
  rw [targetOf_typesLead_append, unmangle?, h, Option.map_some, Option.getD_some]

theorem targetOf_scoped {scope : String} (hfree : ¬ scopeMark <:+: scope.toList)
    (hlast : scope.toList.getLast? ≠ some '_') (name : String) :
    targetOf (Manifest.typesLead ++ (scope ++ "__" ++ name)) = "@" ++ scope ++ "/" ++ name := by
  have htext : (scope ++ "__" ++ name).toList = scope.toList ++ '_' :: '_' :: name.toList := by
    simp
  have hcut : cutAtScope? (scope ++ "__" ++ name).toList = some (scope.toList, name.toList) := by
    rw [htext, cutAtScope?_append hfree hlast]
  rw [targetOf_of_cutAtScope? hcut, ← String.toList_inj]
  simp

theorem Mangles.targetOf_eq (h : Mangles mangled package) :
    targetOf (Manifest.typesLead ++ mangled) = package := by
  cases h with
  | plain name unscoped free => exact targetOf_unscoped free
  | @withScope scope name isName free last => exact targetOf_scoped free last name

/-! ### Mangling a target again -/

theorem eq_append_of_cutAtScope? {cs scope name : List Char}
    (h : cutAtScope? cs = some (scope, name)) : cs = scope ++ '_' :: '_' :: name := by
  fun_induction cutAtScope? cs generalizing scope with
  | case1 rest =>
      obtain ⟨rfl, rfl⟩ := Prod.mk.inj (Option.some.inj h)
      rfl
  | case2 c cs _ ih =>
      obtain ⟨⟨front, back⟩, hcut, heq⟩ := Option.map_eq_some_iff.mp h
      obtain ⟨rfl, rfl⟩ := Prod.mk.inj heq
      rw [ih hcut, List.cons_append]
  | case3 => cases h

theorem mangle_scoped {scope : List Char} (h : '/' ∉ scope) (name : List Char) :
    mangle (String.ofList ('@' :: scope ++ '/' :: name)) =
      String.ofList (scope ++ '_' :: '_' :: name) := by
  have hcut : Text.cutAtFirst '/' (scope ++ '/' :: name) = some (scope, name) :=
    Text.cutAtFirst_eq_some_iff.mpr ⟨rfl, h⟩
  rw [mangle, String.toList_ofList, List.cons_append]
  simp only [hcut]

theorem mangle_unslashed {target : String} (h : '/' ∉ target.toList) : mangle target = target := by
  rw [mangle]
  split
  next rest htarget =>
    split
    next scope name hcut =>
      -- a cut would be at a slash
      obtain ⟨rfl, -⟩ := Text.cutAtFirst_eq_some_iff.mp hcut
      simp [htarget] at h
    next => rfl
  next => rfl

/-- Without a slash of its own, the name of a types package can be read off its target:
the only slash there is the one that the double underscore stands for. -/
theorem mangle_targetOf (h : '/' ∉ mangled.toList) :
    mangle (targetOf (Manifest.typesLead ++ mangled)) = mangled := by
  cases hcut : cutAtScope? mangled.toList with
  | none => rw [targetOf_of_cutAtScope?_eq_none hcut, mangle_unslashed h]
  | some parts =>
      obtain ⟨scope, name⟩ := parts
      have htext := eq_append_of_cutAtScope? hcut
      have hscope : '/' ∉ scope := fun hmem => h (by simp [htext, hmem])
      rw [targetOf_of_cutAtScope? hcut, mangle_scoped hscope, ← htext, String.ofList_toList]

/-- Mangling is undone by reading the target, for every scope in which and behind which
the double underscore is the first one, and without one the name is its own target; the
target in turn gives the name back, so no two names share a target. -/
theorem targetOf_inverse_of_mangle :
    (∀ scope name : String, '/' ∉ scope.toList → ¬ scopeMark <:+: scope.toList →
        scope.toList.getLast? ≠ some '_' →
        mangle ("@" ++ scope ++ "/" ++ name) = scope ++ "__" ++ name ∧
          targetOf (Manifest.typesLead ++ (scope ++ "__" ++ name)) =
            "@" ++ scope ++ "/" ++ name) ∧
      (∀ mangled : String, ¬ scopeMark <:+: mangled.toList →
        targetOf (Manifest.typesLead ++ mangled) = mangled) ∧
      (∀ mangled : String, '/' ∉ mangled.toList →
        mangle (targetOf (Manifest.typesLead ++ mangled)) = mangled) ∧
      ∀ mangled other : String, '/' ∉ mangled.toList → '/' ∉ other.toList →
        Manifest.typesLead ++ mangled ≠ Manifest.typesLead ++ other →
        targetOf (Manifest.typesLead ++ mangled) ≠ targetOf (Manifest.typesLead ++ other) := by
  refine ⟨fun scope name hslash hfree hlast => ⟨?_, targetOf_scoped hfree hlast name⟩,
    fun _ => targetOf_unscoped, fun _ => mangle_targetOf, fun mangled other hm ho hne heq => ?_⟩
  · have htext : "@" ++ scope ++ "/" ++ name =
        String.ofList ('@' :: scope.toList ++ '/' :: name.toList) := by
      simp [← String.toList_inj]
    rw [htext, mangle_scoped hslash, ← String.toList_inj]
    simp
  · have hsame : mangled = other := by
      rw [← mangle_targetOf hm, heq, mangle_targetOf ho]
    exact hne (by rw [hsame])

/-- Underscores that belong to the name behind the scope, a name without a scope, and two
names that differ in where their underscores are. -/
theorem targetOf_inverse_of_mangle_underscores :
    mangle "@a_b/_c__d" = "a_b___c__d" ∧ targetOf "@types/a_b___c__d" = "@a_b/_c__d" ∧
      targetOf "@types/a_b" = "a_b" ∧ mangle (targetOf "@types/____") = "____" ∧
      targetOf "@types/a__b" ≠ targetOf "@types/a_b_" := by
  obtain ⟨hscoped, hunscoped, hmangle, hapart⟩ := targetOf_inverse_of_mangle
  obtain ⟨hmangled, htarget⟩ := hscoped "a_b" "_c__d" (by decide) (by decide) (by decide)
  exact ⟨hmangled, htarget, hunscoped "a_b" (by decide), hmangle "____" (by decide),
    hapart "a__b" "a_b_" (by decide) (by decide) (by decide)⟩

end Types

/-! ### Audits -/

namespace Audit

variable {tree : FileTree} {working : Location} {root : Option Path} {selection : Selection}
  {outcome : Outcome} {package mangled : String}

/-- Some source that can be read asks for the package or for a path inside it. -/
def IsRequested (tree : FileTree) (working : Location) (root : Path) (selection : Selection)
    (package : String) : Prop :=
  ∃ file ∈ sourcesOf tree working root selection, ∃ text,
    tree.readText file working = .ok text ∧
    ∃ specifier ∈ Import.specifiersInText text,
      specifier.request = package ∨ ∃ rest, specifier.request = package ++ "/" ++ rest

theorem IsRequested.isImported {root : Path} (hname : Package.IsName package.toList)
    (h : IsRequested tree working root selection package) :
    IsImported tree working root selection package := by
  obtain ⟨file, hfile, text, htext, specifier, hspecifier, hrequest⟩ := h
  refine ⟨file, hfile, text, htext, specifier, hspecifier, ?_⟩
  rcases hrequest with hrequest | ⟨rest, hrequest⟩
  · rw [hrequest, Package.nameOf_eq_of_isName hname]
  · rw [hrequest, Package.nameOf_path_eq hname]

theorem isTypesName_typesLead_append (mangled : String) :
    Manifest.isTypesName (Manifest.typesLead ++ mangled) = true := by
  rw [Manifest.isTypesName, String.toList_append, List.isPrefixOf_iff_prefix]
  exact List.prefix_append _ _

/-- A package that a source asks for is detected, and the types package that describes
it is not called unused, whatever is declared and installed. -/
theorem requested_package_keeps_types (h : run tree working root selection = .ok outcome)
    (hmangles : Types.Mangles mangled package) (hbuiltin : package ∉ Package.builtins)
    (hrequested : IsRequested tree working (rootPath tree working root) selection package) :
    package ∈ outcome.findings.detected ∧
      Manifest.typesLead ++ mangled ∉ outcome.findings.unused := by
  have hdetected : package ∈
      (detectedAt tree working (rootPath tree working root) selection).toList :=
    mem_detectedAt_iff_isImported.mpr ⟨hrequested.isImported hmangles.isName, hbuiltin⟩
  obtain ⟨manifest, -, houtcome⟩ := exists_manifest_of_run h
  refine ⟨by rwa [detected_of_run h], fun hunused => ?_⟩
  rw [houtcome, outcomeAt, Findings.mem_unused_classify] at hunused
  rcases hunused with hplain | ⟨-, -, htarget, -⟩
  · have hfalse := (Findings.mem_plainUnused.mp hplain).2.1
    rw [isTypesName_typesLead_append] at hfalse
    cases hfalse
  · rw [hmangles.targetOf_eq] at htarget
    exact htarget hdetected

/-- A scoped package with underscores in both parts of its name, imported by a path inside
it, and its types package, which is installed and declared. -/
theorem requested_package_keeps_types_underscores :
    let tree := FileTree.ofFiles
      [("/package.json",
          ("\x7b\"dependencies\":\x7b\"d\":\"\"\x7d," ++
            "\"devDependencies\":\x7b\"@types/a_b___c\":\"\"\x7d\x7d").toUTF8),
        ("/node_modules/@types/a_b___c/package.json", "\x7b\x7d".toUTF8),
        ("/node_modules/@types/a_b___c/index.d.ts",
          "//Type definitions for c 1\n//Project:\n//Definitions by:\n//Definitions:".toUTF8),
        ("/a.ts", "from '@a_b/_c/x'".toUTF8)]
    let selection : Selection := ⟨[], ["ts"]⟩
    let findings : Findings := ⟨["@a_b/_c"], ["@a_b/_c"], ["d"]⟩
    (run tree [] none selection).toOption = some ⟨findings, 1⟩ ∧
      Types.Mangles "a_b___c" "@a_b/_c" ∧ "@a_b/_c" ∉ Package.builtins ∧
      IsRequested tree [] (rootPath tree [] none) selection "@a_b/_c" ∧
      "@a_b/_c" ∈ findings.detected ∧ Manifest.typesLead ++ "a_b___c" ∉ findings.unused := by
  intro tree selection findings
  have h : (run tree [] none selection).toOption = some ⟨findings, 1⟩ := by decide +kernel
  have hname : Package.IsName ("@" ++ "a_b" ++ "/" ++ "_c").toList :=
    @Package.IsName.withScope ['a', '_', 'b'] '_' ['c'] (by decide)
      (List.all_eq_true.mp (by decide)) (by decide) (List.all_eq_true.mp (by decide))
  have hmangles : Types.Mangles "a_b___c" "@a_b/_c" :=
    .withScope hname (by decide) (by decide)
  have htext : (tree.readText ⟨"/a.ts"⟩).toOption = some "from '@a_b/_c/x'" := by decide +kernel
  have hrequested : IsRequested tree [] (rootPath tree [] none) selection "@a_b/_c" :=
    ⟨⟨"/a.ts"⟩, by decide +kernel, _, eq_ok_of_toOption htext,
      ⟨.importFrom, "@a_b/_c/x"⟩, by decide +kernel, .inr ⟨"x", by decide⟩⟩
  exact ⟨h, hmangles, by decide, hrequested,
    requested_package_keeps_types (eq_ok_of_toOption h) hmangles (by decide) hrequested⟩

end Audit

end DependencyAudit
