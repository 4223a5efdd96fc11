import DependencyAudit.Proofs.Runs
import Mathlib.Data.List.Basic

/-!
What an inspection of a types package says. The inspection stops at the first
thing that is missing or broken; here the same chain is said as a list of facts
about the tree, and a package is used exactly when all of them hold. The
nearest installation is the only one that counts: one that is broken is not
made up for by another one above it.
-/

namespace DependencyAudit

namespace Install

theorem mem_ancestors {location place : Location} :
    place ∈ ancestors location ↔ place <+: location := by
  simp only [ancestors, List.mem_map, List.mem_reverse, List.mem_range]
  refine ⟨fun h => ?_, fun h => ?_⟩
  · obtain ⟨n, -, rfl⟩ := h
    exact List.take_prefix n location
  · exact ⟨place.length, Nat.lt_succ_of_le h.length_le, (List.prefix_iff_eq_take.mp h).symm⟩

theorem pairwise_ancestors (location : Location) :
    (ancestors location).Pairwise fun first second => second.length < first.length := by
  rw [ancestors, List.pairwise_map, List.pairwise_reverse]
  apply List.pairwise_lt_range.imp_of_mem
  intro n m hn hm hlt
  rw [List.mem_range] at hn hm
  simp only [List.length_take]
  omega

/-- The search from the deepest place up finds the one that all others are above. -/
theorem find?_ancestors_eq_some_iff {location place : Location} {p : Location → Bool} :
    (ancestors location).find? p = some place ↔
      place <+: location ∧ p place = true ∧
        ∀ other, other <+: location → p other = true → other <+: place := by
  rw [List.find?_eq_some_iff_append]
  refine ⟨fun h => ?_, fun h => ?_⟩
  · obtain ⟨hp, deeper, higher, hsplit, hdeeper⟩ := h
    have hplace : place <+: location := by simp [← mem_ancestors, hsplit]
    refine ⟨hplace, hp, fun other hother hpother => ?_⟩
    have hmem : other ∈ deeper ++ place :: higher := by rwa [← hsplit, mem_ancestors]
    rcases List.mem_append.mp hmem with hmem | hmem
    · exact absurd hpother (by simpa using hdeeper other hmem)
    · rcases List.mem_cons.mp hmem with rfl | hmem
      · exact List.prefix_rfl
      · have hpairs := pairwise_ancestors location
        rw [hsplit, List.pairwise_append, List.pairwise_cons] at hpairs
        -- both lie above `location`, so the higher one lies above the other
        exact List.prefix_of_prefix_length_le hother hplace
          (Nat.le_of_lt (hpairs.2.1.1 other hmem))
  · obtain ⟨hplace, hp, hothers⟩ := h
    obtain ⟨deeper, higher, hsplit⟩ := List.append_of_mem (mem_ancestors.mpr hplace)
    refine ⟨hp, deeper, higher, hsplit, fun other hmem => ?_⟩
    by_contra hpother
    have hother : other <+: location := by simp [← mem_ancestors, hsplit, hmem]
    have hle := (hothers other hother (by simpa using hpother)).length_le
    have hpairs := pairwise_ancestors location
    rw [hsplit, List.pairwise_append] at hpairs
    have := hpairs.2.2 other hmem place (by simp)
    omega

/-- A place on the way from where a path begins to where its text leads. An absolute
path begins at the root, so these are all places at or above it; the empty path leads
no further than to the working directory, where it begins. -/
def OnWay (start : Path) (working place : Location) : Prop :=
  start.origin working <+: place ∧ place <+: start.origin working ++ start.lexical

theorem onWay_iff {start : Path} {working place : Location} :
    OnWay start working place ↔
      ∃ names, names <+: start.lexical ∧ place = start.origin working ++ names := by
  refine ⟨fun h => ?_, fun h => ?_⟩
  · obtain ⟨⟨names, rfl⟩, habove⟩ := h
    exact ⟨names, (List.prefix_append_right_inj _).mp habove, rfl⟩
  · obtain ⟨names, hnames, rfl⟩ := h
    exact ⟨List.prefix_append _ _, (List.prefix_append_right_inj _).mpr hnames⟩

theorem onWay_nil {start : Path} {place : Location} :
    OnWay start [] place ↔ place <+: start.lexical := by
  simp [OnWay]

theorem onWay_empty {working place : Location} :
    OnWay ⟨""⟩ working place ↔ place = working := by
  have hend : (Path.mk "").lexical = [] := rfl
  have hbeginning : (Path.mk "").origin working = working := rfl
  rw [OnWay, hend, hbeginning, List.append_nil]
  exact ⟨fun ⟨habove, hbelow⟩ => hbelow.eq_of_length_le habove.length_le,
    fun h => h ▸ ⟨List.prefix_rfl, List.prefix_rfl⟩⟩

/-- The package is installed at a place at or above `start`, and every other
such place lies above this one. -/
def IsNearest (tree : FileTree) (start : Path) (package : String) (place : Location)
    (working : Location := []) : Prop :=
  OnWay start working place ∧ tree.isFile (manifestAt place package) = true ∧
    ∀ other, OnWay start working other → tree.isFile (manifestAt other package) = true →
      other <+: place

theorem nearest?_eq_some_iff {tree : FileTree} {start : Path} {package : String}
    {working place : Location} :
    nearest? tree start package working = some place ↔
      IsNearest tree start package place working := by
  rw [nearest?, reach, List.find?_map, Option.map_eq_some_iff, IsNearest, onWay_iff]
  simp only [find?_ancestors_eq_some_iff, Function.comp_apply, onWay_iff]
  refine ⟨fun h => ?_, fun h => ?_⟩
  · obtain ⟨names, ⟨hnames, hfile, hothers⟩, rfl⟩ := h
    refine ⟨⟨names, hnames, rfl⟩, hfile, fun other hother hfile' => ?_⟩
    obtain ⟨above, habove, rfl⟩ := hother
    exact (List.prefix_append_right_inj _).mpr (hothers above habove hfile')
  · obtain ⟨⟨names, hnames, rfl⟩, hfile, hothers⟩ := h
    refine ⟨names, ⟨hnames, hfile, fun above habove hfile' => ?_⟩, rfl⟩
    exact (List.prefix_append_right_inj _).mp (hothers _ ⟨above, habove, rfl⟩ hfile')

/-- From an empty path nothing is looked for above the working directory. -/
theorem nearest?_empty_eq_some_iff {tree : FileTree} {package : String}
    {working place : Location} :
    nearest? tree ⟨""⟩ package working = some place ↔
      place = working ∧ tree.isFile (manifestAt working package) = true := by
  rw [nearest?_eq_some_iff, IsNearest]
  simp only [onWay_empty, forall_eq]
  refine ⟨fun h => ?_, fun h => ?_⟩
  · obtain ⟨rfl, hfile, -⟩ := h
    exact ⟨rfl, hfile⟩
  · obtain ⟨rfl, hfile⟩ := h
    exact ⟨rfl, hfile, fun _ => List.prefix_rfl⟩

end Install

namespace Types

variable {tree : FileTree} {start directory : Path} {working : Location} {manifest : Json}

/-! ### The entry declaration -/

/-- The field names a file that exists. -/
def Declares (tree : FileTree) (directory : Path) (manifest : Json) (field : String)
    (entry : Path) : Prop :=
  ∃ declared, manifest.get? field = some (.string declared) ∧ declared ≠ "" ∧
    entry = Install.resolve directory (withEnding declared) ∧ tree.isFile entry = true

/-- The entry declaration: what the first of the two fields names that names an
existing file, and the default if neither does. -/
inductive IsEntry (tree : FileTree) (directory : Path) (manifest : Json) : Path → Prop
  | types {entry : Path} (declares : Declares tree directory manifest "types" entry) :
      IsEntry tree directory manifest entry
  | typings {entry : Path} (noTypes : ∀ other, ¬ Declares tree directory manifest "types" other)
      (declares : Declares tree directory manifest "typings" entry) :
      IsEntry tree directory manifest entry
  | default (noTypes : ∀ other, ¬ Declares tree directory manifest "types" other)
      (noTypings : ∀ other, ¬ Declares tree directory manifest "typings" other) :
      IsEntry tree directory manifest (directory.join defaultEntry)

theorem string?_eq_some_iff {json : Json} {value : String} :
    json.string? = some value ↔ json = .string value := by
  cases json <;> simp [Json.string?]

theorem declaredFile?_eq_some_iff {field : String} {entry : Path} :
    declaredFile? tree directory manifest field = some entry ↔
      Declares tree directory manifest field entry := by
  rw [declaredFile?, Declares]
  cases hfield : (manifest.get? field).bind Json.string? with
  | none =>
      refine ⟨nofun, fun h => ?_⟩
      obtain ⟨declared, hget, -⟩ := h
      simp [hget, Json.string?] at hfield
  | some declared =>
      obtain ⟨value, hget, hvalue⟩ := Option.bind_eq_some_iff.mp hfield
      rw [string?_eq_some_iff.mp hvalue] at hget
      simp only [hget, Option.some.injEq, Json.string.injEq, exists_eq_left',
        Option.ite_none_right_eq_some]
      refine ⟨fun h => ?_, fun h => ?_⟩
      · obtain ⟨⟨hne, hfile⟩, rfl⟩ := h
        exact ⟨hne, rfl, hfile⟩
      · obtain ⟨hne, rfl, hfile⟩ := h
        exact ⟨⟨hne, hfile⟩, rfl⟩

theorem declaredFile?_eq_none_iff {field : String} :
    declaredFile? tree directory manifest field = none ↔
      ∀ other, ¬ Declares tree directory manifest field other := by
  simp only [← declaredFile?_eq_some_iff, Option.eq_none_iff_forall_ne_some, ne_eq]

theorem entryOf_eq_iff {entry : Path} :
    entryOf tree directory manifest = entry ↔ IsEntry tree directory manifest entry := by
  simp only [entryOf, entryFields, List.findSome?_cons, List.findSome?_nil]
  cases htypes : declaredFile? tree directory manifest "types" with
  | some first =>
      refine ⟨fun h => ?_, fun h => ?_⟩
      · subst h
        exact .types (declaredFile?_eq_some_iff.mp htypes)
      · rcases h with ⟨h⟩ | ⟨hno, -⟩ | ⟨hno, -⟩
        · rw [← declaredFile?_eq_some_iff, htypes] at h
          exact Option.some.inj h
        · exact absurd (declaredFile?_eq_some_iff.mp htypes) (hno first)
        · exact absurd (declaredFile?_eq_some_iff.mp htypes) (hno first)
  | none =>
      have hno := declaredFile?_eq_none_iff.mp htypes
      cases htypings : declaredFile? tree directory manifest "typings" with
      | some second =>
          have hsecond := declaredFile?_eq_some_iff.mp htypings
          refine ⟨fun h => ?_, fun h => ?_⟩
          · subst h
            exact .typings hno hsecond
          · rcases h with ⟨h⟩ | ⟨-, h⟩ | ⟨-, hno'⟩
            · exact absurd h (hno entry)
            · rw [← declaredFile?_eq_some_iff, htypings] at h
              exact Option.some.inj h
            · exact absurd hsecond (hno' second)
      | none =>
          have hno' := declaredFile?_eq_none_iff.mp htypings
          refine ⟨fun h => ?_, fun h => ?_⟩
          · subst h
            exact .default hno hno'
          · rcases h with ⟨h⟩ | ⟨-, h⟩ | -
            · exact absurd h (hno entry)
            · exact absurd h (hno' entry)
            · rfl

/-! ### The inspection -/

theorem isMarkedNonNpm_iff :
    isMarkedNonNpm manifest = true ↔ manifest.get? "nonNpm" = some (.bool true) := by
  rw [isMarkedNonNpm]
  cases manifest.get? "nonNpm" with
  | none => simp
  | some value => cases value <;> simp [Json.isTrue]

/-- What is used of an inspection: nothing, unless all of it succeeded. -/
def record? (tree : FileTree) (working : Location) (start : Path) (name : String) :
    Option TypesPackage :=
  match inspect tree start name working with
  | .ok (some installed) => some installed.toTypesPackage
  | _ => none

theorem usable_eq_filterMap_record? (names : List String) :
    usable tree start names working = names.filterMap (record? tree working start) :=
  rfl

theorem record?_eq_some_iff_inspectAt {name : String} {package : TypesPackage} :
    record? tree working start name = some package ↔
      ∃ place installed, Install.IsNearest tree start name place working ∧
        inspectAt tree place name = .ok installed ∧ installed.toTypesPackage = package := by
  simp only [← Install.nearest?_eq_some_iff, record?, inspect]
  cases hnearest : Install.nearest? tree start name working with
  | none => simp
  | some place =>
      cases hinspect : inspectAt tree place name with
      | error e => simp [hinspect, Except.map]
      | ok installed => simp [hinspect, Except.map]

theorem inspectAt_eq_ok_iff {name : String} {place : Location} {installed : Installed} :
    inspectAt tree place name = .ok installed ↔
      ∃ text manifest, tree.readText (Install.manifestAt place name) = .ok text ∧
        Json.ofText? text = some manifest ∧
        ∃ entry, IsEntry tree (Install.directoryAt place name).trimmed manifest entry ∧
          (isMarkedNonNpm manifest = true ∧
              installed =
                ⟨⟨name, targetOf name, true⟩, Install.manifestAt place name, entry, none⟩ ∨
            isMarkedNonNpm manifest = false ∧
              ∃ declarations header, tree.readText entry = .ok declarations ∧
                Header.ofText declarations = .ok header ∧
                installed = ⟨⟨name, targetOf name, header.nonNpm⟩,
                  Install.manifestAt place name, entry, some header⟩) := by
  simp only [← entryOf_eq_iff, exists_eq_left']
  unfold inspectAt
  dsimp only
  cases htext : tree.readText (Install.manifestAt place name) with
  | error e => simp
  | ok text =>
      cases hjson : Json.ofText? text with
      | none => simp [hjson]
      | some manifest =>
          cases hmarked : isMarkedNonNpm manifest with
          | true => simpa [hjson, hmarked] using eq_comm
          | false =>
              cases hdeclarations : tree.readText
                  (entryOf tree (Install.directoryAt place name).trimmed manifest) with
              | error e => simp [hjson, hmarked, hdeclarations]
              | ok declarations =>
                  cases hheader : Header.ofText declarations with
                  | error e => simp [hjson, hmarked, hdeclarations, hheader]
                  | ok header => simpa [hjson, hmarked, hdeclarations, hheader] using eq_comm

/-- The package is installed, its own manifest does not mark it as non-npm, and
its entry declaration has a header that does not do so either. -/
def IsNpmInstall (tree : FileTree) (start : Path) (name : String)
    (working : Location := []) : Prop :=
  ∃ place text manifest entry declarations header,
    Install.IsNearest tree start name place working ∧
      tree.readText (Install.manifestAt place name) = .ok text ∧
      Json.ofText? text = some manifest ∧
      manifest.get? "nonNpm" ≠ some (.bool true) ∧
      IsEntry tree (Install.directoryAt place name).trimmed manifest entry ∧
      tree.readText entry = .ok declarations ∧
      Header.ofText declarations = .ok header ∧ header.nonNpm = false

/-- A record that describes an npm package is one of an installation in order. -/
theorem record?_eq_some_and_npm_iff {name : String} {package : TypesPackage} :
    record? tree working start name = some package ∧ package.nonNpm = false ↔
      package = ⟨name, targetOf name, false⟩ ∧ IsNpmInstall tree start name working := by
  simp only [record?_eq_some_iff_inspectAt, inspectAt_eq_ok_iff, IsNpmInstall]
  refine ⟨fun h => ?_, fun h => ?_⟩
  · obtain ⟨⟨place, installed, hnearest, ⟨text, manifest, htext, hjson, entry, hentry, hcase⟩,
      rfl⟩, hnpm⟩ := h
    rcases hcase with ⟨-, rfl⟩ | ⟨hmarked, declarations, header, hread, hheader, rfl⟩
    · cases hnpm
    · refine ⟨by rw [show header.nonNpm = false from hnpm], place, text, manifest, entry,
        declarations, header, hnearest, htext, hjson, ?_, hentry, hread, hheader, hnpm⟩
      rw [ne_eq, ← isMarkedNonNpm_iff, hmarked]
      exact Bool.false_ne_true
  · obtain ⟨rfl, place, text, manifest, entry, declarations, header, hnearest, htext, hjson,
      hmarked, hentry, hread, hheader, hnpm⟩ := h
    rw [ne_eq, ← isMarkedNonNpm_iff, Bool.not_eq_true] at hmarked
    refine ⟨⟨place, _, hnearest, ⟨text, manifest, htext, hjson, entry, hentry,
      .inr ⟨hmarked, declarations, header, hread, hheader, rfl⟩⟩, ?_⟩, rfl⟩
    rw [hnpm]

open Classical in
/-- The types packages without use are the names whose installations are in
order and whose targets nothing uses. -/
theorem map_name_filter_isIdleTypes (names : List String) (detected : NameSet) :
    ((usable tree start names working).filter (Findings.isIdleTypes detected)).map
        TypesPackage.name =
      names.filter fun name =>
        decide (IsNpmInstall tree start name working) &&
          Findings.isIdle detected (targetOf name) := by
  induction names with
  | nil => rfl
  | cons name names ih =>
      rw [usable_eq_filterMap_record?] at ih ⊢
      have hrecord := @record?_eq_some_and_npm_iff tree start working name
      by_cases hinstall : IsNpmInstall tree start name working
      · have hsome : record? tree working start name = some ⟨name, targetOf name, false⟩ :=
          (hrecord.mpr ⟨rfl, hinstall⟩).1
        rw [List.filterMap_cons_some hsome, List.filter_cons, List.filter_cons, ← ih]
        simp only [Findings.isIdleTypes, Bool.not_false, Bool.true_and, hinstall, decide_true]
        split <;> rfl
      · rw [List.filter_cons, decide_eq_false hinstall, Bool.false_and,
          if_neg Bool.false_ne_true, ← ih]
        cases hsome : record? tree working start name with
        | none => rw [List.filterMap_cons_none hsome]
        | some package =>
            have hnpm : package.nonNpm = true := by
              by_contra hne
              exact hinstall (hrecord.mp ⟨hsome, by simpa using hne⟩).2
            rw [List.filterMap_cons_some hsome, List.filter_cons_of_neg]
            simp [Findings.isIdleTypes, hnpm]

end Types

namespace Audit

variable {tree : FileTree} {working : Location} {root : Option Path} {selection : Selection}
  {outcome : Outcome}

/-- A declared types package is reported as unused exactly when its nearest
installation is in order and describes an npm package, and neither the sources
nor any tool use the package that it describes. -/
theorem types_package_unused_iff {manifest : Manifest} {name : String}
    (h : run tree working root selection = .ok outcome)
    (hmanifest : readManifest tree (rootPath tree working root) working = .ok manifest)
    (hdeclared : name ∈ manifest.declared) (htypes : Manifest.isTypesName name = true) :
    name ∈ outcome.findings.unused ↔
      Types.IsNpmInstall tree (rootPath tree working root) name working ∧
        Types.targetOf name ∉ outcome.findings.detected ∧
        Types.targetOf name ∉ Package.implicits := by
  have hmem : name ∈ manifest.typesPackages := by
    simp [Manifest.typesPackages, List.mem_eraseDups, hdeclared, htypes]
  simp only [outcome_eq_of_run h hmanifest, outcomeAt, Findings.classify, List.mem_append,
    Types.map_name_filter_isIdleTypes, List.mem_filter, hmem, htypes, Bool.not_true,
    Bool.and_false, Bool.false_eq_true, and_false, false_or, true_and, Bool.and_eq_true,
    decide_eq_true_eq, Findings.isIdle_iff]

/-- An installation above the project, with an entry that only the second field
names. -/
theorem types_package_unused_iff_installed_above :
    let tree := FileTree.ofFiles
      [("/p/package.json", "\x7b\"devDependencies\": \x7b\"@types/s__d\": \"1\"\x7d\x7d".toUTF8),
        ("/node_modules/@types/s__d/package.json", "\x7b\"typings\": \"./m\"\x7d".toUTF8),
        ("/node_modules/@types/s__d/m.d.ts",
          ("// Type definitions for d 1\n// Project: p\n// Definitions by: A\n" ++
            "// Definitions: d").toUTF8)]
    let selection : Selection := ⟨[], []⟩
    let root := rootPath tree ["p"] none
    (run tree ["p"] none selection).toOption = some ⟨⟨[], [], ["@types/s__d"]⟩, 0⟩ ∧
      (readManifest tree root ["p"]).toOption = some ⟨[], ["@types/s__d"]⟩ ∧
      Types.IsNpmInstall tree root "@types/s__d" ["p"] ∧
      Types.targetOf "@types/s__d" ∉ ([] : List String) ∧
      Types.targetOf "@types/s__d" ∉ Package.implicits := by
  intro tree selection root
  have h : (run tree ["p"] none selection).toOption =
      some ⟨⟨[], [], ["@types/s__d"]⟩, 0⟩ := by decide +kernel
  have hmanifest : (readManifest tree root ["p"]).toOption = some ⟨[], ["@types/s__d"]⟩ := by
    decide +kernel
  have hiff := @types_package_unused_iff _ _ _ _ _ _ "@types/s__d" (eq_ok_of_toOption h)
    (eq_ok_of_toOption hmanifest) (by decide) (by decide)
  exact ⟨h, hmanifest, hiff.mp (by simp)⟩

end Audit

end DependencyAudit
