import DependencyAudit.Proofs.Detection
import DependencyAudit.Proofs.Naming

/-!
Detecting what has been detected. A name that has been detected is a whole package
name, so it names itself, and so does every path inside the package; and a module of
the runtime that is no such name before a path is put behind it is none afterwards.
Which packages are detected is therefore settled by the names alone. Because the
answer is a set, it only depends on which specifiers there are, and the answer for two
lists together is the union of the answers.
-/

namespace DependencyAudit.Package

open DependencyAudit.Text

variable {specifiers : List String} {name : String}

/-! ### Names and paths -/

/-- The specifier is the name of a package, or a path inside the package. -/
inductive AsksFor (name : String) : String → Prop
  | whole : AsksFor name name
  | inside (path : String) : AsksFor name (name ++ "/" ++ path)

theorem AsksFor.nameOf_eq {specifier : String} (h : AsksFor name specifier)
    (hname : IsName name.toList) : nameOf specifier = some name := by
  cases h with
  | whole => exact nameOf_eq_of_isName hname
  | inside path => exact nameOf_path_eq hname path

theorem isBuiltin_eq_false_iff : isBuiltin name = false ↔ name ∉ builtins := by
  rw [isBuiltin, List.contains_eq_mem, decide_eq_false_iff_not]

theorem slash_not_mem_builtins : ∀ builtin ∈ builtins, '/' ∉ builtin.toList := by
  decide

/-- Modules of the runtime are listed without their sub-modules. -/
theorem isBuiltin_path_eq_false (name path : String) :
    isBuiltin (name ++ "/" ++ path) = false := by
  rw [isBuiltin_eq_false_iff]
  intro hmem
  apply slash_not_mem_builtins _ hmem
  simp

/-! ### Detecting again -/

theorem isName_of_mem_detect (h : name ∈ (detect specifiers).toList) : IsName name.toList := by
  obtain ⟨specifier, -, hspecifier, -⟩ := mem_detect.mp h
  obtain ⟨-, -, hname, -⟩ := nameOf_eq_some_iff.mp hspecifier
  exact hname

theorem isBuiltin_of_mem_detect (h : name ∈ (detect specifiers).toList) :
    isBuiltin name = false := by
  obtain ⟨-, -, -, hbuiltin⟩ := mem_detect.mp h
  exact isBuiltin_eq_false_iff.mpr hbuiltin

/-- Whichever way the detected names are asked for, they are detected again and nothing
else is. -/
theorem detect_map_of_asksFor {request : String → String}
    (h : ∀ name, AsksFor name (request name)) :
    (detect ((detect specifiers).toList.map request)).toList = (detect specifiers).toList := by
  apply Ascending.toList_eq_of_mem_iff
  intro name
  rw [mem_detect]
  refine ⟨fun hagain => ?_, fun hfirst => ?_⟩
  · obtain ⟨specifier, hmem, hspecifier, -⟩ := hagain
    obtain ⟨other, hother, rfl⟩ := List.mem_map.mp hmem
    rw [(h other).nameOf_eq (isName_of_mem_detect hother)] at hspecifier
    rwa [← Option.some.inj hspecifier]
  · obtain ⟨-, -, -, hbuiltin⟩ := mem_detect.mp hfirst
    exact ⟨request name, List.mem_map_of_mem hfirst,
      (h name).nameOf_eq (isName_of_mem_detect hfirst), hbuiltin⟩

/-! ### Several lists of specifiers -/

theorem detect_congr {others : List String} (h : ∀ s, s ∈ others ↔ s ∈ specifiers) :
    (detect others).toList = (detect specifiers).toList := by
  apply Ascending.toList_eq_of_mem_iff
  intro name
  simp only [mem_detect, h]

/-- The names of two lists, each of them once and in byte order. -/
structure IsUnion (first second union : List String) : Prop where
  ascending : union.Pairwise fun a b => compareBytes a b = .lt
  mem_iff : ∀ name, name ∈ union ↔ name ∈ first ∨ name ∈ second

theorem isUnion_detect (first second : List String) :
    IsUnion (detect first).toList (detect second).toList (detect (first ++ second)).toList where
  ascending := (detect (first ++ second)).ascends
  mem_iff name := by
    simp only [mem_detect, List.mem_append, or_and_right, exists_or]

/-- The detected packages are the packages that the specifiers name, apart from modules
of the runtime. Detecting again gives the same names, also by paths inside the packages,
none of which is taken for a module of the runtime; more specifiers add their own
packages, and neither the order nor the repetition of specifiers counts. -/
theorem detect_stable (specifiers : List String) :
    (∀ name, name ∈ (detect specifiers).toList ↔
        ∃ specifier ∈ specifiers, nameOf specifier = some name ∧ isBuiltin name = false) ∧
      (detect (detect specifiers).toList).toList = (detect specifiers).toList ∧
      (∀ path : String → String,
        (detect ((detect specifiers).toList.map fun name => name ++ "/" ++ path name)).toList =
          (detect specifiers).toList) ∧
      (∀ name ∈ (detect specifiers).toList, isBuiltin name = false ∧
        ∀ path, nameOf (name ++ "/" ++ path) = some name ∧
          isBuiltin (name ++ "/" ++ path) = false) ∧
      (∀ more, IsUnion (detect specifiers).toList (detect more).toList
        (detect (specifiers ++ more)).toList) ∧
      ∀ others, (∀ s, s ∈ others ↔ s ∈ specifiers) →
        (detect others).toList = (detect specifiers).toList := by
  refine ⟨fun name => ?_, ?_, fun path => ?_, fun name hname => ?_, isUnion_detect specifiers,
    fun others => detect_congr⟩
  · simp only [mem_detect, isBuiltin_eq_false_iff]
  · have hagain := @detect_map_of_asksFor specifiers id fun _ => .whole
    rwa [List.map_id] at hagain
  · exact detect_map_of_asksFor fun name => .inside (path name)
  · refine ⟨isBuiltin_of_mem_detect hname, fun path => ⟨?_, isBuiltin_path_eq_false name path⟩⟩
    exact nameOf_path_eq (isName_of_mem_detect hname) path

/-- A scoped name, a name that goes on with a dot, a module of the runtime and a path in
the project, asked for in another order and more than once. -/
theorem detect_stable_mixed :
    let specifiers := ["lodash/fp", "./b", "@s/d.e/f", "fs/x", "lodash"]
    let names := ["@s/d.e", "lodash"]
    (detect specifiers).toList = names ∧ (detect names).toList = names ∧
      (detect ["@s/d.e/:", "lodash/@s/d.e"]).toList = names ∧
      (isBuiltin "lodash" = false ∧ ∀ path, nameOf ("lodash" ++ "/" ++ path) = some "lodash" ∧
        isBuiltin ("lodash" ++ "/" ++ path) = false) ∧
      IsUnion names (detect ["koa"]).toList (detect (specifiers ++ ["koa"])).toList ∧
      (∀ s, s ∈ specifiers.reverse ++ specifiers ↔ s ∈ specifiers) ∧
      (detect (specifiers.reverse ++ specifiers)).toList = names := by
  intro specifiers names
  have h : (detect specifiers).toList = names := by decide +kernel
  have hsame : ∀ s, s ∈ specifiers.reverse ++ specifiers ↔ s ∈ specifiers := by simp
  obtain ⟨-, hagain, hpaths, hnames, hunion, hothers⟩ := detect_stable specifiers
  rw [h] at hagain hpaths hnames hunion hothers
  have hpath := hpaths fun name => if name = "lodash" then "@s/d.e" else ":"
  exact ⟨h, hagain, hpath, hnames "lodash" (by decide), hunion ["koa"], hsame, hothers _ hsame⟩

end DependencyAudit.Package
