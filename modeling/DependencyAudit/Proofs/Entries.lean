import DependencyAudit.Proofs.Installs
import DependencyAudit.Proofs.Places

/-!
What the files are called that an audit reads besides the sources. However a
manifest writes the path of an entry declaration, the file that it leads to has
a name with the ending of declaration files, because the ending is put behind a
path that lacks it and cleaning a path keeps its last name.
-/

namespace DependencyAudit

theorem Audit.getLast?_lexicalFrom_manifestPath (root : Path) (working : Location) :
    ((manifestPath root).lexicalFrom working).getLast? = some Manifest.fileName :=
  Path.getLast?_lexicalFrom_join (by decide) working

namespace Install

theorem getLast?_lexicalFrom_manifestAt (place : Location) (package : String)
    (working : Location) :
    ((manifestAt place package).lexicalFrom working).getLast? = some Manifest.fileName :=
  Path.getLast?_lexicalFrom_join (by decide) working

theorem leaf_dropDotSlashes {text leaf : List Char} (h : Path.Leaf text leaf) :
    Path.Leaf (dropDotSlashes text) leaf := by
  fun_induction dropDotSlashes text with
  | case1 text ih =>
      obtain ⟨hleaf, front, hsplit, hfront⟩ := h
      apply ih
      -- the leaf has no slash, so `./` lies in front of it
      obtain _ | ⟨_, _ | ⟨_, front⟩⟩ := front
      · rw [List.nil_append] at hsplit
        simp [← hsplit] at hleaf
      · rw [List.singleton_append, List.cons.injEq] at hsplit
        simp [← hsplit.2] at hleaf
      · simp only [List.cons_append, List.cons.injEq] at hsplit
        refine ⟨hleaf, front, hsplit.2.2, ?_⟩
        by_cases hnil : front = []
        · exact .inl hnil
        · simpa [List.getLast?_cons_of_ne_nil, hnil] using hfront
  | case2 text => exact h

end Install

namespace Types

theorem isFileName_of_suffix {leaf : List Char} (hslash : '/' ∉ leaf)
    (hending : declarationEnding.toList <:+ leaf) : isFileName (String.ofList leaf) = true := by
  refine isFileName_iff.mpr ⟨?_, by simpa using hslash⟩
  have hlength := hending.length_le
  have hne : ∀ text : String, text.toList.length < 5 → String.ofList leaf ≠ text := by
    rintro _ hshort rfl
    rw [String.toList_ofList] at hshort
    exact absurd (Nat.lt_of_le_of_lt hlength hshort) (by decide)
  simp [Path.isStep, Path.isIdle, hne]

/-- The place that the path spells out has a name like a declaration file. -/
def IsDeclarationPath (path : Path) : Prop :=
  ∃ last, (path.lexicalFrom []).getLast? = some last ∧ declarationEnding.toList <:+ last.toList

theorem isDeclarationPath_resolve {directory : Path} {declared : String}
    (h : declarationEnding.toList <:+ declared.toList) :
    IsDeclarationPath (Install.resolve directory declared) := by
  obtain ⟨leaf, hleaf⟩ := Path.exists_leaf declared.toList
  have hending := hleaf.suffix (by decide) h
  have hname := isFileName_of_suffix hleaf.1 hending
  have hdropped : Path.Leaf (String.ofList (Install.dropDotSlashes declared.toList)).toList
      (String.ofList leaf).toList := by
    rw [String.toList_ofList, String.toList_ofList]
    exact Install.leaf_dropDotSlashes hleaf
  have hjoined := @Path.Leaf.join directory _ _ hdropped
  have hlast := hjoined.getLast?_lexicalFrom (isFileName_iff.mp hname).1 []
  obtain ⟨init, hinit⟩ := List.getLast?_eq_some_iff.mp hlast
  refine ⟨String.ofList leaf, ?_, by rwa [String.toList_ofList]⟩
  rw [Install.resolve, ← Path.lexicalFrom_nil, hinit]
  exact Path.getLast?_lexicalFrom_ofLocation hname []

theorem suffix_withEnding (declared : String) :
    declarationEnding.toList <:+ (withEnding declared).toList := by
  rw [withEnding]
  split
  next h => exact List.isSuffixOf_iff_suffix.mp h
  next => simp

theorem IsEntry.isDeclarationPath {tree : FileTree} {directory entry : Path} {manifest : Json}
    (h : IsEntry tree directory manifest entry) : IsDeclarationPath entry := by
  cases h with
  | types declares =>
      obtain ⟨declared, -, -, rfl, -⟩ := declares
      exact isDeclarationPath_resolve (suffix_withEnding declared)
  | typings _ declares =>
      obtain ⟨declared, -, -, rfl, -⟩ := declares
      exact isDeclarationPath_resolve (suffix_withEnding declared)
  | default => exact ⟨defaultEntry, Path.getLast?_lexicalFrom_join (by decide) [], by decide⟩

end Types

end DependencyAudit
