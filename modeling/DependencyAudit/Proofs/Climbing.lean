import DependencyAudit.Proofs.Cutting
import DependencyAudit.Proofs.Installs

/-!
The search for an installation as a climb. The place of the start is asked first, then
the place above it, and so on until one of them has the package installed or the root
has been asked as well. Each place is asked by probing one path, which is written out
here from the names on the way to the place; a directory under that path, a missing name
or a file in the way all count as a no. A climb is determined by the answers to its
probes, so a tree that answers them alike leads to the same result.
-/

namespace DependencyAudit

open Install

/-! ### Places -/

namespace Path

theorem isFileName_of_mem_segments {path : Path} {segment : String} (h : segment ∈ path.segments)
    (hidle : isIdle segment = false) (hup : segment ≠ "..") : isFileName segment = true := by
  refine isFileName_iff.mpr ⟨by simp [isStep, hidle, hup], ?_⟩
  obtain ⟨part, hpart, rfl⟩ := List.mem_map.mp h
  rw [String.toList_ofList]
  exact (Text.splitBy_splitOn '/' path.text.toList).not_mem part hpart

/-- The place that a path spells out has names only, whatever else is in the path. -/
theorem isFileName_of_mem_lexical {path : Path} :
    ∀ name ∈ path.lexical, isFileName name = true := by
  have hfold : ∀ (segments : List String) (place : Location), segments ⊆ path.segments →
      (∀ name ∈ place, isFileName name = true) →
      ∀ name ∈ segments.foldl lexicalStep place, isFileName name = true := by
    intro segments
    induction segments with
    | nil => exact fun place _ hplace => hplace
    | cons segment segments ih =>
        intro place hsubset hplace
        obtain ⟨hsegment, hsegments⟩ := List.cons_subset.mp hsubset
        refine ih _ hsegments fun name hname => ?_
        rw [lexicalStep] at hname
        split at hname
        next => exact hplace name hname
        next hidle =>
          split at hname
          next => exact hplace name (List.dropLast_subset place hname)
          next hup =>
            rcases List.mem_append.mp hname with hname | hname
            · exact hplace name hname
            · rw [List.mem_singleton.mp hname]
              exact isFileName_of_mem_segments hsegment (by simpa using hidle) hup
  exact hfold path.segments [] (List.Subset.refl _) (by simp)

theorem ofLocation_text {place : Location} (h : place ≠ []) :
    (ofLocation place).text = String.join (place.map ("/" ++ ·)) := by
  induction place with
  | nil => exact absurd rfl h
  | cons name place ih =>
      by_cases hplace : place = []
      · simp [hplace, ofLocation]
      · rw [List.map_cons, String.join_cons, ← ih hplace, ofLocation, ofLocation,
          String.intercalate_cons_of_ne_nil hplace]
        simp only [String.append_assoc]

end Path

/-! ### Answers -/

namespace FileTree

variable {tree : FileTree} {path : Path}

/-- There is no file under the path: it leads to a directory, or nowhere, because a name
is missing or because something that is no directory stands in the way. -/
inductive LacksFile (tree : FileTree) (path : Path) : Prop
  | directory (isDirectory : tree.isDirectory path = true)
  | missing (notFound : tree.locate path = .error .notFound)
  | obstructed (notDirectory : tree.locate path = .error .notDirectory)

theorem error_of_step {location : Location} {segment : String} {error : ReadError}
    (h : tree.step location segment = .error error) :
    error = .notFound ∨ error = .notDirectory := by
  unfold step at h
  split_ifs at h
  · exact .inr (Except.error.inj h).symm
  · exact .inl (Except.error.inj h).symm

theorem error_of_foldlM_step {segments : List String} {start : Location} {error : ReadError}
    (h : segments.foldlM tree.step start = .error error) :
    error = .notFound ∨ error = .notDirectory := by
  induction segments generalizing start with
  | nil => cases h
  | cons segment segments ih =>
      rw [List.foldlM_cons] at h
      cases hstep : tree.step start segment with
      | ok next =>
          rw [hstep] at h
          exact ih h
      | error other =>
          rw [hstep] at h
          rw [← Except.error.inj h]
          exact error_of_step hstep

theorem entryAt_ne_none_of_step {location place : Location} {segment : String}
    (h : tree.step location segment = .ok place) : tree.entryAt place ≠ none := by
  obtain ⟨hdirectory, rfl, hentry⟩ := step_eq_ok_iff.mp h
  by_cases hstep : Path.isStep segment = true
  · exact hentry hstep
  · by_cases hidle : Path.isIdle segment = true
    · simp [Path.lexicalStep, hidle, hdirectory]
    · have hup : segment = ".." := by
        simpa [Path.isStep, hidle] using hstep
      have hparent : tree.entryAt location.dropLast = some .directory := by
        rcases List.eq_nil_or_concat' location with rfl | ⟨front, last, rfl⟩
        · exact hdirectory
        · rw [List.dropLast_concat]
          exact tree.closed front last (by simp [hdirectory])
      rw [Path.lexicalStep, if_neg hidle, if_pos hup, hparent]
      simp

theorem error_of_locate {error : ReadError} (h : tree.locate path = .error error) :
    error = .notFound ∨ error = .notDirectory := by
  rw [locate, locateFrom] at h
  split_ifs at h
  · exact .inl (Except.error.inj h).symm
  · exact error_of_foldlM_step h

/-- A path leads to places only that have an entry. -/
theorem entryAt_ne_none_of_locate {place : Location} (h : tree.locate path = .ok place) :
    tree.entryAt place ≠ none := by
  obtain ⟨-, h⟩ := locateFrom_eq_ok_iff.mp h
  rcases List.eq_nil_or_concat' path.segments with hnil | ⟨front, last, hlast⟩
  · rw [hnil, Path.origin_nil] at h
    rw [← Except.ok.inj h, tree.root]
    simp
  · rw [hlast] at h
    obtain ⟨next, -, hstep⟩ := foldlM_step_concat.mp h
    exact entryAt_ne_none_of_step hstep

theorem isFile_eq_false_iff : tree.isFile path = false ↔ tree.LacksFile path := by
  refine ⟨fun h => ?_, fun h => ?_⟩
  · cases hlocate : tree.locate path with
    | error e =>
        rcases error_of_locate hlocate with rfl | rfl
        · exact .missing hlocate
        · exact .obstructed hlocate
    | ok place =>
        cases hentry : tree.entryAt place with
        | none => exact absurd hentry (entryAt_ne_none_of_locate hlocate)
        | some entry =>
            cases entry with
            | directory => exact .directory (isDirectory_iff.mpr ⟨place, hlocate, hentry⟩)
            | file content => simp [isFile, hlocate, isFileAt, hentry] at h
  · cases h with
    | directory isDirectory =>
        obtain ⟨place, hlocate, hentry⟩ := isDirectory_iff.mp isDirectory
        simp [isFile, hlocate, isFileAt, hentry]
    | missing notFound => simp [isFile, notFound]
    | obstructed notDirectory => simp [isFile, notDirectory]

end FileTree

/-! ### The probed paths -/

namespace Install

variable {tree : FileTree} {package : String} {place : Location} {probes : List Path}
  {result : Option Path}

/-- What stands between a package and the name of a file in it: a slash, unless the
package ends in one. -/
def separator (package : String) : String :=
  if package = "" ∨ package.toList.getLast? = some '/' then "" else "/"

/-- The manifest that a package has if it is installed at a place, written out. -/
def writtenManifest (place : Location) (package : String) : Path :=
  ⟨String.join (place.map ("/" ++ ·)) ++ "/node_modules/" ++ package ++ separator package ++
    "package.json"⟩

theorem directoryAt_text (hplace : ∀ name ∈ place, isFileName name = true)
    (hpackage : (Path.mk package).isAbsolute = false) :
    (directoryAt place package).text =
      String.join (place.map ("/" ++ ·)) ++ "/node_modules" ++ "/" ++ package := by
  have hmodules : ((Path.ofLocation place).join "node_modules").text =
      String.join (place.map ("/" ++ ·)) ++ "/node_modules" := by
    rw [← Path.ofLocation_concat hplace (by decide), Path.ofLocation_text (by simp)]
    simp
  rw [directoryAt, Path.join, hpackage, if_neg Bool.false_ne_true, if_neg (by simp [hmodules]),
    hmodules]

theorem getLast?_slash_append (front package : String) :
    (front ++ "/" ++ package).toList.getLast? = some '/' ↔
      package = "" ∨ package.toList.getLast? = some '/' := by
  have htext : (front ++ "/" ++ package).toList = front.toList ++ '/' :: package.toList := by simp
  rw [htext, List.getLast?_append_of_ne_nil _ (by simp), List.getLast?_cons,
    ← String.toList_eq_nil_iff, ← List.getLast?_eq_none_iff]
  cases package.toList.getLast? <;> simp

theorem manifestAt_eq_writtenManifest (hplace : ∀ name ∈ place, isFileName name = true)
    (hpackage : (Path.mk package).isAbsolute = false) :
    manifestAt place package = writtenManifest place package := by
  have htext := directoryAt_text hplace hpackage
  have hends : (directoryAt place package).text = "" ∨
      (directoryAt place package).text.toList.getLast? = some '/' ↔
        package = "" ∨ package.toList.getLast? = some '/' := by
    rw [htext, getLast?_slash_append, or_iff_right (by simp)]
  rw [manifestAt, Path.join, if_neg (by decide), writtenManifest, separator]
  simp only [hends]
  split <;> simp [htext, Manifest.fileName, String.append_assoc]

/-! ### The climb -/

/-- The search for a package from a place up. The place has the package installed, or the
search goes on in the place above; the root is asked last. The probed paths are listed in
the order in which they are probed. -/
inductive Climbs (tree : FileTree) (package : String) :
    Location → (probes : List Path) → (result : Option Path) → Prop
  | found {place : Location} (isFile : tree.isFile (writtenManifest place package) = true) :
      Climbs tree package place [writtenManifest place package]
        (some (writtenManifest place package))
  | above {place : Location} {name : String} {probes : List Path} {result : Option Path}
      (lacks : tree.LacksFile (writtenManifest (place ++ [name]) package))
      (rest : Climbs tree package place probes result) :
      Climbs tree package (place ++ [name])
        (writtenManifest (place ++ [name]) package :: probes) result
  | nowhere (lacks : tree.LacksFile (writtenManifest [] package)) :
      Climbs tree package [] [writtenManifest [] package] none

theorem exists_climbs (tree : FileTree) (package : String) (place : Location) :
    ∃ probes result, Climbs tree package place probes result := by
  induction place using List.reverseRecOn with
  | nil =>
      cases hfile : tree.isFile (writtenManifest [] package) with
      | true => exact ⟨_, _, .found hfile⟩
      | false => exact ⟨_, _, .nowhere (FileTree.isFile_eq_false_iff.mp hfile)⟩
  | append_singleton place name ih =>
      cases hfile : tree.isFile (writtenManifest (place ++ [name]) package) with
      | true => exact ⟨_, _, .found hfile⟩
      | false =>
          obtain ⟨probes, result, rest⟩ := ih
          exact ⟨_, _, .above (FileTree.isFile_eq_false_iff.mp hfile) rest⟩

/-- Every probe but the first is made one place higher. -/
theorem Climbs.length_le (h : Climbs tree package place probes result) :
    probes.length ≤ place.length + 1 := by
  induction h with
  | found => simp
  | above lacks rest ih =>
      simp only [List.length_cons, List.length_append, List.length_nil]
      omega
  | nowhere => simp

/-- Only the answers to the probes count. -/
theorem Climbs.congr {tree' : FileTree} (h : Climbs tree package place probes result)
    (hagree : ∀ path ∈ probes, tree'.isFile path = tree.isFile path) :
    Climbs tree' package place probes result := by
  induction h with
  | found isFile =>
      have hsame := List.forall_mem_singleton.mp hagree
      exact .found (hsame.trans isFile)
  | above lacks rest ih =>
      obtain ⟨hsame, hrest⟩ := List.forall_mem_cons.mp hagree
      refine .above ?_ (ih hrest)
      rwa [← FileTree.isFile_eq_false_iff, hsame, FileTree.isFile_eq_false_iff]
  | nowhere lacks =>
      have hsame := List.forall_mem_singleton.mp hagree
      refine .nowhere ?_
      rwa [← FileTree.isFile_eq_false_iff, hsame, FileTree.isFile_eq_false_iff]

/-! ### What is found -/

theorem ancestors_concat (place : Location) (name : String) :
    ancestors (place ++ [name]) = (place ++ [name]) :: ancestors place := by
  have hlength : (place ++ [name]).length + 1 = place.length + 1 + 1 := by simp
  rw [ancestors, hlength, List.range_succ, List.reverse_concat, List.map_cons, ancestors]
  refine congrArg₂ _ (List.take_of_length_le (by simp)) (List.map_congr_left fun n hn => ?_)
  rw [List.mem_reverse, List.mem_range] at hn
  exact List.take_append_of_le_length (by omega)

theorem exists_ancestors_eq_cons (place : Location) :
    ∃ higher, ancestors place = place :: higher := by
  rcases List.eq_nil_or_concat' place with rfl | ⟨place, name, rfl⟩
  · exact ⟨[], rfl⟩
  · exact ⟨_, ancestors_concat place name⟩

/-- What a search from a place up gives. -/
def manifestFrom? (tree : FileTree) (place : Location) (package : String) : Option Path :=
  ((ancestors place).find? fun other => tree.isFile (manifestAt other package)).map
    fun other => manifestAt other package

theorem manifest?_eq_manifestFrom? (start : Path) :
    manifest? tree start package = manifestFrom? tree start.lexical package := by
  simp [manifest?, manifestFrom?, nearest?, reach]

/-- A climb ends with what the search gives. -/
theorem Climbs.manifestFrom?_eq (h : Climbs tree package place probes result)
    (hplace : ∀ name ∈ place, isFileName name = true)
    (hpackage : (Path.mk package).isAbsolute = false) :
    manifestFrom? tree place package = result := by
  have hwritten := manifestAt_eq_writtenManifest hplace hpackage
  induction h with
  | @found place isFile =>
      obtain ⟨higher, hancestors⟩ := exists_ancestors_eq_cons place
      rw [← hwritten] at isFile ⊢
      simp [manifestFrom?, hancestors, isFile]
  | @above place name probes result lacks rest ih =>
      have hnames : ∀ other ∈ place, isFileName other = true := fun other hother =>
        hplace other (by simp [hother])
      rw [← FileTree.isFile_eq_false_iff, ← hwritten] at lacks
      rw [← ih hnames (manifestAt_eq_writtenManifest hnames hpackage)]
      simp [manifestFrom?, ancestors_concat, lacks]
  | nowhere lacks =>
      rw [← FileTree.isFile_eq_false_iff, ← hwritten] at lacks
      simp [manifestFrom?, ancestors, lacks]

/-- The package is installed at a place at or above another one, and each such place is
at or above this one. -/
structure IsDeepest (tree : FileTree) (package : String) (start place : Location) : Prop where
  above : place <+: start
  installed : tree.isFile (writtenManifest place package) = true
  deepest : ∀ other, other <+: start → tree.isFile (writtenManifest other package) = true →
    other <+: place

theorem manifestAt_eq_of_above {start : Path} (hplace : place <+: start.lexical)
    (hpackage : (Path.mk package).isAbsolute = false) :
    manifestAt place package = writtenManifest place package :=
  manifestAt_eq_writtenManifest
    (fun name hname => Path.isFileName_of_mem_lexical name (hplace.subset hname)) hpackage

theorem isNearest_iff_isDeepest {start : Path} (hpackage : (Path.mk package).isAbsolute = false) :
    IsNearest tree start package place ↔ IsDeepest tree package start.lexical place := by
  simp only [IsNearest, onWay_nil]
  refine ⟨fun h => ?_, fun h => ?_⟩
  · obtain ⟨habove, hfile, hothers⟩ := h
    exact ⟨habove, manifestAt_eq_of_above habove hpackage ▸ hfile, fun other hother hfile' =>
      hothers other hother (manifestAt_eq_of_above hother hpackage ▸ hfile')⟩
  · obtain ⟨habove, hfile, hothers⟩ := h
    exact ⟨habove, manifestAt_eq_of_above habove hpackage ▸ hfile, fun other hother hfile' =>
      hothers other hother (manifestAt_eq_of_above hother hpackage ▸ hfile')⟩

theorem manifest?_eq_some_iff {start found : Path}
    (hpackage : (Path.mk package).isAbsolute = false) :
    manifest? tree start package = some found ↔
      ∃ place, IsDeepest tree package start.lexical place ∧
        found = writtenManifest place package := by
  rw [manifest?, Option.map_eq_some_iff]
  refine exists_congr fun place => ?_
  rw [nearest?_eq_some_iff, isNearest_iff_isDeepest hpackage]
  refine and_congr_right fun h => ?_
  rw [manifestAt_eq_of_above h.above hpackage, eq_comm]

theorem Climbs.manifest?_eq {start : Path} (h : Climbs tree package start.lexical probes result)
    (hpackage : (Path.mk package).isAbsolute = false) : manifest? tree start package = result := by
  rw [manifest?_eq_manifestFrom?, h.manifestFrom?_eq Path.isFileName_of_mem_lexical hpackage]

theorem exists_climbs_manifest? (tree : FileTree) (start : Path)
    (hpackage : (Path.mk package).isAbsolute = false) :
    ∃ probes, Climbs tree package start.lexical probes (manifest? tree start package) := by
  obtain ⟨probes, result, h⟩ := exists_climbs tree package start.lexical
  rw [h.manifest?_eq hpackage]
  exact ⟨probes, h⟩

/-- The search for a package is a climb that ends, with at most one probe for each place
on the way and one for the root, and what it finds is the manifest of the deepest place
that has the package installed. A place without such a file passes the search on to the
one above, and trees that answer the probes alike give the same result. -/
theorem manifest?_deepest (tree : FileTree) (start : Path) {package : String}
    (hpackage : (Path.mk package).isAbsolute = false) :
    (∃ probes, Climbs tree package start.lexical probes (manifest? tree start package)) ∧
      (∀ probes result, Climbs tree package start.lexical probes result →
        result = manifest? tree start package ∧ probes.length ≤ start.lexical.length + 1 ∧
          ∀ tree' : FileTree, (∀ path ∈ probes, tree'.isFile path = tree.isFile path) →
            manifest? tree' start package = manifest? tree start package) ∧
      (∀ found, manifest? tree start package = some found ↔
        ∃ place, IsDeepest tree package start.lexical place ∧
          found = writtenManifest place package) ∧
      ∀ (parent : Path) (name : String), start.lexical = parent.lexical ++ [name] →
        tree.LacksFile (writtenManifest start.lexical package) →
          manifest? tree start package = manifest? tree parent package := by
  refine ⟨exists_climbs_manifest? tree start hpackage, fun probes result h => ?_,
    fun found => manifest?_eq_some_iff hpackage, fun parent name hparent hlacks => ?_⟩
  · have hresult := h.manifest?_eq hpackage
    refine ⟨hresult.symm, h.length_le, fun tree' hagree => ?_⟩
    rw [(h.congr hagree).manifest?_eq hpackage, hresult]
  · obtain ⟨probes, hrest⟩ := exists_climbs_manifest? tree parent hpackage
    rw [hparent] at hlacks
    have hclimb := Climbs.above hlacks hrest
    rw [← hparent] at hclimb
    exact hclimb.manifest?_eq hpackage

/-- A directory under the name of the manifest, then a file in the way, then two places
that have the package, the higher of which another tree lacks. -/
theorem manifest?_deepest_obstructed :
    let files := [("/a/b/c/node_modules/@s/d/package.json/e", "".toUTF8),
      ("/a/b/node_modules", "".toUTF8), ("/a/node_modules/@s/d/package.json", "".toUTF8)]
    let tree := FileTree.ofFiles (("/node_modules/@s/d/package.json", "".toUTF8) :: files)
    let tree' := FileTree.ofFiles files
    let start : Path := ⟨"/x/../a/./b//c/"⟩
    let probes : List Path := [⟨"/a/b/c/node_modules/@s/d/package.json"⟩,
      ⟨"/a/b/node_modules/@s/d/package.json"⟩, ⟨"/a/node_modules/@s/d/package.json"⟩]
    let found : Path := ⟨"/a/node_modules/@s/d/package.json"⟩
    (Path.mk "@s/d").isAbsolute = false ∧ Climbs tree "@s/d" start.lexical probes (some found) ∧
      manifest? tree start "@s/d" = some found ∧
      (∃ place, IsDeepest tree "@s/d" start.lexical place ∧
        found = writtenManifest place "@s/d") ∧
      tree.LacksFile (writtenManifest start.lexical "@s/d") ∧
      manifest? tree start "@s/d" = manifest? tree ⟨"/a/b"⟩ "@s/d" ∧
      (∀ path ∈ probes, tree'.isFile path = tree.isFile path) ∧
      manifest? tree' start "@s/d" = some found := by
  intro files tree tree' start probes found
  have hpackage : (Path.mk "@s/d").isAbsolute = false := by decide
  have hstart : start.lexical = ["a", "b", "c"] := by decide +kernel
  have hlacks : tree.LacksFile (writtenManifest ["a", "b", "c"] "@s/d") :=
    .directory (by decide +kernel)
  have hclimb : Climbs tree "@s/d" ["a", "b", "c"] probes (some found) :=
    @Climbs.above tree "@s/d" ["a", "b"] "c" _ _ hlacks
      (@Climbs.above tree "@s/d" ["a"] "b" _ _ (.obstructed (by decide +kernel))
        (@Climbs.found tree "@s/d" ["a"] (by decide +kernel)))
  have hagree : ∀ path ∈ probes, tree'.isFile path = tree.isFile path := by decide +kernel
  obtain ⟨-, hclimbs, hfound, hparent⟩ := manifest?_deepest tree start hpackage
  rw [← hstart] at hclimb hlacks
  obtain ⟨hresult, -, htree'⟩ := hclimbs probes _ hclimb
  exact ⟨hpackage, hclimb, hresult.symm, (hfound found).mp hresult.symm, hlacks,
    hparent ⟨"/a/b"⟩ "c" (by decide +kernel) hlacks, hagree,
    (htree' tree' hagree).trans hresult.symm⟩

end Install

end DependencyAudit
