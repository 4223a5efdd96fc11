import DependencyAudit.Proofs.Detection
import DependencyAudit.Proofs.Entries
import DependencyAudit.Proofs.Growth
import DependencyAudit.Proofs.Joining

/-!
Two audits of one project, the second after a file was made or grew at its end.
If the file is neither a manifest nor a declaration file, the second audit
detects at least what the first one did, and so it misses at least as much and
calls no more unused: the manifests and entry declarations are read under names
that the file does not have.
-/

namespace DependencyAudit

variable {tree tree' : FileTree} {parent : Location} {name : String}

theorem Path.lexicalFrom_ne_of_getLast? {path : Path} {working : Location} {last : String}
    (h : (path.lexicalFrom working).getLast? = some last) (hne : name ≠ last) :
    path.lexicalFrom working ≠ parent ++ [name] := by
  intro hplace
  rw [hplace, List.getLast?_concat] at h
  exact hne (Option.some.inj h)

theorem Types.IsDeclarationPath.lexicalFrom_ne {path : Path} (h : IsDeclarationPath path)
    (hdeclaration : ¬ declarationEnding.toList <:+ name.toList) :
    path.lexicalFrom [] ≠ parent ++ [name] := by
  obtain ⟨last, hlast, hending⟩ := h
  apply Path.lexicalFrom_ne_of_getLast? hlast
  rintro rfl
  exact hdeclaration hending

/-! ### Manifests and types packages -/

theorem Install.isNearest_iff_of_growsAt (hgrow : tree.GrowsAt tree' (parent ++ [name]))
    (hmanifest : name ≠ Manifest.fileName) {start : Path} {package : String}
    {working place : Location} :
    IsNearest tree' start package place working ↔
      IsNearest tree start package place working := by
  have hfile : ∀ other, tree'.isFile (manifestAt other package) = true ↔
      tree.isFile (manifestAt other package) = true := fun other =>
    hgrow.isFile_iff (Path.lexicalFrom_ne_of_getLast?
      (getLast?_lexicalFrom_manifestAt other package []) hmanifest)
  simp only [IsNearest, hfile]

namespace Types

variable {start directory entry : Path} {working : Location} {manifest : Json}

theorem declares_iff_of_growsAt (hgrow : tree.GrowsAt tree' (parent ++ [name]))
    (hdeclaration : ¬ declarationEnding.toList <:+ name.toList) {field : String} :
    Declares tree' directory manifest field entry ↔
      Declares tree directory manifest field entry := by
  refine exists_congr fun declared => and_congr_right fun _ => and_congr_right fun _ =>
    and_congr_right fun hentry => ?_
  rw [hentry]
  apply hgrow.isFile_iff
  exact (isDeclarationPath_resolve (suffix_withEnding declared)).lexicalFrom_ne hdeclaration

theorem IsEntry.congr {other : FileTree}
    (hdeclares : ∀ field entry, Declares tree directory manifest field entry ↔
      Declares other directory manifest field entry)
    (h : IsEntry tree directory manifest entry) : IsEntry other directory manifest entry := by
  cases h with
  | types declares => exact .types ((hdeclares _ _).mp declares)
  | typings noTypes declares =>
      exact .typings (fun first h => noTypes first ((hdeclares _ _).mpr h))
        ((hdeclares _ _).mp declares)
  | default noTypes noTypings =>
      exact .default (fun first h => noTypes first ((hdeclares _ _).mpr h))
        (fun second h => noTypings second ((hdeclares _ _).mpr h))

theorem isEntry_iff_of_growsAt (hgrow : tree.GrowsAt tree' (parent ++ [name]))
    (hdeclaration : ¬ declarationEnding.toList <:+ name.toList) :
    IsEntry tree' directory manifest entry ↔ IsEntry tree directory manifest entry := by
  have hdeclares := fun field entry =>
    @declares_iff_of_growsAt tree tree' parent name directory entry manifest hgrow hdeclaration
      field
  exact ⟨IsEntry.congr hdeclares, IsEntry.congr fun field entry => (hdeclares field entry).symm⟩

/-- The inspection of an installation does not see the file. -/
theorem isNpmInstall_iff_of_growsAt (hgrow : tree.GrowsAt tree' (parent ++ [name]))
    (hmanifest : name ≠ Manifest.fileName)
    (hdeclaration : ¬ declarationEnding.toList <:+ name.toList) {package : String} :
    IsNpmInstall tree' start package working ↔ IsNpmInstall tree start package working := by
  refine exists_congr fun place => exists_congr fun text => exists_congr fun manifest =>
    exists_congr fun entry => exists_congr fun declarations => exists_congr fun header => ?_
  have hpath := @Path.lexicalFrom_ne_of_getLast? parent name _ _ _
    (Install.getLast?_lexicalFrom_manifestAt place package []) hmanifest
  rw [Install.isNearest_iff_of_growsAt hgrow hmanifest, hgrow.readText_iff hpath,
    isEntry_iff_of_growsAt hgrow hdeclaration]
  refine and_congr_right fun _ => and_congr_right fun _ => and_congr_right fun _ =>
    and_congr_right fun _ => and_congr_right fun hentry => ?_
  rw [hgrow.readText_iff (hentry.isDeclarationPath.lexicalFrom_ne hdeclaration)]

end Types

/-! ### Findings -/

namespace Findings

variable {detected detected' : NameSet}

theorem isIdle_of_subset (h : detected.toList ⊆ detected'.toList) {package : String}
    (hidle : isIdle detected' package = true) : isIdle detected package = true := by
  rw [isIdle_iff] at hidle ⊢
  obtain ⟨hdetected, himplicit⟩ := hidle
  exact ⟨fun hmem => hdetected (h hmem), himplicit⟩

theorem unused_classify_sublist (h : detected.toList ⊆ detected'.toList) (manifest : Manifest)
    {working : Location} {start : Path} {names : List String}
    (hinstalls : ∀ package, Types.IsNpmInstall tree' start package working →
      Types.IsNpmInstall tree start package working) :
    (classify detected' manifest (Types.usable tree' start names working)).unused.Sublist
      (classify detected manifest (Types.usable tree start names working)).unused := by
  classical
  simp only [classify, Types.map_name_filter_isIdleTypes]
  apply List.Sublist.append
  · apply List.monotone_filter_right
    intro package hidle
    rw [Bool.and_eq_true] at hidle ⊢
    exact ⟨isIdle_of_subset h hidle.1, hidle.2⟩
  · apply List.monotone_filter_right
    intro package hidle
    rw [Bool.and_eq_true, decide_eq_true_eq] at hidle ⊢
    exact ⟨hinstalls package hidle.1, isIdle_of_subset h hidle.2⟩

end Findings

/-! ### Audits -/

namespace Audit

variable {working : Location} {root : Option Path} {selection : Selection} {outcome : Outcome}

/-- What one audit reports, the other one may only add to, apart from the unused
packages, of which it may only take away. -/
structure Outcome.ExtendedBy (outcome outcome' : Outcome) : Prop where
  detected : outcome.findings.detected.Sublist outcome'.findings.detected
  missing : outcome.findings.missing.Sublist outcome'.findings.missing
  unused : outcome'.findings.unused.Sublist outcome.findings.unused
  filesScanned : outcome.filesScanned ≤ outcome'.filesScanned

theorem detectedAt_subset_of_growsAt {place : Location} (hgrow : tree.GrowsAt tree' place)
    (root : Path) :
    (detectedAt tree working root selection).toList ⊆
      (detectedAt tree' working root selection).toList := by
  intro package h
  obtain ⟨file, hfile, text, htext, specifier, hspecifier, hpackage⟩ := mem_detectedAt.mp h
  obtain ⟨other, hother, -, hread⟩ := hgrow.exists_mem_sources hfile
  obtain ⟨more, hmore⟩ := hread text htext
  exact mem_detectedAt.mpr ⟨other, hother, text ++ more, hmore, specifier,
    (Import.specifiersInText_sublist_append text more).subset hspecifier, hpackage⟩

theorem outcomeAt_extended_of_growsAt (hgrow : tree.GrowsAt tree' (parent ++ [name]))
    (hmanifest : name ≠ Manifest.fileName)
    (hdeclaration : ¬ Types.declarationEnding.toList <:+ name.toList) (root : Path)
    (manifest : Manifest) :
    (outcomeAt tree working root selection manifest).ExtendedBy
      (outcomeAt tree' working root selection manifest) := by
  have hdetected :=
    @detectedAt_subset_of_growsAt tree tree' working selection _ hgrow root
  have hsublist := Ascending.sublist_of_subset hdetected
  refine ⟨?_, ?_, ?_, ?_⟩
  · simpa only [outcomeAt, Findings.classify] using hsublist
  · simpa only [outcomeAt, Findings.classify] using hsublist.filter _
  · exact Findings.unused_classify_sublist hdetected manifest fun package =>
      (Types.isNpmInstall_iff_of_growsAt hgrow hmanifest hdeclaration).mp
  · apply Ascending.length_le_of_forall_exists_eq
    intro file hfile
    obtain ⟨other, hother, hcompare, -⟩ := hgrow.exists_mem_sources hfile
    exact ⟨other, hother, hcompare⟩

theorem exists_runAt_of_growsAt (hgrow : tree.GrowsAt tree' (parent ++ [name]))
    (hmanifest : name ≠ Manifest.fileName)
    (hdeclaration : ¬ Types.declarationEnding.toList <:+ name.toList) {root : Path}
    (h : runAt tree working root selection = .ok outcome) :
    ∃ outcome', runAt tree' working root selection = .ok outcome' ∧
      outcome.ExtendedBy outcome' := by
  obtain ⟨manifest, hread, rfl⟩ := runAt_eq_ok_iff.mp h
  have hread' : readManifest tree' root working = .ok manifest := by
    have hpath := @Path.lexicalFrom_ne_of_getLast? parent name _ _ _
      (getLast?_lexicalFrom_manifestPath root working) hmanifest
    rw [readManifest_eq_ok_iff] at hread ⊢
    simpa only [hgrow.readText_iff hpath] using hread
  exact ⟨_, runAt_eq_ok_iff.mpr ⟨manifest, hread', rfl⟩,
    outcomeAt_extended_of_growsAt hgrow hmanifest hdeclaration root manifest⟩

/-- The root of an audit that succeeds stays where it is: if it leads somewhere, it still
does, and otherwise it is empty and leads nowhere in any tree. -/
theorem rootPath_eq_of_growsAt {place : Location} (hgrow : tree.GrowsAt tree' place)
    (h : run tree working root selection = .ok outcome) :
    rootPath tree' working root = rootPath tree working root := by
  obtain ⟨manifest, hmanifest, -⟩ := exists_manifest_of_run h
  obtain ⟨text, htext, -⟩ := readManifest_eq_ok_iff.mp hmanifest
  obtain ⟨file, hfile, -⟩ := FileTree.readText_eq_ok_iff.mp htext
  rcases exists_rootPlace_or_eq_empty hfile with ⟨base, hbase⟩ | rfl
  · have hbase' : rootPlace tree' working root = .ok base := by
      cases root with
      | none => exact hbase
      | some path => exact hgrow.locateFrom hbase
    rw [rootPath_eq_ofLocation hbase', rootPath_eq_ofLocation hbase]
  · rw [rootPath_empty, rootPath_empty]

/-- If a file that is neither a manifest nor a declaration file is made, or a
text is appended to one, an audit that succeeded still does. It detects and
misses what it did before, calls nothing else unused, and scans no fewer files. -/
theorem run_extended_of_growsAt (hgrow : tree.GrowsAt tree' (parent ++ [name]))
    (hmanifest : name ≠ Manifest.fileName)
    (hdeclaration : ¬ Types.declarationEnding.toList <:+ name.toList)
    (h : run tree working root selection = .ok outcome) :
    ∃ outcome', run tree' working root selection = .ok outcome' ∧
      outcome.ExtendedBy outcome' := by
  rw [run, rootPath_eq_of_growsAt hgrow h]
  exact exists_runAt_of_growsAt hgrow hmanifest hdeclaration h

/-- A source that ends in the middle of a line gets a second import. -/
theorem run_extended_of_growsAt_appended :
    let tree := FileTree.ofFiles
      [("/app/package.json",
          "\x7b\"dependencies\": \x7b\"left\": \"1\", \"right\": \"1\"\x7d\x7d".toUTF8),
        ("/app/a.ts", "from 'left'".toUTF8)]
    let longer := "from 'left'".toUTF8 ++ String.toUTF8 "; import 'right'\nimport 'new'"
    (run tree ["app"] none ⟨[], ["ts"]⟩).toOption = some ⟨⟨["left"], [], ["right"]⟩, 1⟩ ∧
      ∃ tree', tree.insert? ["app"] "a.ts" (.file longer) = some tree' ∧
        tree.GrowsAt tree' (["app"] ++ ["a.ts"]) ∧
        ∃ outcome', run tree' ["app"] none ⟨[], ["ts"]⟩ = .ok outcome' ∧
          Outcome.ExtendedBy ⟨⟨["left"], [], ["right"]⟩, 1⟩ outcome' := by
  intro tree longer
  have h : (run tree ["app"] none ⟨[], ["ts"]⟩).toOption =
      some ⟨⟨["left"], [], ["right"]⟩, 1⟩ := by decide +kernel
  have hsome : (tree.insert? ["app"] "a.ts" (.file longer)).isSome = true := by decide +kernel
  have hold : tree.entryAt (["app"] ++ ["a.ts"]) = some (.file "from 'left'".toUTF8) := by
    decide +kernel
  obtain ⟨tree', hinsert⟩ := Option.isSome_iff_exists.mp hsome
  have hgrow := FileTree.growsAt_of_insert? hinsert (.inr ⟨_, _, hold, rfl⟩)
  exact ⟨h, tree', hinsert, hgrow,
    run_extended_of_growsAt hgrow (by decide) (by decide) (eq_ok_of_toOption h)⟩

end Audit

end DependencyAudit
