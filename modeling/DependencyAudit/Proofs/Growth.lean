import DependencyAudit.Proofs.Collecting

/-!
A tree in which one file was made or grew at its end. Whatever could be reached
before can still be reached, and what could be read can still be read, with
perhaps more text behind it. A path that does not lead to the file itself sees
no difference at all.
-/

namespace DependencyAudit

namespace FileTree

/-- At one place a file was made, or a text was appended to the file there. -/
structure GrowsAt (tree tree' : FileTree) (place : Location) : Prop where
  elsewhere : ∀ other, other ≠ place → tree'.entryAt other = tree.entryAt other
  there : (tree.entryAt place = none ∧
      ∃ content, tree'.entryAt place = some (.file content)) ∨
    ∃ content more, tree.entryAt place = some (.file content) ∧
      tree'.entryAt place = some (.file (content ++ String.toUTF8 more))

variable {tree tree' : FileTree} {working place location : Location} {path : Path}

theorem growsAt_of_insert? {name : String} {content : ByteArray}
    (h : tree.insert? location name (.file content) = some tree')
    (hplace : tree.entryAt (location ++ [name]) = none ∨
      ∃ old more, tree.entryAt (location ++ [name]) = some (.file old) ∧
        content = old ++ String.toUTF8 more) :
    tree.GrowsAt tree' (location ++ [name]) := by
  rw [insert?, Option.dite_none_right_eq_some] at h
  obtain ⟨_, htree⟩ := h
  obtain rfl := Option.some.inj htree
  refine ⟨fun other hother => if_neg hother, ?_⟩
  rcases hplace with hnew | hold
  · exact .inl ⟨hnew, content, if_pos rfl⟩
  · obtain ⟨old, more, hold, rfl⟩ := hold
    exact .inr ⟨old, more, hold, if_pos rfl⟩

namespace GrowsAt

theorem exists_file (hgrow : tree.GrowsAt tree' place) :
    ∃ content, tree'.entryAt place = some (.file content) := by
  rcases hgrow.there with ⟨-, content, hfile⟩ | ⟨content, more, -, hfile⟩
  · exact ⟨content, hfile⟩
  · exact ⟨content ++ String.toUTF8 more, hfile⟩

theorem ne_of_directory (hgrow : tree.GrowsAt tree' place)
    (h : tree'.entryAt location = some .directory) : location ≠ place := by
  rintro rfl
  obtain ⟨content, hfile⟩ := hgrow.exists_file
  simp [hfile] at h

theorem entryAt_ne_none (hgrow : tree.GrowsAt tree' place)
    (h : tree.entryAt location ≠ none) : tree'.entryAt location ≠ none := by
  by_cases hplace : location = place
  · obtain ⟨content, hfile⟩ := hgrow.exists_file
    simp [hplace, hfile]
  · rwa [hgrow.elsewhere location hplace]

theorem directory (hgrow : tree.GrowsAt tree' place)
    (h : tree.entryAt location = some .directory) : tree'.entryAt location = some .directory := by
  rw [hgrow.elsewhere, h]
  rintro rfl
  rcases hgrow.there with ⟨hnone, -⟩ | ⟨content, more, hfile, -⟩
  · simp [hnone] at h
  · simp [hfile] at h

theorem isFileAt (hgrow : tree.GrowsAt tree' place) (h : tree.isFileAt location = true) :
    tree'.isFileAt location = true := by
  by_cases hplace : location = place
  · obtain ⟨content, hfile⟩ := hgrow.exists_file
    simp [FileTree.isFileAt, hplace, hfile]
  · rwa [FileTree.isFileAt, hgrow.elsewhere location hplace]

/-! ### Following paths -/

theorem step (hgrow : tree.GrowsAt tree' place) {next : Location} {segment : String}
    (h : tree.step location segment = .ok next) : tree'.step location segment = .ok next := by
  obtain ⟨hdir, hnext, hentry⟩ := step_eq_ok_iff.mp h
  exact step_eq_ok_iff.mpr
    ⟨hgrow.directory hdir, hnext, fun hstep => hgrow.entryAt_ne_none (hentry hstep)⟩

theorem step_reflect (hgrow : tree.GrowsAt tree' place) {next : Location} {segment : String}
    (hnext : next ≠ place) (h : tree'.step location segment = .ok next) :
    tree.step location segment = .ok next := by
  obtain ⟨hdir, hlexical, hentry⟩ := step_eq_ok_iff.mp h
  rw [hgrow.elsewhere _ (hgrow.ne_of_directory hdir)] at hdir
  rw [hgrow.elsewhere _ hnext] at hentry
  exact step_eq_ok_iff.mpr ⟨hdir, hlexical, hentry⟩

theorem foldlM_step (hgrow : tree.GrowsAt tree' place) {segments : List String}
    {start : Location} (h : segments.foldlM tree.step start = .ok location) :
    segments.foldlM tree'.step start = .ok location := by
  induction segments generalizing start with
  | nil => exact h
  | cons segment segments ih =>
      obtain ⟨next, hnext, h⟩ := foldlM_step_cons.mp h
      exact foldlM_step_cons.mpr ⟨next, hgrow.step hnext, ih h⟩

/-- The file itself can only be the last place on the way, since nothing leads
further from there. -/
theorem foldlM_step_reflect (hgrow : tree.GrowsAt tree' place) {segments : List String}
    {start : Location} (hlocation : location ≠ place)
    (h : segments.foldlM tree'.step start = .ok location) :
    segments.foldlM tree.step start = .ok location := by
  induction segments using List.reverseRecOn generalizing location with
  | nil => exact h
  | append_singleton segments segment ih =>
      obtain ⟨next, hnext, h⟩ := foldlM_step_concat.mp h
      have hdir : tree'.entryAt next = some .directory := (step_eq_ok_iff.mp h).1
      exact foldlM_step_concat.mpr
        ⟨next, ih (hgrow.ne_of_directory hdir) hnext, hgrow.step_reflect hlocation h⟩

theorem locateFrom (hgrow : tree.GrowsAt tree' place)
    (h : tree.locateFrom working path = .ok location) :
    tree'.locateFrom working path = .ok location := by
  rw [locateFrom_eq_ok_iff] at h ⊢
  exact ⟨h.1, hgrow.foldlM_step h.2⟩

theorem locateFrom_eq_ok_iff (hgrow : tree.GrowsAt tree' place)
    (hpath : path.lexicalFrom working ≠ place) :
    tree'.locateFrom working path = .ok location ↔
      tree.locateFrom working path = .ok location := by
  refine ⟨fun h => ?_, hgrow.locateFrom⟩
  rw [← eq_lexicalFrom_of_locateFrom h] at hpath
  rw [FileTree.locateFrom_eq_ok_iff] at h ⊢
  exact ⟨h.1, hgrow.foldlM_step_reflect hpath h.2⟩

/-! ### Looking and reading -/

theorem isDirectory (hgrow : tree.GrowsAt tree' place)
    (h : tree.isDirectory path working = true) : tree'.isDirectory path working = true := by
  obtain ⟨location, hlocate, hdir⟩ := isDirectory_iff.mp h
  exact isDirectory_iff.mpr ⟨location, hgrow.locateFrom hlocate, hgrow.directory hdir⟩

theorem isFile_iff (hgrow : tree.GrowsAt tree' place)
    (hpath : path.lexicalFrom working ≠ place) :
    tree'.isFile path working = true ↔ tree.isFile path working = true := by
  rw [FileTree.isFile_iff, FileTree.isFile_iff]
  apply exists_congr
  intro location
  rw [hgrow.locateFrom_eq_ok_iff hpath]
  apply and_congr_right
  intro hlocate
  rw [eq_lexicalFrom_of_locateFrom hlocate, FileTree.isFileAt, FileTree.isFileAt,
    hgrow.elsewhere _ hpath]

theorem readText_iff (hgrow : tree.GrowsAt tree' place)
    (hpath : path.lexicalFrom working ≠ place) {text : String} :
    tree'.readText path working = .ok text ↔ tree.readText path working = .ok text := by
  rw [readText_eq_ok_iff, readText_eq_ok_iff]
  apply exists_congr
  intro location
  rw [hgrow.locateFrom_eq_ok_iff hpath]
  apply and_congr_right
  intro hlocate
  rw [eq_lexicalFrom_of_locateFrom hlocate, hgrow.elsewhere _ hpath]

theorem exists_readText (hgrow : tree.GrowsAt tree' place) {text : String}
    (h : tree.readText path working = .ok text) :
    ∃ more, tree'.readText path working = .ok (text ++ more) := by
  obtain ⟨location, hlocate, hentry⟩ := readText_eq_ok_iff.mp h
  have hlocate' := hgrow.locateFrom hlocate
  by_cases hplace : location = place
  · subst hplace
    rcases hgrow.there with ⟨hnone, -⟩ | ⟨content, more, hold, hnew⟩
    · simp [hnone] at hentry
    · obtain rfl : content = text.toUTF8 := by simpa [hold] using hentry
      exact ⟨more, readText_eq_ok_iff.mpr ⟨location, hlocate', hnew⟩⟩
  · refine ⟨"", readText_eq_ok_iff.mpr ⟨location, hlocate', ?_⟩⟩
    rw [hgrow.elsewhere location hplace, hentry, String.append_empty]

/-! ### Collecting -/

theorem filesUnder (hgrow : tree.GrowsAt tree' place) {selection : Selection} {base : Path}
    {within : Option Nat} (h : path ∈ selection.filesUnder tree base within working) :
    path ∈ selection.filesUnder tree' base within working := by
  obtain ⟨location, names, hlocate, hfile, hchosen, rfl⟩ := Selection.mem_filesUnder.mp h
  exact Selection.mem_filesUnder.mpr
    ⟨location, names, hgrow.locateFrom hlocate, hgrow.isFileAt hfile, hchosen, rfl⟩

theorem finds (hgrow : tree.GrowsAt tree' place) {selection : Selection} {root : Path}
    (h : selection.Finds tree root path working) : selection.Finds tree' root path working := by
  rcases h with h | ⟨directory, hmem, hdir, h⟩
  · exact .inl (hgrow.filesUnder h)
  · exact .inr ⟨directory, hmem, hgrow.isDirectory hdir, hgrow.filesUnder h⟩

/-- Every source is still a source, perhaps in another spelling, and what can be
read under the one spelling can be read under the other. -/
theorem exists_mem_sources (hgrow : tree.GrowsAt tree' place) {selection : Selection}
    {root : Path} (h : path ∈ (selection.sources tree root working).toList) :
    ∃ other ∈ (selection.sources tree' root working).toList, Path.compare path other = .eq ∧
      ∀ text, tree.readText path working = .ok text →
        ∃ more, tree'.readText other working = .ok (text ++ more) := by
  have hfinds := Selection.finds_of_mem_sources h
  obtain ⟨location, hlocate, -⟩ := hfinds.locateFrom
  have hlocate' := hgrow.locateFrom hlocate
  obtain ⟨other, hother, hcompare, hplace⟩ :=
    (hgrow.finds hfinds).exists_mem_sources_locateFrom hlocate'
  refine ⟨other, hother, hcompare, fun text htext => ?_⟩
  obtain ⟨more, hmore⟩ := hgrow.exists_readText htext
  obtain ⟨location', hread, hentry⟩ := readText_eq_ok_iff.mp hmore
  rw [hlocate'] at hread
  rw [← Except.ok.inj hread] at hentry
  exact ⟨more, readText_eq_ok_iff.mpr ⟨location, hplace, hentry⟩⟩

end GrowsAt

end FileTree

end DependencyAudit
