import DependencyAudit.Proofs.HeaderGrammar
import DependencyAudit.Proofs.Rows
import DependencyAudit.Proofs.Trimming

/-!
Headers as people write them, and reading them back. The lists of a header can
be spread over any number of rows, with blanks and commas between the items as
one likes. There is one thing that no layout can do: a contributor without an
address ends with its row, since nothing else tells it from the next one.
-/

namespace DependencyAudit.Header

open DependencyAudit.Text

/-! ### Headers that can be written -/

def IsTrimmed (s : String) : Prop :=
  trim s.toList = s.toList

def Unlabelled (cs : List Char) : Prop :=
  ∀ label : Label, ¬ label.text.toList <+: cs

@[mk_iff]
structure WritableProject (project : String) : Prop where
  nonempty : project ≠ ""
  trimmed : IsTrimmed project
  noComma : ',' ∉ project.toList
  unlabelled : Unlabelled project.toList

@[mk_iff]
structure WritableContributor (contributor : Contributor) : Prop where
  trimmed : IsTrimmed contributor.name
  noOpening : '<' ∉ contributor.name.toList
  noClosing : '>' ∉ contributor.name.toList
  noLeadingComma : contributor.name.toList.head? ≠ some ','
  unlabelled : Unlabelled contributor.name.toList
  url : ∀ url ∈ contributor.url, IsTrimmed url ∧ '>' ∉ url.toList
  named : contributor.url = none → contributor.name ≠ ""

/-- No value of the header can be mistaken for what separates the values. Line
ends are left to the rows, none of which has one inside. -/
@[mk_iff]
structure Writable (h : Header) : Prop where
  trimmed : IsTrimmed h.library
  nonempty : h.library ≠ ""
  unmarked : h.nonNpm = false → ¬ nonNpmLead.toList <+: h.library.toList ++ [' ']
  projects : ∀ project ∈ h.projects, WritableProject project
  contributors : ∀ contributor ∈ h.contributors, WritableContributor contributor
  typescriptVersion : ∀ version ∈ h.typescriptVersion, IsTrimmed version

instance (s : String) : Decidable (IsTrimmed s) :=
  inferInstanceAs (Decidable (trim s.toList = s.toList))

instance (cs : List Char) : Decidable (Unlabelled cs) :=
  decidable_of_iff (∀ label ∈ labels, ¬ label.text.toList <+: cs)
    ⟨fun h label => h label (mem_labels label), fun h label _ => h label⟩

instance (project : String) : Decidable (WritableProject project) :=
  decidable_of_iff' _ (writableProject_iff project)

instance (contributor : Contributor) : Decidable (WritableContributor contributor) :=
  decidable_of_iff' _ (writableContributor_iff contributor)

instance (h : Header) : Decidable h.Writable :=
  decidable_of_iff' _ (writable_iff h)

/-! ### Layouts -/

/-- The projects on a row, with commas between them. -/
inductive ProjectText : List Char → List String → Prop
  | blank {blanks : List Char} (blank : Blank blanks) : ProjectText blanks []
  | project {blanks blanks' : List Char} {project : String} (before : Blank blanks)
      (after : Blank blanks') : ProjectText (blanks ++ (project.toList ++ blanks')) [project]
  | comma {front back : List Char} {projects projects' : List String}
      (left : ProjectText front projects) (right : ProjectText back projects') :
      ProjectText (front ++ ',' :: back) (projects ++ projects')

/-- What may stand before a contributor: blanks, commas, blanks. -/
inductive Separator : List Char → Prop
  | intro {before commas after : List Char} (blankBefore : Blank before)
      (comma : ∀ c ∈ commas, c = ',') (blankAfter : Blank after) :
      Separator (before ++ (commas ++ after))

/-- The contributors on a row, of which only the last one can do without an
address. -/
inductive ContributorText : List Char → List Contributor → Prop
  | nil {separator : List Char} (separated : Separator separator) : ContributorText separator []
  | last {separator blanks : List Char} {contributor : Contributor}
      (separated : Separator separator) (bare : contributor.url = none) (after : Blank blanks) :
      ContributorText (separator ++ (contributor.display.toList ++ blanks)) [contributor]
  | cons {separator rest : List Char} {contributor : Contributor}
      {contributors : List Contributor} (separated : Separator separator)
      (addressed : contributor.url ≠ none) (others : ContributorText rest contributors) :
      ContributorText (separator ++ (contributor.display.toList ++ rest))
        (contributor :: contributors)

/-- A list on the row with its label and on the rows after it. -/
inductive Spread {α : Type} (label : Label) (IsText : List Char → List α → Prop) :
    List (List Char) → List α → Prop
  | intro {text : List Char} {group : List α} {rows : List (List Char)} {groups : List (List α)}
      (first : IsText text group) (more : List.Forall₂ IsText rows groups)
      (nonempty : ∀ row ∈ rows, trim row ≠ []) :
      Spread label IsText ((label.text.toList ++ text) :: rows) (group ++ groups.flatten)

/-- The rows behind the definitions, with or without a version of the compiler. -/
inductive VersionRows : List (List Char) → Option String → Prop
  | absent {notes : List (List Char)} (silent : ∀ note ∈ notes, ¬ IsVersionRow (trim note)) :
      VersionRows notes none
  | present {notes more : List (List Char)} {label : Label} {gap : List Char} {version : String}
      (silent : ∀ note ∈ notes, ¬ IsVersionRow (trim note)) (versionLabel : label ∈ versionLabels)
      (blank : Blank gap) :
      VersionRows (notes ++ (label.text.toList ++ (gap ++ version.toList)) :: more) (some version)

def titleText (h : Header) : String :=
  titleLead ++ (if h.nonNpm then nonNpmLead else "") ++ h.library ++ " " ++
    toString h.major ++ "." ++ toString h.minor

/-- The bodies of the comment rows of a header. -/
inductive Layout (h : Header) : List (List Char) → Prop
  | intro {projectRows contributorRows versionRows : List (List Char)} {definitions : List Char}
      (projects : Spread .project ProjectText projectRows h.projects)
      (contributors : Spread .definitionsBy ContributorText contributorRows h.contributors)
      (version : VersionRows versionRows h.typescriptVersion) :
      Layout h (h.titleText.toList :: (projectRows ++ (contributorRows ++
        (Label.definitions.text.toList ++ definitions) :: versionRows)))

/-- A comment row and its body, which stands between blanks. -/
inductive CommentRow : List Char → List Char → Prop
  | intro {front gap back body : List Char} (blankFront : Blank front) (blankGap : Blank gap)
      (blankBack : Blank back) (noThird : (gap ++ (body ++ back)).head? ≠ some '/') :
      CommentRow (front ++ '/' :: '/' :: (gap ++ (body ++ back))) body

/-- A text with the header at its top. Byte order marks and blank rows may come
first, and behind the header stands whatever does not begin with one more
comment row. -/
inductive Renders (h : Header) : List Char → Prop
  | intro {marks text : List Char} {blanks rows bodies others : List (List Char)}
      (mark : ∀ c ∈ marks, c = '\uFEFF') (blank : ∀ row ∈ blanks, Blank row)
      (layout : Layout h bodies) (commented : List.Forall₂ CommentRow rows bodies)
      (stop : ∀ row ∈ others.head?, ¬ IsComment (trim row))
      (oneLine : ∀ row ∈ blanks ++ (rows ++ others), '\n' ∉ row)
      (written : Text.Written (blanks ++ (rows ++ others)) text) : Renders h (marks ++ text)

/-! ### Labels -/

theorem Label.text_head (label : Label) :
    ∃ c tail, label.text.toList = c :: tail ∧ isBlank c = false ∧ c ≠ ',' := by
  cases label <;> exact ⟨_, _, rfl, by decide, by decide⟩

theorem Label.text_last (label : Label) :
    ∃ init last, label.text.toList = init ++ [last] ∧ isBlank last = false := by
  have hcolon : ∃ init, label.text.toList = init ++ [':'] := by
    refine ⟨label.text.toList.dropLast, ?_⟩
    cases label <;> rfl
  obtain ⟨init, hinit⟩ := hcolon
  exact ⟨init, ':', hinit, by decide⟩

theorem Label.text_free (label : Label) :
    ',' ∉ label.text.toList ∧ '<' ∉ label.text.toList := by
  cases label <;> decide

theorem trim_label_append (label : Label) (text : List Char) :
    trim (label.text.toList ++ text) = label.text.toList ++ trimEnd text := by
  obtain ⟨c, tail, hhead, hc, -⟩ := label.text_head
  obtain ⟨init, last, hlast, hblank⟩ := label.text_last
  have hstart : trimStart (label.text.toList ++ text) = label.text.toList ++ text := by
    rw [hhead]
    exact trimStart_append_cons hc [] (tail ++ text)
  have hend := trimEnd_append_cons hblank init text
  rw [trim, hstart, hlast]
  simpa using hend

theorem unlabelled_nil : Unlabelled [] := by
  intro label hlabel
  obtain ⟨c, tail, hhead, -, -⟩ := label.text_head
  simp [hhead] at hlabel

theorem unlabelled_comma (cs : List Char) : Unlabelled (',' :: cs) := by
  intro label hlabel
  obtain ⟨c, tail, hhead, -, hc⟩ := label.text_head
  simp [hhead, hc] at hlabel

section Unlabelled

variable {cs front blanks : List Char}

theorem Unlabelled.mono (h : Unlabelled cs) (hfront : front <+: cs) : Unlabelled front :=
  fun label hlabel => h label (hlabel.trans hfront)

theorem prefix_append_cases {back : List Char} (h : cs <+: front ++ back) :
    cs <+: front ∨ ∃ tail, tail ≠ [] ∧ tail <+: back ∧ cs = front ++ tail := by
  rcases List.prefix_or_prefix_of_prefix h (List.prefix_append front back) with hcs | hcs
  · exact .inl hcs
  · obtain ⟨tail, rfl⟩ := hcs
    rw [List.prefix_append_right_inj] at h
    cases tail with
    | nil => exact .inl (by simp)
    | cons c tail => exact .inr ⟨_, List.cons_ne_nil c tail, h, rfl⟩

theorem prefix_of_append_cons {c : Char} {back : List Char} (hc : c ∉ cs)
    (h : cs <+: front ++ c :: back) : cs <+: front := by
  rcases prefix_append_cases h with hfront | ⟨tail, hne, htail, rfl⟩
  · exact hfront
  · obtain ⟨tail, rfl, -⟩ := (List.prefix_cons_iff.mp htail).resolve_left hne
    simp at hc

theorem Unlabelled.append_comma (h : Unlabelled front) (back : List Char) :
    Unlabelled (front ++ ',' :: back) :=
  fun label hlabel => h label (prefix_of_append_cons label.text_free.1 hlabel)

theorem Unlabelled.append_bracket (h : Unlabelled front) (back : List Char) :
    Unlabelled (front ++ '<' :: back) :=
  fun label hlabel => h label (prefix_of_append_cons label.text_free.2 hlabel)

theorem Unlabelled.append_blanks (h : Unlabelled front) (hblanks : Blank blanks) :
    Unlabelled (front ++ blanks) := by
  intro label hlabel
  obtain ⟨init, last, hlast, hblank⟩ := label.text_last
  rcases prefix_append_cases hlabel with hfront | ⟨tail, hne, htail, heq⟩
  · exact h label hfront
  · -- the label would end in one of the blanks
    have htailBlank : Blank tail := fun c hc => hblanks c (htail.subset hc)
    exact hne (eq_nil_of_append_blanks htailBlank hblank (heq.symm.trans hlast))

theorem Unlabelled.trimStart_append_blanks (h : Unlabelled front) (htrim : trim front = front)
    (hblanks : Blank blanks) : Unlabelled (trimStart (front ++ blanks)) := by
  by_cases hfront : front = []
  · rw [hfront, List.nil_append, hblanks.trimStart_eq]
    exact unlabelled_nil
  · rw [trimStart_append_of_trim htrim hfront]
    exact h.append_blanks hblanks

end Unlabelled

/-! ### Projects on a row -/

theorem readProjects_trim (text : List Char) : readProjects (trim text) = readProjects text := by
  rw [readProjects, readProjects, map_trim_splitOn_trim (by decide)]

theorem readProjects_append_comma (front back : List Char) :
    readProjects (front ++ ',' :: back) = readProjects front ++ readProjects back := by
  simp only [readProjects, List.splitOn_append_cons_self, List.map_append, List.filter_append]

theorem ProjectText.readProjects_eq {text : List Char} {projects : List String}
    (h : ProjectText text projects) (hprojects : ∀ project ∈ projects, WritableProject project) :
    readProjects text = projects := by
  induction h with
  | blank hblank =>
      rw [← readProjects_trim, hblank.trim_eq]
      rfl
  | @project blanks blanks' project hbefore hafter =>
      have hproject := hprojects project (by simp)
      have htrimmed : trim project.toList = project.toList := hproject.trimmed
      rw [← readProjects_trim, trim_blanks_append hbefore, trim_append_blanks hafter, htrimmed,
        readProjects, List.splitOn_eq_singleton hproject.noComma]
      simp [htrimmed, hproject.nonempty]
  | comma _ _ ihleft ihright =>
      rw [readProjects_append_comma, ihleft fun project hmem => hprojects project (by simp [hmem]),
        ihright fun project hmem => hprojects project (by simp [hmem])]

theorem ProjectText.unlabelled {text : List Char} {projects : List String}
    (h : ProjectText text projects) (hprojects : ∀ project ∈ projects, WritableProject project) :
    Unlabelled (trimStart text) := by
  induction h with
  | blank hblank =>
      rw [hblank.trimStart_eq]
      exact unlabelled_nil
  | @project blanks blanks' project hbefore hafter =>
      have hproject := hprojects project (by simp)
      rw [trimStart_blanks_append hbefore]
      exact hproject.unlabelled.trimStart_append_blanks hproject.trimmed hafter
  | @comma front back projects projects' _ _ ihleft _ =>
      have hfront := ihleft fun project hmem => hprojects project (by simp [hmem])
      rw [trimStart_append_cons (by decide)]
      exact hfront.append_comma back

theorem ProjectText.blanks_append {blanks text : List Char} {projects : List String}
    (hblanks : Blank blanks) (h : ProjectText text projects) :
    ProjectText (blanks ++ text) projects := by
  have hboth : ∀ more : List Char, Blank more → Blank (blanks ++ more) := fun more hmore c hc =>
    (List.mem_append.mp hc).elim (hblanks c) (hmore c)
  induction h with
  | blank hblank => exact .blank (hboth _ hblank)
  | project hbefore hafter =>
      rw [← List.append_assoc]
      exact .project (hboth _ hbefore) hafter
  | comma _ hright ihleft _ =>
      rw [← List.append_assoc]
      exact .comma ihleft hright

theorem projectText_toList {blanks : List Char} (hblanks : Blank blanks) (project : String) :
    ProjectText (blanks ++ project.toList) [project] := by
  have hproject : ProjectText (blanks ++ (project.toList ++ [])) [project] :=
    .project hblanks blank_nil
  rwa [List.append_nil] at hproject

theorem projectText_intercalate (projects : List String) :
    ProjectText (", ".toList.intercalate (projects.map String.toList)) projects := by
  induction projects with
  | nil => exact .blank blank_nil
  | cons project projects ih =>
      have hproject := projectText_toList blank_nil project
      cases projects with
      | nil => simpa using hproject
      | cons next projects =>
          have hspace : Blank [' '] := blank_singleton (by decide)
          simpa [List.intercalate_cons_cons] using hproject.comma (ih.blanks_append hspace)

/-! ### Contributors on a row -/

theorem readContributors_trim (text : List Char) :
    readContributors (trim text) = readContributors text := by
  have hchunks : ∀ text : List Char, (text.splitOn '>').map chunkOf =
      ((text.splitOn '>').map trim).map fun part => trim (part.dropWhile (· = ',')) := by
    intro text
    rw [List.map_map]
    rfl
  rw [readContributors_eq_map, readContributors_eq_map, hchunks,
    map_trim_splitOn_trim (by decide), ← hchunks]

theorem readContributors_append_bracket (front back : List Char) :
    readContributors (front ++ '>' :: back) = readContributors front ++ readContributors back := by
  simp only [readContributors, List.splitOn_append_cons_self, List.map_append, List.filter_append]

theorem dropWhile_comma_eq_self {cs : List Char} (h : (trim cs).head? ≠ some ',') :
    cs.dropWhile (· = ',') = cs := by
  cases cs with
  | nil => rfl
  | cons c cs =>
      have hc : c ≠ ',' := by
        rintro rfl
        have htrim : trim (',' :: cs) = ',' :: trimEnd cs := trim_append_cons (by decide) [] cs
        simp [htrim] at h
      simp [hc]

theorem dropWhile_comma_trimEnd {commas : List Char} (hcommas : ∀ c ∈ commas, c = ',')
    (cs : List Char) :
    (trimEnd (commas ++ cs)).dropWhile (· = ',') = (trimEnd cs).dropWhile (· = ',') := by
  induction commas with
  | nil => rfl
  | cons c commas ih =>
      obtain rfl : c = ',' := hcommas c (by simp)
      have hend : trimEnd (',' :: (commas ++ cs)) = ',' :: trimEnd (commas ++ cs) :=
        trimEnd_append_cons (by decide) [] (commas ++ cs)
      rw [List.cons_append, hend, List.dropWhile_cons_of_pos (by simp)]
      exact ih fun c hc => hcommas c (by simp [hc])

theorem chunkOf_separator_append {separator : List Char} (h : Separator separator)
    {cs : List Char} (hcs : (trim cs).head? ≠ some ',') : chunkOf (separator ++ cs) = trim cs := by
  obtain @⟨before, commas, after, hbefore, hcommas, hafter⟩ := h
  rw [chunkOf, List.append_assoc, List.append_assoc, trim_blanks_append hbefore]
  cases commas with
  | nil =>
      have hkept : (trim (trim cs)).head? ≠ some ',' := by rwa [trim_trim]
      rw [List.nil_append, trim_blanks_append hafter, dropWhile_comma_eq_self hkept, trim_trim]
  | cons c commas =>
      have hkept : (trim (trimEnd (after ++ cs))).head? ≠ some ',' := by
        rwa [trim_trimEnd, trim_blanks_append hafter]
      obtain rfl : c = ',' := hcommas c (by simp)
      have hstart : trim (',' :: commas ++ (after ++ cs)) =
          trimEnd (',' :: commas ++ (after ++ cs)) :=
        congrArg trimEnd (trimStart_append_cons (by decide) [] _)
      rw [hstart, dropWhile_comma_trimEnd hcommas, dropWhile_comma_eq_self hkept, trim_trimEnd,
        trim_blanks_append hafter]

theorem Separator.free {separator : List Char} (h : Separator separator) : '>' ∉ separator := by
  obtain ⟨hbefore, hcommas, hafter⟩ := h
  simp only [List.mem_append, not_or]
  refine ⟨hbefore.not_mem (by decide), fun hmem => ?_, hafter.not_mem (by decide)⟩
  cases hcommas '>' hmem

theorem readContributors_separator_append {separator : List Char} (h : Separator separator)
    {cs : List Char} (hbracket : '>' ∉ cs) (hcs : (trim cs).head? ≠ some ',') :
    readContributors (separator ++ cs) =
      if trim cs = [] then [] else [readContributor (trim cs)] := by
  have hfree : '>' ∉ separator ++ cs := by simp [h.free, hbracket]
  rw [readContributors_eq_map, List.splitOn_eq_singleton hfree, List.map_singleton,
    chunkOf_separator_append h hcs]
  split
  next hnil => simp [hnil]
  next hne => simp [hne]

section Contributor

variable {contributor : Contributor} {separator : List Char}

theorem display_of_bare (h : contributor.url = none) : contributor.display = contributor.name := by
  rw [Contributor.display, h]

theorem display_of_addressed {url : String} (h : contributor.url = some url) :
    contributor.display.toList =
      contributor.name.toList ++ [' '] ++ '<' :: (url.toList ++ ['>']) := by
  simp [Contributor.display, h]

theorem WritableContributor.readContributors_bare (hc : WritableContributor contributor)
    (hbare : contributor.url = none) (hseparator : Separator separator) {blanks : List Char}
    (hblanks : Blank blanks) :
    readContributors (separator ++ (contributor.display.toList ++ blanks)) = [contributor] := by
  have htrim : trim (contributor.name.toList ++ blanks) = contributor.name.toList := by
    rw [trim_append_blanks hblanks, hc.trimmed]
  have hfree : '>' ∉ contributor.name.toList ++ blanks := by
    simp [hc.noClosing, hblanks.not_mem (c := '>') (by decide)]
  have hhead : (trim (contributor.name.toList ++ blanks)).head? ≠ some ',' := by
    rw [htrim]
    exact hc.noLeadingComma
  have hread : readContributor contributor.name.toList = contributor := by
    rw [(readContributor_eq_iff _ _).mpr (.named hc.noOpening), String.ofList_toList, ← hbare]
  rw [display_of_bare hbare, readContributors_separator_append hseparator hfree hhead, htrim]
  simp [hread, hc.named hbare]

theorem WritableContributor.trim_addressed (hc : WritableContributor contributor) {url : String}
    (hurl : contributor.url = some url) :
    trim (contributor.name.toList ++ [' '] ++ '<' :: url.toList) =
      trimStart (contributor.name.toList ++ [' ']) ++ '<' :: url.toList := by
  rw [trim_append_cons (by decide), trimEnd_eq_self (hc.url url hurl).1]

theorem WritableContributor.head?_addressed (hc : WritableContributor contributor)
    (back : List Char) :
    (trimStart (contributor.name.toList ++ [' ']) ++ '<' :: back).head? ≠ some ',' := by
  have hcomma := hc.noLeadingComma
  by_cases hname : contributor.name.toList = []
  · rw [hname]
    simp [trimStart, show isBlank ' ' = true by decide]
  · rw [trimStart_append_of_trim hc.trimmed hname]
    cases hchars : contributor.name.toList with
    | nil => exact absurd hchars hname
    | cons c cs => simpa [hchars] using hcomma

theorem WritableContributor.readContributor_addressed (hc : WritableContributor contributor)
    {url : String} (hurl : contributor.url = some url) :
    readContributor (trimStart (contributor.name.toList ++ [' ']) ++ '<' :: url.toList) =
      contributor := by
  have hblank : Blank [' '] := blank_singleton (by decide)
  have hname : trim (trimStart (contributor.name.toList ++ [' '])) = contributor.name.toList := by
    rw [trim_trimStart, trim_append_blanks hblank, hc.trimmed]
  have haddress : trim url.toList = url.toList := (hc.url url hurl).1
  have hopening : '<' ∉ trimStart (contributor.name.toList ++ [' ']) := by
    intro hmem
    have hfront := (List.dropWhile_suffix isBlank).subset hmem
    simp [hc.noOpening] at hfront
  rw [(readContributor_eq_iff _ _).mpr (.addressed hopening), hname, haddress, String.ofList_toList,
    String.ofList_toList, ← hurl]

theorem WritableContributor.readContributors_addressed (hc : WritableContributor contributor)
    {url : String} (hurl : contributor.url = some url) (hseparator : Separator separator)
    (rest : List Char) :
    readContributors (separator ++ (contributor.display.toList ++ rest)) =
      contributor :: readContributors rest := by
  have hcut : separator ++ (contributor.display.toList ++ rest) =
      separator ++ (contributor.name.toList ++ [' '] ++ '<' :: url.toList) ++ '>' :: rest := by
    simp [display_of_addressed hurl]
  have hfree : '>' ∉ contributor.name.toList ++ [' '] ++ '<' :: url.toList := by
    simp [hc.noClosing, (hc.url url hurl).2]
  have hhead : (trim (contributor.name.toList ++ [' '] ++ '<' :: url.toList)).head? ≠ some ',' := by
    rw [hc.trim_addressed hurl]
    exact hc.head?_addressed url.toList
  rw [hcut, readContributors_append_bracket,
    readContributors_separator_append hseparator hfree hhead, hc.trim_addressed hurl,
    hc.readContributor_addressed hurl]
  simp

end Contributor

theorem ContributorText.readContributors_eq {text : List Char} {contributors : List Contributor}
    (h : ContributorText text contributors)
    (hcontributors : ∀ contributor ∈ contributors, WritableContributor contributor) :
    readContributors text = contributors := by
  induction h with
  | @nil separator hseparator =>
      have hbracket : '>' ∉ ([] : List Char) := List.not_mem_nil
      have hempty := readContributors_separator_append hseparator hbracket (by decide)
      rwa [List.append_nil] at hempty
  | last hseparator hbare hafter =>
      exact (hcontributors _ (by simp)).readContributors_bare hbare hseparator hafter
  | @cons separator rest contributor contributors hseparator haddressed _ ih =>
      obtain ⟨url, hurl⟩ := Option.ne_none_iff_exists'.mp haddressed
      have hrest := ih fun contributor hmem => hcontributors contributor (by simp [hmem])
      rw [(hcontributors contributor (by simp)).readContributors_addressed hurl hseparator, hrest]

theorem Separator.unlabelled_append {separator : List Char} (h : Separator separator)
    {cs : List Char} (hcs : Unlabelled (trimStart cs)) :
    Unlabelled (trimStart (separator ++ cs)) := by
  obtain @⟨before, commas, after, hbefore, hcommas, hafter⟩ := h
  rw [List.append_assoc, List.append_assoc, trimStart_blanks_append hbefore]
  cases commas with
  | nil => rwa [List.nil_append, trimStart_blanks_append hafter]
  | cons c commas =>
      obtain rfl : c = ',' := hcommas c (by simp)
      have hstart := trimStart_append_cons (c := ',') (by decide) [] (commas ++ (after ++ cs))
      rw [List.nil_append] at hstart
      rw [List.cons_append, hstart]
      exact unlabelled_comma _

theorem ContributorText.unlabelled {text : List Char} {contributors : List Contributor}
    (h : ContributorText text contributors)
    (hcontributors : ∀ contributor ∈ contributors, WritableContributor contributor) :
    Unlabelled (trimStart text) := by
  cases h with
  | nil hseparator =>
      have hblank : Unlabelled (trimStart []) := unlabelled_nil
      have hempty := hseparator.unlabelled_append hblank
      rwa [List.append_nil] at hempty
  | @last separator blanks contributor hseparator hbare hafter =>
      have hc := hcontributors contributor (by simp)
      apply hseparator.unlabelled_append
      rw [display_of_bare hbare]
      exact hc.unlabelled.trimStart_append_blanks hc.trimmed hafter
  | @cons separator rest contributor contributors hseparator haddressed _ =>
      have hc := hcontributors contributor (by simp)
      obtain ⟨url, hurl⟩ := Option.ne_none_iff_exists'.mp haddressed
      have hblank : Blank [' '] := blank_singleton (by decide)
      apply hseparator.unlabelled_append
      rw [display_of_addressed hurl, List.append_assoc, List.cons_append,
        trimStart_append_cons (by decide)]
      exact (hc.unlabelled.trimStart_append_blanks hc.trimmed hblank).append_bracket _

theorem separator_of_blank {blanks : List Char} (h : Blank blanks) : Separator blanks := by
  have hseparator : Separator (blanks ++ ([] ++ [])) := .intro h (by simp) blank_nil
  simpa using hseparator

theorem separator_comma : Separator ", ".toList := by
  have hseparator : Separator ([] ++ ([','] ++ [' '])) :=
    .intro blank_nil (by simp) (blank_singleton (by decide))
  exact hseparator

theorem contributorText_intercalate (contributors : List Contributor)
    (h : ∀ contributor ∈ contributors.dropLast, contributor.url ≠ none) {separator : List Char}
    (hseparator : Separator separator) :
    ContributorText
      (separator ++ ", ".toList.intercalate (contributors.map (·.display.toList)))
      contributors := by
  induction contributors generalizing separator with
  | nil => simpa using ContributorText.nil hseparator
  | cons contributor contributors ih =>
      cases contributors with
      | nil =>
          by_cases hbare : contributor.url = none
          · simpa using ContributorText.last hseparator hbare blank_nil
          · simpa using ContributorText.cons hseparator hbare (.nil (separator_of_blank blank_nil))
      | cons next contributors =>
          have hrest := ih (fun contributor hmem => h contributor (by simp [hmem])) separator_comma
          simpa [List.intercalate_cons_cons] using
            ContributorText.cons hseparator (h contributor (by simp)) hrest

end DependencyAudit.Header
