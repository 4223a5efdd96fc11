import DependencyAudit.Proofs.HeaderLayout

/-!
Reading back what was written. Each part of a layout is shown to have the form
that the grammar asks for, so that the header is the one verdict there is; the
way from a text to the bodies of its comment rows comes last.
-/

namespace DependencyAudit.Header

open DependencyAudit.Text

variable {h : Header}

/-! ### Titles -/

theorem toList_toString (n : UInt32) : (toString n).toList = Nat.toDigits 10 n.toNat :=
  String.toList_ofList

theorem isDigit_of_mem {n : UInt32} {c : Char} (hc : c ∈ (toString n).toList) :
    c.isDigit = true := by
  rw [toList_toString] at hc
  exact Nat.isDigit_of_mem_toDigits (by decide) (by decide) hc

theorem isNumber_toString (n : UInt32) : IsNumber (toString n).toList n.toNat := by
  have hvalue : decimal (toString n).toList = n.toNat := by
    rw [toList_toString]
    exact Nat.ofDigitChars_toDigits (by decide) (by decide)
  have hnonempty : (toString n).toList ≠ [] := by
    rw [toList_toString]
    exact Nat.toDigits_ne_nil
  have hbound : n.toNat ≤ 4294967295 := Nat.le_of_lt_succ n.toNat_lt
  have hnumber := IsNumber.plain hnonempty (fun _ hc => isDigit_of_mem hc) (by rwa [hvalue])
  rwa [hvalue] at hnumber

/-- The version of a header, as its title ends. -/
def versionText (h : Header) : List Char :=
  (toString h.major).toList ++ '.' :: (toString h.minor).toList

theorem isVersion_versionText (h : Header) :
    IsVersion h.versionText h.major.toNat h.minor.toNat :=
  .minor (isNumber_toString h.major) (isNumber_toString h.minor)

theorem space_not_mem_versionText (h : Header) : ' ' ∉ h.versionText := by
  have hspace : ∀ n : UInt32, ' ' ∉ (toString n).toList := by
    intro n hmem
    cases isDigit_of_mem hmem
  simp [versionText, hspace]

theorem exists_versionText (h : Header) :
    ∃ front last, h.versionText = front ++ [last] ∧ isBlank last = false := by
  have hnonempty : (toString h.minor).toList ≠ [] := by
    rw [toList_toString]
    exact Nat.toDigits_ne_nil
  obtain ⟨front, last, hminor⟩ := (List.eq_nil_or_concat _).resolve_left hnonempty
  refine ⟨(toString h.major).toList ++ '.' :: front, last, by simp [versionText, hminor], ?_⟩
  have hdigit : last.isDigit = true := isDigit_of_mem (n := h.minor) (by simp [hminor])
  exact isBlank_of_isDigit hdigit

/-- What the title says behind its lead. -/
def namedText (h : Header) : List Char :=
  h.library.toList ++ ' ' :: h.versionText

theorem toList_titleText (h : Header) :
    h.titleText.toList =
      titleLead.toList ++ ((if h.nonNpm then nonNpmLead.toList else []) ++ h.namedText) := by
  cases hnonNpm : h.nonNpm <;> simp [titleText, namedText, versionText, hnonNpm]

theorem trimEnd_append_versionText (h : Header) (front : List Char) :
    trimEnd (front ++ h.versionText) = front ++ h.versionText := by
  obtain ⟨init, last, hversion, hlast⟩ := h.exists_versionText
  rw [hversion, ← List.append_assoc, trimEnd_append_cons hlast]
  rfl

theorem trim_titleText (h : Header) : trim h.titleText.toList = h.titleText.toList := by
  have hstart : trimStart h.titleText.toList = h.titleText.toList := by
    rw [toList_titleText]
    exact trimStart_append_cons (c := 'T') (by decide) [] _
  rw [trim, hstart, toList_titleText, namedText]
  simpa using h.trimEnd_append_versionText
    (titleLead.toList ++
      ((if h.nonNpm then nonNpmLead.toList else []) ++ (h.library.toList ++ [' '])))

theorem Writable.trim_namedText (hh : h.Writable) : trim h.namedText = h.namedText := by
  have hlibrary : h.library.toList ≠ [] := by simp [hh.nonempty]
  have hend := h.trimEnd_append_versionText (h.library.toList ++ [' '])
  rw [trim, namedText, trimStart_append_of_trim hh.trimmed hlibrary]
  simpa using hend

theorem Writable.names (hh : h.Writable) :
    Names ((if h.nonNpm then nonNpmLead.toList else []) ++ h.namedText) h.nonNpm h.namedText := by
  cases hnonNpm : h.nonNpm with
  | true => exact .nonNpm
  | false =>
      refine .npm fun hmark => ?_
      have hsplit : [] ++ h.namedText = h.library.toList ++ [' '] ++ h.versionText := by
        simp [namedText]
      simp only [Bool.false_eq_true, if_false, hsplit] at hmark
      rcases prefix_append_cases hmark with hname | ⟨tail, hne, htail, heq⟩
      · exact hh.unmarked hnonNpm hname
      · -- the mark ends in a space, and there is none in a version
        have hlast : nonNpmLead.toList.getLast? = some ' ' := by decide
        rw [heq, List.getLast?_append_of_ne_nil _ hne] at hlast
        exact h.space_not_mem_versionText (htail.subset (List.mem_of_getLast? hlast))

theorem Writable.titleVerdict (hh : h.Writable) :
    TitleVerdict h.titleText.toList (.ok ⟨h.library, h.major, h.minor, h.nonNpm⟩) := by
  have hverdict := TitleVerdict.ok hh.names hh.trim_namedText h.space_not_mem_versionText
    h.isVersion_versionText
  have htrim : trim h.library.toList = h.library.toList := hh.trimmed
  rwa [htrim, String.ofList_toList, ← toList_titleText] at hverdict

/-! ### Lists -/

theorem prefix_trim_label_append (label : Label) (text : List Char) :
    label.text.toList <+: trim (label.text.toList ++ text) := by
  rw [trim_label_append]
  exact List.prefix_append _ _

theorem forall₂_of_forall_flatten {α β : Type} {P : α → Prop} {R S : β → List α → Prop}
    (hRS : ∀ b as, R b as → (∀ a ∈ as, P a) → S b as) {bs : List β} {groups : List (List α)}
    (h : List.Forall₂ R bs groups) (hP : ∀ a ∈ groups.flatten, P a) : List.Forall₂ S bs groups := by
  induction h with
  | nil => exact .nil
  | @cons b group bs groups hR _ ih =>
      simp only [List.flatten_cons, List.mem_append] at hP
      exact .cons (hRS b group hR fun a ha => hP a (.inl ha)) (ih fun a ha => hP a (.inr ha))

section Spread

variable {α : Type} {label : Label} {IsText R : List Char → List α → Prop}
  {rows following : List (List Char)} {items : List α}

theorem Spread.exists_cons (h : Spread label IsText rows items) :
    ∃ text more, rows = (label.text.toList ++ text) :: more := by
  obtain @⟨text, _, more, _, _, _, _⟩ := h
  exact ⟨text, more, rfl⟩

/-- A spread list is a section of the block, if what follows it has a label. -/
theorem Spread.exists_section (h : Spread label IsText rows items) {P : α → Prop}
    (hitems : ∀ item ∈ items, P item)
    (htext : ∀ text group, IsText text group → (∀ item ∈ group, P item) →
      Unlabelled (trimStart text) ∧ R (trim text) group)
    {next : Label} (hnext : ∀ row ∈ following.head?, next.text.toList <+: row) :
    ∃ values lists, IsSection label (rows.map trim ++ following) values following ∧
      List.Forall₂ R values lists ∧ lists.flatten = items := by
  obtain @⟨text, group, rows, groups, first, more, nonempty⟩ := h
  simp only [List.mem_append] at hitems
  have hfirst := htext text group first fun item hmem => hitems item (.inl hmem)
  have hmore := forall₂_of_forall_flatten htext more fun item hmem => hitems item (.inr hmem)
  obtain ⟨hunlabelled, hread⟩ := (List.forall₂_and_left _ _).mp hmore
  have hrun : LongestRun Continues (rows.map trim ++ following) (rows.map trim) following := by
    refine ⟨rfl, ?_, fun row hrow hcontinues => hcontinues.2 next (hnext row hrow)⟩
    intro body hbody
    obtain ⟨row, hrow, rfl⟩ := List.mem_map.mp hbody
    exact ⟨nonempty row hrow, (hunlabelled row hrow).mono (List.rdropWhile_prefix _ _)⟩
  refine ⟨trim text :: rows.map trim, group :: groups, ?_, .cons hfirst.2 ?_, rfl⟩
  · have hsection : IsSection label
        ((label.text.toList ++ trimEnd text) :: (rows.map trim ++ following))
        (trim (trimEnd text) :: rows.map trim) following := .intro hrun
    rwa [trim_trimEnd, ← trim_label_append] at hsection
  · exact List.forall₂_map_left_iff.mpr hread

end Spread

theorem Writable.exists_projects (hh : h.Writable) {rows following : List (List Char)}
    (hrows : Spread .project ProjectText rows h.projects) {next : Label}
    (hnext : ∀ row ∈ following.head?, next.text.toList <+: row) :
    ∃ values lists, IsSection .project (rows.map trim ++ following) values following ∧
      List.Forall₂ IsProjectList values lists ∧ lists.flatten = h.projects := by
  refine hrows.exists_section hh.projects (fun text group htext hgroup => ?_) hnext
  refine ⟨htext.unlabelled hgroup, (readProjects_eq_iff _ _).mp ?_⟩
  rw [readProjects_trim, htext.readProjects_eq hgroup]

theorem Writable.exists_contributors (hh : h.Writable) {rows following : List (List Char)}
    (hrows : Spread .definitionsBy ContributorText rows h.contributors) {next : Label}
    (hnext : ∀ row ∈ following.head?, next.text.toList <+: row) :
    ∃ values lists, IsSection .definitionsBy (rows.map trim ++ following) values following ∧
      List.Forall₂ IsContributorList values lists ∧ lists.flatten = h.contributors := by
  refine hrows.exists_section hh.contributors (fun text group htext hgroup => ?_) hnext
  refine ⟨htext.unlabelled hgroup, (readContributors_eq_iff _ _).mp ?_⟩
  rw [readContributors_trim, htext.readContributors_eq hgroup]

/-! ### The version of the compiler -/

theorem VersionRows.isTypescriptVersion {rows : List (List Char)} {version : Option String}
    (h : VersionRows rows version) (htrimmed : ∀ v ∈ version, IsTrimmed v) :
    IsTypescriptVersion (rows.map trim) version := by
  have hmap : ∀ notes : List (List Char), (∀ note ∈ notes, ¬ IsVersionRow (trim note)) →
      ∀ row ∈ notes.map trim, ¬ IsVersionRow row := by
    intro notes hsilent row hrow
    obtain ⟨note, hnote, rfl⟩ := List.mem_map.mp hrow
    exact hsilent note hnote
  cases h with
  | absent hsilent => exact .none (hmap _ hsilent)
  | @present notes more label gap version hsilent hlabel hblank =>
      have hversion : trim (trimEnd (gap ++ version.toList)) = version.toList := by
        rw [trim_trimEnd, trim_blanks_append hblank]
        exact htrimmed version rfl
      have hrows : IsTypescriptVersion
          (notes.map trim ++
            (label.text.toList ++ trimEnd (gap ++ version.toList)) :: more.map trim)
          (some (String.ofList (trim (trimEnd (gap ++ version.toList))))) :=
        .some (hmap notes hsilent) hlabel
      rw [hversion, String.ofList_toList, ← trim_label_append] at hrows
      simpa using hrows

/-! ### Blocks -/

theorem Layout.verdict {bodies : List (List Char)} (hlayout : Layout h bodies) (hh : h.Writable) :
    Verdict (bodies.map trim) (.ok h) := by
  obtain @⟨projectRows, contributorRows, versionRows, definitions, hprojects, hcontributors,
    hversion⟩ := hlayout
  obtain ⟨text, more, hcontributorRows⟩ := hcontributors.exists_cons
  -- each list ends where the next label stands
  have hdefinitions : ∀ row ∈ (trim (Label.definitions.text.toList ++ definitions) ::
      versionRows.map trim).head?, Label.definitions.text.toList <+: row := by
    simp [prefix_trim_label_append]
  have hdefinitionsBy : ∀ row ∈ (contributorRows.map trim ++
      trim (Label.definitions.text.toList ++ definitions) :: versionRows.map trim).head?,
      Label.definitionsBy.text.toList <+: row := by
    simp [hcontributorRows, prefix_trim_label_append]
  obtain ⟨values, projects, hsection, hlists, hprojectsEq⟩ :=
    hh.exists_projects hprojects hdefinitionsBy
  obtain ⟨values', contributors, hsection', hlists', hcontributorsEq⟩ :=
    hh.exists_contributors hcontributors hdefinitions
  have hverdict := Verdict.header hh.titleVerdict hsection hsection'
    (congrArg (· :: versionRows.map trim) (trim_label_append .definitions definitions))
    hlists hlists' (hversion.isTypescriptVersion hh.typescriptVersion)
  rw [hprojectsEq, hcontributorsEq] at hverdict
  simpa [trim_titleText] using hverdict

/-! ### Texts -/

theorem CommentRow.trim_eq {row body : List Char} (h : CommentRow row body) :
    isComment (trim row) = true ∧ commentBody (trim row) = trim body := by
  obtain @⟨front, gap, back, _, hfront, hgap, hback, hthird⟩ := h
  have htrim : trim (front ++ '/' :: '/' :: (gap ++ (body ++ back))) =
      '/' :: '/' :: trimEnd (gap ++ (body ++ back)) := by
    rw [trim_blanks_append hfront]
    exact trim_append_cons (by decide) ['/'] _
  rw [htrim]
  constructor
  · rw [isComment_iff]
    refine ⟨⟨_, rfl⟩, fun hdirective => hthird ?_⟩
    obtain ⟨tail, htail⟩ : "/".toList <+: trimEnd (gap ++ (body ++ back)) := by
      simpa using hdirective
    obtain ⟨rest, hrest⟩ : trimEnd (gap ++ (body ++ back)) <+: gap ++ (body ++ back) :=
      List.rdropWhile_prefix _ _
    rw [← hrest, ← htail]
    rfl
  · change trim (trimEnd (gap ++ (body ++ back))) = trim body
    rw [trim_trimEnd, trim_blanks_append hgap, trim_append_blanks hback]

theorem CommentRow.head?_mem {row body : List Char} (h : CommentRow row body) {c : Char}
    (hc : c ∈ row.head?) : isBlank c = true ∨ c = '/' := by
  obtain @⟨front, gap, back, _, hfront, _, _, _⟩ := h
  cases front with
  | nil => exact .inr (Option.mem_some_iff.mp hc).symm
  | cons d front =>
      rw [← Option.mem_some_iff.mp hc]
      exact .inl (hfront d (by simp))

/-- The rows of a header begin with a blank or a slash, and so with no mark. -/
theorem head?_mem_of_written {text : List Char} {blanks rows bodies others : List (List Char)}
    (hblank : ∀ row ∈ blanks, Blank row) (hcommented : List.Forall₂ CommentRow rows bodies)
    (hbodies : bodies ≠ []) (hwritten : Text.Written (blanks ++ (rows ++ others)) text) {c : Char}
    (hc : c ∈ text.head?) : isBlank c = true ∨ c = '/' := by
  have hfirst : ∀ row rest, blanks ++ (rows ++ others) = row :: rest →
      ∀ c ∈ row.head?, isBlank c = true ∨ c = '/' := by
    intro row rest heq c hc
    cases blanks with
    | nil =>
        cases hcommented with
        | nil => exact absurd rfl hbodies
        | cons hrow _ =>
            obtain ⟨rfl, -⟩ := List.cons.inj heq
            exact hrow.head?_mem hc
    | cons blank blanks =>
        obtain ⟨rfl, -⟩ := List.cons.inj heq
        exact .inl (hblank blank (by simp) c (List.mem_of_mem_head? hc))
  cases hrows : blanks ++ (rows ++ others) with
  | nil =>
      rw [hrows] at hwritten
      cases hwritten
      cases hc
  | cons row rest =>
      rw [hrows] at hwritten
      rcases hwritten.head?_mem hc with hmem | rfl | rfl
      · exact hfirst row rest hrows c hmem
      · exact .inl (by decide)
      · exact .inl (by decide)

theorem Renders.commentBlock_eq {text : List Char} (ht : h.Renders text) :
    ∃ bodies, Layout h bodies ∧ commentBlock text = bodies.map trim := by
  obtain @⟨marks, text, blanks, rows, bodies, others, hmark, hblank, hlayout, hcommented, hstop,
    honeLine, hwritten⟩ := ht
  refine ⟨bodies, hlayout, ?_⟩
  have hbodies : bodies ≠ [] := by
    obtain ⟨_, _, _⟩ := hlayout
    exact List.cons_ne_nil _ _
  have htrim := hcommented.imp fun row body hrow => hrow.trim_eq
  obtain ⟨hcomment, hbody⟩ := (List.forall₂_and_left _ _).mp htrim
  have hmarks : LongestRun (· = '\uFEFF') (marks ++ text) marks text := by
    refine ⟨rfl, hmark, fun c hc heq => ?_⟩
    subst heq
    rcases head?_mem_of_written hblank hcommented hbodies hwritten hc with h | h <;> cases h
  have hlines : (lines text).map trim = blanks.map trim ++ (rows.map trim ++ others.map trim) := by
    rw [hwritten.map_lines trim_dropReturn honeLine, List.map_append, List.map_append]
  have hblanks : LongestRun (· = []) (blanks.map trim ++ (rows.map trim ++ others.map trim))
      (blanks.map trim) (rows.map trim ++ others.map trim) := by
    refine ⟨rfl, ?_, fun body hbodyHead hempty => ?_⟩
    · intro body hmem
      obtain ⟨row, hrow, rfl⟩ := List.mem_map.mp hmem
      exact (hblank row hrow).trim_eq
    · obtain ⟨row, more, rfl⟩ : ∃ row more, rows = row :: more := by
        cases hcommented with
        | nil => exact absurd rfl hbodies
        | cons => exact ⟨_, _, rfl⟩
      have hfirst := hcomment row (by simp)
      rw [Option.mem_some_iff.mp hbodyHead, hempty] at hfirst
      cases hfirst
  have hrun : LongestRun (isComment · = true) (rows.map trim ++ others.map trim) (rows.map trim)
      (others.map trim) := by
    refine ⟨rfl, ?_, fun body hbodyHead => ?_⟩
    · intro body hmem
      obtain ⟨row, hrow, rfl⟩ := List.mem_map.mp hmem
      exact hcomment row hrow
    · rw [List.head?_map] at hbodyHead
      obtain ⟨row, hrow, rfl⟩ := Option.map_eq_some_iff.mp hbodyHead
      rw [isComment_iff]
      exact hstop row hrow
  have hmap : (rows.map trim).map commentBody = bodies.map trim := by
    rw [List.map_map, ← List.forall₂_eq_eq_eq, List.forall₂_map_left_iff,
      List.forall₂_map_right_iff]
    exact hbody
  rw [commentBlock, ((longestRun_iff fun _ => decide_eq_true_iff).mp hmarks).2, hlines]
  simp only [((longestRun_iff fun _ => List.isEmpty_iff).mp hblanks).2,
    ((longestRun_iff fun _ => Iff.rfl).mp hrun).1, hmap]

/-! ### Round trip -/

/-- A header that can be written is what reading gives back, for each of its
layouts and whatever stands behind it. -/
theorem ofText_of_renders {h : Header} {text : String} (hh : h.Writable)
    (ht : h.Renders text.toList) : ofText text = .ok h := by
  obtain ⟨bodies, hlayout, hblock⟩ := ht.commentBlock_eq
  rw [ofText, hblock, ofBlock_eq_iff]
  exact hlayout.verdict hh

/-- A header whose lists take more than one row. -/
def nodeHeader : Header where
  library := "Node.js"
  major := 18
  minor := 11
  nonNpm := true
  projects := ["nodejs.org", "nodejs.dev", "npm.im/node"]
  contributors := [⟨"MS", some "ms.com"⟩, ⟨"DT", some ""⟩, ⟨"Anonymous", none⟩]
  typescriptVersion := some "4.5"

theorem writable_nodeHeader : nodeHeader.Writable := by
  decide +kernel

/-- The row that has the body behind its slashes. -/
def commented (body : List Char) : List Char :=
  '/' :: '/' :: ' ' :: body

theorem commentRow_commented (body : List Char) : CommentRow (commented body) body := by
  have hrow : CommentRow ([] ++ '/' :: '/' :: ([' '] ++ (body ++ []))) body :=
    .intro blank_nil (blank_singleton (by decide)) blank_nil (by simp)
  simpa [commented] using hrow

def nodeBodies : List (List Char) :=
  [nodeHeader.titleText.toList,
    Label.project.text.toList ++ (' ' :: "nodejs.org, nodejs.dev".toList ++ [',']),
    ' ' :: "npm.im/node".toList,
    Label.definitionsBy.text.toList ++ (' ' :: "MS <ms.com>, DT <>".toList),
    "Anonymous".toList,
    Label.definitions.text.toList ++ " d".toList,
    Label.minimumTypescriptVersion.text.toList ++ (' ' :: "4.5".toList)]

theorem layout_nodeBodies : Layout nodeHeader nodeBodies := by
  have hspace : Blank [' '] := blank_singleton (by decide)
  have hprojects : Spread .project ProjectText
      [Label.project.text.toList ++ (' ' :: "nodejs.org, nodejs.dev".toList ++ [',']),
        ' ' :: "npm.im/node".toList] nodeHeader.projects := by
    have hjoined := projectText_intercalate ["nodejs.org", "nodejs.dev"]
    have hfirst := (hjoined.blanks_append hspace).comma (.blank blank_nil)
    have hsecond := projectText_toList hspace "npm.im/node"
    exact .intro hfirst (.cons hsecond .nil) (by decide)
  have hcontributors : Spread .definitionsBy ContributorText
      [Label.definitionsBy.text.toList ++ (' ' :: "MS <ms.com>, DT <>".toList),
        "Anonymous".toList] nodeHeader.contributors := by
    have hfirst := contributorText_intercalate
      [⟨"MS", some "ms.com"⟩, ⟨"DT", some ""⟩] (by simp) (separator_of_blank hspace)
    have hsecond := contributorText_intercalate [⟨"Anonymous", none⟩] (by simp)
      (separator_of_blank blank_nil)
    exact .intro hfirst (.cons hsecond .nil) (by decide)
  have hversion : VersionRows
      ([] ++ (Label.minimumTypescriptVersion.text.toList ++ ([' '] ++ "4.5".toList)) :: [])
      nodeHeader.typescriptVersion :=
    .present (by simp) (by decide) hspace
  exact .intro hprojects hcontributors hversion

def nodeRows : List String :=
  ["", "// Type definitions for non-npm package Node.js 18.11",
    "// Project: nodejs.org, nodejs.dev,", "//  npm.im/node",
    "// Definitions by: MS <ms.com>, DT <>",
    "// Anonymous", "// Definitions: d", "// Minimum TypeScript Version: 4.5", "", "export {};"]

def nodeText : String :=
  "\uFEFF" ++ textOf .returnFeed nodeRows

theorem renders_nodeText : nodeHeader.Renders nodeText.toList := by
  have hcommented : List.Forall₂ CommentRow (nodeBodies.map commented) nodeBodies :=
    List.forall₂_map_left_iff.mpr (List.forall₂_same.mpr fun body _ => commentRow_commented body)
  have hrows : nodeRows.map String.toList =
      [[]] ++ (nodeBodies.map commented ++ [[], "export {};".toList]) := by
    decide +kernel
  have hwritten := written_textOf .returnFeed nodeRows
  rw [hrows] at hwritten
  have hbehind : ¬ IsComment (trim []) := by
    rintro ⟨htwo, -⟩
    exact absurd htwo (by decide)
  rw [nodeText, String.toList_append]
  exact .intro (by simp) (by simp [Blank]) layout_nodeBodies hcommented
    (by simpa using hbehind) (by decide +kernel) hwritten

theorem ofText_of_renders_nodeText :
    nodeHeader.Writable ∧ nodeHeader.Renders nodeText.toList ∧ ofText nodeText = .ok nodeHeader :=
  ⟨writable_nodeHeader, renders_nodeText, ofText_of_renders writable_nodeHeader renders_nodeText⟩

/-- Two contributors, the first of them without an address. -/
def anonymousFirst : Header where
  library := "foo"
  major := 1
  minor := 0
  nonNpm := false
  projects := ["https://p"]
  contributors := [⟨"Anonymous", none⟩, ⟨"Jane", some "u"⟩]
  typescriptVersion := none

/-- The rows of a header with the contributors spread as given. -/
def rowsWith (h : Header) (contributorRows : List String) : List String :=
  ["// " ++ h.titleText, "// Project: " ++ ", ".intercalate h.projects] ++ contributorRows ++
    ["// Definitions: d"]

/-- Nothing tells a contributor without an address from the one that follows on
the same row, and a comma that is left behind becomes part of the name. -/
theorem ofText_anonymousFirst :
    anonymousFirst.Writable ∧
    ", ".intercalate (anonymousFirst.contributors.map Contributor.display) =
      "Anonymous, Jane <u>" ∧
    ofText (textOf .feed (anonymousFirst.rowsWith ["// Definitions by: Anonymous, Jane <u>"])) =
      .ok { anonymousFirst with contributors := [⟨"Anonymous, Jane", some "u"⟩] } ∧
    ofText (textOf .feed
        (anonymousFirst.rowsWith ["// Definitions by: Anonymous,", "//   Jane <u>"])) =
      .ok { anonymousFirst with contributors := [⟨"Anonymous,", none⟩, ⟨"Jane", some "u"⟩] } ∧
    ofText (textOf .feed (anonymousFirst.rowsWith ["// Definitions by: Anonymous, Jane <u>"])) ≠
      .ok anonymousFirst := by
  have hrow : ofText (textOf .feed
      (anonymousFirst.rowsWith ["// Definitions by: Anonymous, Jane <u>"])) =
      .ok { anonymousFirst with contributors := [⟨"Anonymous, Jane", some "u"⟩] } := by
    decide +kernel
  refine ⟨by decide +kernel, by decide +kernel, hrow, by decide +kernel, ?_⟩
  rw [hrow]
  decide

end DependencyAudit.Header
