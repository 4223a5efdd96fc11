import DependencyAudit.Proofs.Rows
import DependencyAudit.Report
import Mathlib.Data.List.Basic

/-!
A report for readers, read back. Nothing in a report is mistaken for something else:
a name never begins its row, so no name looks like a title, like the row that stands
for an empty list or like the all-clear, and a section lasts as long as its rows show
names. So the lists of a report can be told from its text alone, and also whether the
detected packages were asked for, as long as no name goes over the end of its row.
-/

namespace DependencyAudit

/-! ### The rows of a text -/

namespace Text

/-- The rows of a text in which a line feed ends each row. -/
def rowsOf (text : String) : List String :=
  (text.toList.splitOn '\n').dropLast.map String.ofList

theorem rowsOf_textOf {rows : List String} (h : ∀ row ∈ rows, '\n' ∉ row.toList) :
    rowsOf (textOf .feed rows) = rows := by
  induction rows with
  | nil => rfl
  | cons row rows ih =>
      have htext : (textOf .feed (row :: rows)).toList =
          row.toList ++ '\n' :: (textOf .feed rows).toList := by
        simp [textOf, LineEnd.chars]
      rw [rowsOf, htext, List.splitOn_append_cons_self_of_not_mem (h row (by simp)),
        List.dropLast_cons_of_ne_nil (List.splitOn_ne_nil _ _), List.map_cons,
        String.ofList_toList]
      exact congrArg _ (ih fun row hrow => h row (by simp [hrow]))

end Text

namespace Report

open Text

/-! ### Headings and names -/

/-- What stands above the names of a list. -/
structure Heading where
  title : String
  explanation : String

namespace Heading

def detected : Heading :=
  ⟨"Detected dependencies", "these seem to be imported by this project:"⟩

def missing : Heading :=
  ⟨"Possible phantom dependencies",
    "these seem to be imported but aren't listed in package.json:"⟩

def unused : Heading :=
  ⟨"Possible unused dependencies",
    "these are listed in package.json but don't seem to be imported:"⟩

def titleRow (heading : Heading) : String := "⚠ " ++ heading.title

def explanationRow (heading : Heading) : String := " - " ++ heading.explanation

end Heading

/-- The row of a name, with the closing branch if it is the last one. -/
def nameRow (last : Bool) (name : String) : String :=
  (if last then "└──" else "├──") ++ "  " ++ name

/-- The name that a row shows. -/
def nameOn? (row : String) : Option String :=
  match row.toList with
  | sign :: '─' :: '─' :: ' ' :: ' ' :: name =>
    if sign = '├' ∨ sign = '└' then some (String.ofList name) else none
  | _ => none

/-- The rows of the names of a section, in order. -/
def nameRows (names : List String) : List String :=
  names.mapIdx fun i name => nameRow (i + 1 = names.length) name

/-- The rows of the section of a list; an empty list has no section. -/
def Heading.rows (heading : Heading) (names : List String) : List String :=
  if names = [] then [] else heading.titleRow :: heading.explanationRow :: nameRows names

/-- The row that stands for an empty list of detected packages. -/
def nothingDetectedRow : String := "This project does not seem to import any NPM packages."

def allClearRow : String := "✓ Everything looks good."

def allClearNote : String := "  No missing or unused dependencies were found."

/-- In the rows a list is shown once, in a section of its own that lasts up to an
empty row or to the end; an empty list has no section. -/
inductive Listed (heading : Heading) : List String → List String → Prop
  | nowhere {rows : List String} (absent : heading.titleRow ∉ rows) : Listed heading [] rows
  | once {names before after : List String} (nonempty : names ≠ [])
      (before_free : heading.titleRow ∉ before) (after_free : heading.titleRow ∉ after)
      (ends : ∀ row ∈ after.head?, row = "") :
      Listed heading names
        (before ++ heading.titleRow :: heading.explanationRow :: nameRows names ++ after)

/-- The rows of a report show the findings: each list stands in its own section, no
other row shows a name, and there is a row that says so if there is nothing to show. -/
structure Shows (findings : Findings) (all : Bool) (rows : List String) : Prop where
  detected : Listed .detected (if all then findings.detected else []) rows
  missing : Listed .missing findings.missing rows
  unused : Listed .unused findings.unused rows
  names : rows.filterMap nameOn? =
    (if all then findings.detected else []) ++ findings.missing ++ findings.unused
  nothing_detected : nothingDetectedRow ∈ rows ↔ all = true ∧ findings.detected = []
  all_clear : allClearRow ∈ rows ↔ findings.hasAny = false

/-! ### Reading -/

/-- The names that the first rows show, up to a row that shows none. -/
def leadingNames : List String → List String
  | [] => []
  | row :: rows =>
    match nameOn? row with
    | some name => name :: leadingNames rows
    | none => []

/-- The names in the first section with the heading. -/
def namesUnder (heading : Heading) (rows : List String) : List String :=
  leadingNames ((rows.dropWhile (· ≠ heading.titleRow)).drop 2)

/-- What a report for readers tells; the detected packages may not be shown. -/
structure Told where
  detected : Option (List String)
  missing : List String
  unused : List String
  deriving DecidableEq, Repr

/-- Reads the rows of a report. -/
def Told.ofRows (rows : List String) : Told where
  detected :=
    if nothingDetectedRow ∈ rows ∨ Heading.detected.titleRow ∈ rows then
      some (namesUnder .detected rows)
    else none
  missing := namesUnder .missing rows
  unused := namesUnder .unused rows

/-- What a report of the findings is meant to tell. -/
def told (findings : Findings) (all : Bool) : Told where
  detected := if all then some findings.detected else none
  missing := findings.missing
  unused := findings.unused

theorem nameOn?_nameRow (last : Bool) (name : String) :
    nameOn? (nameRow last name) = some name := by
  cases last <;> simp [nameOn?, nameRow]

theorem nameOn?_titleRow (heading : Heading) : nameOn? heading.titleRow = none := by
  simp [nameOn?, Heading.titleRow]

theorem nameOn?_explanationRow (heading : Heading) : nameOn? heading.explanationRow = none := by
  simp [nameOn?, Heading.explanationRow]

theorem map_nameOn?_nameRows (names : List String) :
    (nameRows names).map nameOn? = names.map some := by
  apply List.ext_getElem?
  intro i
  simp [nameRows, Function.comp_def, nameOn?_nameRow]

theorem leadingNames_append {rows names : List String} (h : rows.map nameOn? = names.map some)
    (rest : List String) : leadingNames (rows ++ rest) = names ++ leadingNames rest := by
  induction rows generalizing names with
  | nil =>
      rw [List.map_nil, eq_comm, List.map_eq_nil_iff] at h
      rw [h]
      rfl
  | cons row rows ih =>
      obtain ⟨name, names, rfl, hname, hnames⟩ := List.map_eq_cons_iff.mp h.symm
      rw [List.cons_append, leadingNames, ← hname, ih hnames.symm]
      rfl

/-! ### The rows of a report -/

theorem nameRows_cons {name : String} {names : List String} (h : names ≠ []) :
    nameRows (name :: names) = nameRow false name :: nameRows names := by
  have hlength : names.length ≠ 0 := by simpa using h
  simp [nameRows, List.mapIdx_cons, hlength, eq_comm]

theorem map_render_branches (names : List String) :
    (branches names).map (StyledLine.render false) = nameRows names := by
  induction names with
  | nil => rfl
  | cons name names ih =>
      by_cases h : names = []
      · subst h
        rfl
      · rw [branches_cons h, List.map_cons, ih, nameRows_cons h]
        rfl

theorem map_render_sectionOf (heading : Heading) (names : List String) :
    (if names.isEmpty then [] else sectionOf heading.title heading.explanation names).map
      (StyledLine.render false) = heading.rows names := by
  cases names with
  | nil => rfl
  | cons name names =>
      rw [if_neg (by simp), sectionOf, List.map_cons, List.map_cons, map_render_branches,
        Heading.rows, if_neg (List.cons_ne_nil _ _)]
      rfl

/-- What a report tells of the detected packages, if they are asked for. -/
def detectedRows (findings : Findings) : Bool → List String
  | false => []
  | true =>
    (if findings.detected = [] then [nothingDetectedRow]
      else Heading.detected.rows findings.detected) ++ [""]

/-- What stands between the sections of the missing and of the unused packages. -/
def separatorRows (findings : Findings) : List String :=
  if findings.missing = [] ∨ findings.unused = [] then [] else [""]

def allClearRows (findings : Findings) : List String :=
  if findings.hasAny then [] else [allClearRow, allClearNote]

/-- The rows of a report without colour. -/
def reportRows (findings : Findings) (all : Bool) : List String :=
  detectedRows findings all ++
    (Heading.missing.rows findings.missing ++
      (separatorRows findings ++ (Heading.unused.rows findings.unused ++ allClearRows findings)))

theorem map_render_lines (findings : Findings) (all : Bool) :
    (lines findings all).map (StyledLine.render false) = reportRows findings all := by
  have hdetected : (if all then detectedSection findings.detected ++ [[]] else []).map
      (StyledLine.render false) = detectedRows findings all := by
    cases all with
    | false => rfl
    | true =>
        rw [if_pos rfl, detectedRows, List.map_append]
        congr 1
        cases hnames : findings.detected with
        | nil => rfl
        | cons name names => exact map_render_sectionOf .detected (name :: names)
  have hmissing : (missingSection findings.missing).map (StyledLine.render false) =
      Heading.missing.rows findings.missing := map_render_sectionOf .missing findings.missing
  have hunused : (unusedSection findings.unused).map (StyledLine.render false) =
      Heading.unused.rows findings.unused := map_render_sectionOf .unused findings.unused
  have hseparator : (if findings.missing.isEmpty || findings.unused.isEmpty then []
      else [([] : StyledLine)]).map (StyledLine.render false) = separatorRows findings := by
    rw [separatorRows]
    cases findings.missing <;> cases findings.unused <;> rfl
  have hclear : (if findings.hasAny then [] else allClear).map (StyledLine.render false) =
      allClearRows findings := by
    rw [allClearRows]
    cases findings.hasAny <;> rfl
  simp only [lines, reportRows, List.map_append, List.append_assoc, hdetected, hmissing, hunused,
    hseparator, hclear]

theorem text_eq_textOf (findings : Findings) (all : Bool) :
    text findings all false = textOf .feed (reportRows findings all) := by
  rw [← map_render_lines]
  simp [text, StyledLine.renderAll, textOf, LineEnd.chars, Function.comp_def]

/-! ### Sections -/

section Sections

variable {heading : Heading} {names rows before after : List String}

theorem listed_rows (heading : Heading) (names : List String) :
    Listed heading names (heading.rows names) := by
  by_cases h : names = []
  · subst h
    exact .nowhere List.not_mem_nil
  · have hlisted : Listed heading names
        ([] ++ heading.titleRow :: heading.explanationRow :: nameRows names ++ []) :=
      .once h List.not_mem_nil List.not_mem_nil (fun _ hrow => by cases hrow)
    simpa [Heading.rows, h] using hlisted

theorem Listed.prepend (h : Listed heading names rows) (hbefore : heading.titleRow ∉ before) :
    Listed heading names (before ++ rows) := by
  cases h with
  | nowhere absent => exact .nowhere (by simp [hbefore, absent])
  | @once names front back nonempty front_free back_free ends =>
      have hfront : heading.titleRow ∉ before ++ front := by simp [hbefore, front_free]
      simpa using Listed.once nonempty hfront back_free ends

theorem Listed.append (h : Listed heading names rows) (hafter : heading.titleRow ∉ after)
    (hends : names ≠ [] → ∀ row ∈ after.head?, row = "") :
    Listed heading names (rows ++ after) := by
  cases h with
  | nowhere absent => exact .nowhere (by simp [hafter, absent])
  | @once names front back nonempty front_free back_free ends =>
      have hback : heading.titleRow ∉ back ++ after := by simp [hafter, back_free]
      have hboth : ∀ row ∈ (back ++ after).head?, row = "" := by
        cases back with
        | nil => exact hends nonempty
        | cons row back => exact ends
      simpa using Listed.once nonempty front_free hback hboth

theorem leadingNames_eq_nil (h : ∀ row ∈ rows.head?, row = "") : leadingNames rows = [] := by
  cases rows with
  | nil => rfl
  | cons row rows =>
      rw [h row rfl]
      rfl

theorem namesUnder_append (hbefore : heading.titleRow ∉ before) (rows : List String) :
    namesUnder heading (before ++ rows) = namesUnder heading rows := by
  have hpass : ∀ row ∈ before, decide (row ≠ heading.titleRow) = true := fun row hrow =>
    decide_eq_true fun heq => hbefore (heq ▸ hrow)
  rw [namesUnder, List.dropWhile_append_of_pos hpass, namesUnder]

theorem namesUnder_titleRow (heading : Heading) (explanation : String) (rows : List String) :
    namesUnder heading (heading.titleRow :: explanation :: rows) = leadingNames rows := by
  rw [namesUnder, List.dropWhile_cons_of_neg (by simp)]
  rfl

/-- What is listed under a heading is found there. -/
theorem Listed.namesUnder_eq (h : Listed heading names rows) : namesUnder heading rows = names := by
  cases h with
  | nowhere absent =>
      rw [← List.append_nil rows, namesUnder_append absent]
      rfl
  | @once names before after nonempty before_free after_free ends =>
      rw [List.append_assoc, namesUnder_append before_free, List.cons_append, List.cons_append,
        namesUnder_titleRow, leadingNames_append (map_nameOn?_nameRows names),
        leadingNames_eq_nil ends, List.append_nil]

theorem Listed.titleRow_mem (h : Listed heading names rows) (hnames : names ≠ []) :
    heading.titleRow ∈ rows := by
  cases h with
  | nowhere absent => exact absurd rfl hnames
  | once => simp

theorem Listed.titleRow_not_mem (h : Listed heading [] rows) : heading.titleRow ∉ rows := by
  cases h with
  | nowhere absent => exact absent
  | once nonempty => exact absurd rfl nonempty

/-- Rows that show the findings are read as what the findings are meant to tell. -/
theorem Shows.ofRows_eq {findings : Findings} {all : Bool} (h : Shows findings all rows) :
    Told.ofRows rows = told findings all := by
  have hdetected := h.detected
  simp only [Told.ofRows, told, h.missing.namesUnder_eq, h.unused.namesUnder_eq, Told.mk.injEq,
    and_true]
  cases all with
  | false =>
      have hnothing : nothingDetectedRow ∉ rows := fun hmem => by
        simpa using h.nothing_detected.mp hmem
      exact if_neg (not_or.mpr ⟨hnothing, hdetected.titleRow_not_mem⟩)
  | true =>
      have htitle : nothingDetectedRow ∈ rows ∨ Heading.detected.titleRow ∈ rows := by
        by_cases hnames : findings.detected = []
        · exact .inl (h.nothing_detected.mpr ⟨rfl, hnames⟩)
        · exact .inr (hdetected.titleRow_mem hnames)
      rw [if_pos htitle, hdetected.namesUnder_eq]
      rfl

end Sections

/-! ### Rows that show no name -/

theorem mem_nameRows {row : String} {names : List String} (h : row ∈ nameRows names) :
    nameOn? row ≠ none := by
  have hrow := List.mem_map_of_mem (f := nameOn?) h
  rw [map_nameOn?_nameRows] at hrow
  obtain ⟨name, -, hname⟩ := List.mem_map.mp hrow
  simp [← hname]

theorem Heading.mem_rows_iff {heading : Heading} {row : String} (hname : nameOn? row = none)
    (names : List String) :
    row ∈ heading.rows names ↔
      names ≠ [] ∧ (row = heading.titleRow ∨ row = heading.explanationRow) := by
  have hnames : row ∉ nameRows names := fun h => mem_nameRows h hname
  rw [Heading.rows]
  split
  next h => simp [h]
  next h => simp [h, hnames]

theorem Heading.filterMap_rows (heading : Heading) (names : List String) :
    (heading.rows names).filterMap nameOn? = names := by
  have hnames := congrArg (List.filterMap id) (map_nameOn?_nameRows names)
  rw [List.filterMap_map, List.filterMap_map, Function.id_comp] at hnames
  rw [Heading.rows]
  split
  next h => rw [h, List.filterMap_nil]
  next => simpa [nameOn?_titleRow, nameOn?_explanationRow] using hnames

theorem mem_separatorRows_iff {findings : Findings} {row : String} :
    row ∈ separatorRows findings ↔
      (findings.missing ≠ [] ∧ findings.unused ≠ []) ∧ row = "" := by
  rw [separatorRows, ← not_or]
  split
  next h => simp [h]
  next h => simp [h]

theorem mem_allClearRows_iff {findings : Findings} {row : String} :
    row ∈ allClearRows findings ↔
      findings.hasAny = false ∧ (row = allClearRow ∨ row = allClearNote) := by
  rw [allClearRows]
  cases findings.hasAny <;> simp

theorem mem_detectedRows_iff {findings : Findings} {all : Bool} {row : String}
    (hname : nameOn? row = none) :
    row ∈ detectedRows findings all ↔ all = true ∧
      (findings.detected = [] ∧ row = nothingDetectedRow ∨
        findings.detected ≠ [] ∧
          (row = Heading.detected.titleRow ∨ row = Heading.detected.explanationRow) ∨
        row = "") := by
  cases all with
  | false => simp [detectedRows]
  | true =>
      by_cases h : findings.detected = []
      · simp [detectedRows, h]
      · simp [detectedRows, h, Heading.mem_rows_iff hname]

/-! ### The whole report -/

theorem listed_missing (findings : Findings) (all : Bool) :
    Listed .missing findings.missing (reportRows findings all) := by
  have hname := nameOn?_titleRow .missing
  have hbefore : Heading.missing.titleRow ∉ detectedRows findings all := by
    simp +decide [mem_detectedRows_iff hname]
  have hafter : Heading.missing.titleRow ∉
      separatorRows findings ++ (Heading.unused.rows findings.unused ++ allClearRows findings) := by
    simp +decide [mem_separatorRows_iff, mem_allClearRows_iff, Heading.mem_rows_iff hname]
  refine ((listed_rows _ _).append hafter fun hnames => ?_).prepend hbefore
  -- behind names that are missing nothing follows, or a separator does
  cases hunused : findings.unused <;>
    simp [separatorRows, allClearRows, Heading.rows, Findings.hasAny, hnames, hunused]

theorem listed_unused (findings : Findings) (all : Bool) :
    Listed .unused findings.unused (reportRows findings all) := by
  have hname := nameOn?_titleRow .unused
  have hbefore : Heading.unused.titleRow ∉ detectedRows findings all ++
      (Heading.missing.rows findings.missing ++ separatorRows findings) := by
    simp +decide [mem_detectedRows_iff hname, mem_separatorRows_iff, Heading.mem_rows_iff hname]
  have hafter : Heading.unused.titleRow ∉ allClearRows findings := by
    simp +decide [mem_allClearRows_iff]
  have hlisted := ((listed_rows .unused findings.unused).append hafter fun hnames => by
    simp [allClearRows, Findings.hasAny, hnames]).prepend hbefore
  simpa only [reportRows, List.append_assoc] using hlisted

theorem listed_detected (findings : Findings) (all : Bool) :
    Listed .detected (if all then findings.detected else []) (reportRows findings all) := by
  have hname := nameOn?_titleRow .detected
  have hafter : Heading.detected.titleRow ∉ Heading.missing.rows findings.missing ++
      (separatorRows findings ++
        (Heading.unused.rows findings.unused ++ allClearRows findings)) := by
    simp +decide [mem_separatorRows_iff, mem_allClearRows_iff, Heading.mem_rows_iff hname]
  cases all with
  | false => exact .nowhere hafter
  | true =>
      by_cases hnames : findings.detected = []
      · rw [if_pos rfl, hnames]
        refine .nowhere fun h => ?_
        rcases List.mem_append.mp h with h | h
        · simp +decide [mem_detectedRows_iff hname, hnames] at h
        · exact hafter h
      · have hblank : Heading.detected.titleRow ∉ "" :: (Heading.missing.rows findings.missing ++
            (separatorRows findings ++
              (Heading.unused.rows findings.unused ++ allClearRows findings))) :=
          List.not_mem_cons_of_ne_of_not_mem (by decide) hafter
        have hlisted := (listed_rows .detected findings.detected).append hblank (by simp)
        simpa [reportRows, detectedRows, hnames] using hlisted

theorem filterMap_reportRows (findings : Findings) (all : Bool) :
    (reportRows findings all).filterMap nameOn? =
      (if all then findings.detected else []) ++ findings.missing ++ findings.unused := by
  have hdetected : (detectedRows findings all).filterMap nameOn? =
      if all then findings.detected else [] := by
    cases all with
    | false => rfl
    | true =>
        rw [detectedRows, List.filterMap_append]
        split
        next h => rw [if_pos rfl, h]; rfl
        next => rw [Heading.filterMap_rows]; exact List.append_nil _
  have hseparator : (separatorRows findings).filterMap nameOn? = [] := by
    rw [separatorRows]
    split <;> rfl
  have hclear : (allClearRows findings).filterMap nameOn? = [] := by
    rw [allClearRows]
    split <;> rfl
  simp only [reportRows, List.filterMap_append, Heading.filterMap_rows, hdetected, hseparator,
    hclear, List.nil_append, List.append_nil, List.append_assoc]

theorem shows_reportRows (findings : Findings) (all : Bool) :
    Shows findings all (reportRows findings all) where
  detected := listed_detected findings all
  missing := listed_missing findings all
  unused := listed_unused findings all
  names := filterMap_reportRows findings all
  nothing_detected := by
    have hname : nameOn? nothingDetectedRow = none := by decide
    simp +decide [reportRows, mem_detectedRows_iff hname, mem_separatorRows_iff,
      mem_allClearRows_iff, Heading.mem_rows_iff hname]
  all_clear := by
    have hname : nameOn? allClearRow = none := by decide
    simp +decide [reportRows, mem_detectedRows_iff hname, mem_separatorRows_iff,
      mem_allClearRows_iff, Heading.mem_rows_iff hname]

/-- No name goes over the end of its row. -/
def Legible (findings : Findings) : Prop :=
  ∀ name ∈ findings.detected ++ findings.missing ++ findings.unused, '\n' ∉ name.toList

theorem newline_not_mem_rows {heading : Heading} {names : List String}
    (htitle : '\n' ∉ heading.titleRow.toList)
    (hexplanation : '\n' ∉ heading.explanationRow.toList)
    (hnames : ∀ name ∈ names, '\n' ∉ name.toList) :
    ∀ row ∈ heading.rows names, '\n' ∉ row.toList := by
  intro row hrow
  rw [Heading.rows] at hrow
  split at hrow
  next => exact absurd hrow List.not_mem_nil
  next =>
    rcases List.mem_cons.mp hrow with rfl | hrow
    · exact htitle
    rcases List.mem_cons.mp hrow with rfl | hrow
    · exact hexplanation
    obtain ⟨i, hi, rfl⟩ := List.mem_mapIdx.mp hrow
    have hname := hnames _ (List.getElem_mem hi)
    cases hlast : decide (i + 1 = names.length) <;> simpa [nameRow] using hname

theorem newline_not_mem_reportRows {findings : Findings} (h : Legible findings) (all : Bool) :
    ∀ row ∈ reportRows findings all, '\n' ∉ row.toList := by
  simp only [Legible, List.forall_mem_append] at h
  obtain ⟨⟨hdetected, hmissing⟩, hunused⟩ := h
  simp only [reportRows, List.forall_mem_append]
  refine ⟨?_, newline_not_mem_rows (by decide) (by decide) hmissing, ?_,
    newline_not_mem_rows (by decide) (by decide) hunused, ?_⟩
  · cases all with
    | false => exact fun row hrow => absurd hrow List.not_mem_nil
    | true =>
        simp only [detectedRows, List.forall_mem_append]
        refine ⟨?_, by decide⟩
        split
        next => decide
        next => exact newline_not_mem_rows (by decide) (by decide) hdetected
  · intro row hrow
    rw [(mem_separatorRows_iff.mp hrow).2]
    decide
  · intro row hrow
    rcases (mem_allClearRows_iff.mp hrow).2 with rfl | rfl <;> decide

theorem rowsOf_text {findings : Findings} (h : Legible findings) (all : Bool) :
    rowsOf (text findings all false) = reportRows findings all := by
  rw [text_eq_textOf, rowsOf_textOf (newline_not_mem_reportRows h all)]

/-- Findings that are meant to tell the same have the same report. -/
theorem text_congr {findings other : Findings} {all all' : Bool}
    (h : told other all' = told findings all) :
    text other all' false = text findings all false := by
  obtain ⟨detected, missing, unused⟩ := findings
  obtain ⟨detected', missing', unused'⟩ := other
  simp only [told, Told.mk.injEq] at h
  obtain ⟨hdetected, rfl, rfl⟩ := h
  cases all <;> cases all' <;> simp only [if_true, Bool.false_eq_true, if_false, reduceCtorEq,
    Option.some.injEq] at hdetected
  · rfl
  · rw [hdetected]

/-- A report without colour is read back: it is made of rows, which show each list in a
section of its own, and reports have the same text exactly if they are meant to tell the
same. -/
theorem ofRows_text {findings : Findings} (h : Legible findings) (all : Bool) :
    textOf .feed (rowsOf (text findings all false)) = text findings all false ∧
      Shows findings all (rowsOf (text findings all false)) ∧
      Told.ofRows (rowsOf (text findings all false)) = told findings all ∧
      ∀ other, Legible other → ∀ all',
        text other all' false = text findings all false ↔ told other all' = told findings all := by
  rw [rowsOf_text h]
  refine ⟨(text_eq_textOf findings all).symm, shows_reportRows findings all,
    (shows_reportRows findings all).ofRows_eq, ?_⟩
  intro other hother all'
  refine ⟨fun htext => ?_, text_congr⟩
  rw [← (shows_reportRows other all').ofRows_eq, ← (shows_reportRows findings all).ofRows_eq,
    ← rowsOf_text hother, ← rowsOf_text h, htext]

/-- Names that look like the other rows of a report. -/
def imitating : Findings where
  detected := ["⚠ Possible phantom dependencies", "", "└──  a"]
  missing := ["✓ Everything looks good.", "├──  b"]
  unused := []

theorem ofRows_text_imitating :
    Legible imitating ∧
      Shows imitating true (rowsOf (text imitating true false)) ∧
      Told.ofRows (rowsOf (text imitating true false)) =
        ⟨some ["⚠ Possible phantom dependencies", "", "└──  a"],
          ["✓ Everything looks good.", "├──  b"], []⟩ := by
  have hlegible : Legible imitating := by
    rw [Legible]
    decide
  obtain ⟨-, hshows, hread, -⟩ := ofRows_text hlegible true
  exact ⟨hlegible, hshows, hread⟩

end Report

end DependencyAudit
