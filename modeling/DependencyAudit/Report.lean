import DependencyAudit.Findings
import DependencyAudit.Json.Printer
import DependencyAudit.Styled

/-!
Reports of findings, for readers and for programs.  For readers every list that
is not empty has a section of its own, with one name to a line and a closing
branch at the last one; the detected packages are shown only on request.
-/

namespace DependencyAudit.Report

open DependencyAudit.Span

/-- One line for each name; the last one closes the branch. -/
def branches : List String → List StyledLine
  | [] => []
  | [name] => [[styled .dimmed "└──", plain ("  " ++ name)]]
  | name :: names => [styled .dimmed "├──", plain ("  " ++ name)] :: branches names

theorem branches_cons {name : String} {names : List String} (h : names ≠ []) :
    branches (name :: names) =
      [styled .dimmed "├──", plain ("  " ++ name)] :: branches names := by
  cases names with
  | nil => exact absurd rfl h
  | cons => rfl

def sectionOf (title explanation : String) (names : List String) : List StyledLine :=
  [styled .boldYellow "⚠", plain " ", styled .yellow title] ::
    [styled .dimmed (" - " ++ explanation)] :: branches names

def detectedSection (names : List String) : List StyledLine :=
  if names.isEmpty then [[plain "This project does not seem to import any NPM packages."]]
  else sectionOf "Detected dependencies" "these seem to be imported by this project:" names

def missingSection (names : List String) : List StyledLine :=
  if names.isEmpty then []
  else sectionOf "Possible phantom dependencies"
    "these seem to be imported but aren't listed in package.json:" names

def unusedSection (names : List String) : List StyledLine :=
  if names.isEmpty then []
  else sectionOf "Possible unused dependencies"
    "these are listed in package.json but don't seem to be imported:" names

def allClear : List StyledLine :=
  [[styled .boldGreen "✓", plain " ", styled .green "Everything looks good."],
   [plain "  No missing or unused dependencies were found."]]

/-- The lines of a report; an empty line separates its sections. -/
def lines (findings : Findings) (all : Bool) : List StyledLine :=
  (if all then detectedSection findings.detected ++ [[]] else []) ++
    missingSection findings.missing ++
    (if findings.missing.isEmpty || findings.unused.isEmpty then [] else [[]]) ++
    unusedSection findings.unused ++
    (if findings.hasAny then [] else allClear)

/-- The report for readers; with `all` the detected packages come first. -/
def text (findings : Findings) (all colour : Bool) : String :=
  StyledLine.renderAll colour (lines findings all)

def names (list : List String) : Json :=
  .array (list.map .string)

def document (findings : Findings) : Json :=
  .object [("detectedDependencies", names findings.detected),
    ("missingDependencies", names findings.missing),
    ("unusedDependencies", names findings.unused)]

/-- The report for programs. -/
def json (findings : Findings) : String :=
  (document findings).pretty ++ "\n"

/-- The line that closes a report on a terminal. -/
def finished (milliseconds threads : String) (files : Nat) (colour : Bool) : String :=
  StyledLine.renderAll colour
    [[],
     [styled .brightBlue "●", plain " Finished in ", styled .cyan milliseconds, plain "ms on ",
      styled .cyan (toString files), plain " files (using ", styled .cyan threads,
      plain " threads)."]]

end DependencyAudit.Report
