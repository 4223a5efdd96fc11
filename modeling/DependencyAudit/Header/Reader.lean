import DependencyAudit.Header.Basic
import DependencyAudit.Text.Blank
import DependencyAudit.Text.Lines

/-!
Reading a header.  Only the block of comment lines at the top of the text
matters: `commentBlock` cuts it out first, and everything after works on the
bodies of its lines, so nothing below the block can have a say.  The labelled
lines have to follow the title in a fixed order; lists may run on over
unlabelled lines.
-/

namespace DependencyAudit.Header

open DependencyAudit.Text

/-! ### The comment block -/

/-- Two slashes begin a comment line; three begin a directive, which is none. -/
def isComment (line : List Char) : Bool :=
  match line with
  | '/' :: '/' :: '/' :: _ => false
  | '/' :: '/' :: _ => true
  | _ => false

/-- A comment line without its slashes. -/
def commentBody (line : List Char) : List Char :=
  trim (line.drop 2)

/-- The bodies of the comment lines at the top of a text.  Byte order marks and
empty lines may stand before them, and the first line that is no comment ends
them. -/
def commentBlock (text : List Char) : List (List Char) :=
  let rows := (lines (text.dropWhile (· = '\uFEFF'))).map trim
  ((rows.dropWhile (·.isEmpty)).takeWhile isComment).map commentBody

/-! ### The title -/

/-- A number of up to thirty-two bits, with or without a plus sign. -/
def readNumber? (cs : List Char) : Option UInt32 :=
  let digits := match cs with
    | '+' :: digits => digits
    | digits => digits
  if digits ≠ [] ∧ digits.all Char.isDigit then
    let value := digits.foldl (fun n d => 10 * n + (d.toNat - '0'.toNat)) 0
    if value < UInt32.size then some (.ofNat value) else none
  else none

/-- A version is `major` or `major.minor`. -/
def readVersion? (cs : List Char) : Option (UInt32 × UInt32) :=
  match cs.splitOn '.' with
  | [major] => (readNumber? major).map fun major => (major, 0)
  | [major, minor] => do return (← readNumber? major, ← readNumber? minor)
  | _ => none

structure Title where
  library : String
  major : UInt32
  minor : UInt32
  nonNpm : Bool

/-- The version stands behind the last space of a title. -/
def readTitle (title : List Char) : Except Error Title :=
  match titleLead.toList.isPrefixOf? title with
  | none => .error .missing
  | some rest =>
    let (nonNpm, rest) := match nonNpmLead.toList.isPrefixOf? rest with
      | some rest => (true, rest)
      | none => (false, rest)
    match cutAtLast ' ' (trim rest) with
    | none => .error (.missingVersion (String.ofList title))
    | some (library, version) =>
      match readVersion? version with
      | none => .error (.invalidVersion (String.ofList version))
      | some (major, minor) => .ok ⟨String.ofList (trim library), major, minor, nonNpm⟩

/-! ### Labelled lines -/

/-- The text behind a label at the front of a line. -/
def Label.value? (label : Label) (line : List Char) : Option (List Char) :=
  (label.text.toList.isPrefixOf? line).map trim

/-- A line that carries a list on: it is not empty and has no label. -/
def isContinuation (line : List Char) : Bool :=
  !line.isEmpty && !labels.any fun label => label.text.toList.isPrefixOf line

/-- The value of the labelled line that has to come first, and the lines after it. -/
def readField (label : Label) :
    List (List Char) → Except Error (List Char × List (List Char))
  | [] => .error (.missingField label)
  | line :: lines =>
    match label.value? line with
    | some value => .ok (value, lines)
    | none => .error (.missingField label)

/-- A labelled list: the values on the labelled line and on the lines that carry
it on, and the lines after them. -/
def readListField {α : Type} (label : Label) (readItems : List Char → List α)
    (lines : List (List Char)) : Except Error (List α × List (List Char)) :=
  match readField label lines with
  | .error e => .error e
  | .ok (value, lines) =>
    .ok ((value :: lines.takeWhile isContinuation).flatMap readItems,
      lines.dropWhile isContinuation)

/-- Projects stand between commas. -/
def readProjects (cs : List Char) : List String :=
  (((cs.splitOn ',').map trim).filter (· ≠ [])).map String.ofList

/-- A contributor's name, or the name and the address behind an angle bracket. -/
def readContributor (cs : List Char) : Contributor :=
  match cutAtFirst '<' cs with
  | some (name, url) => ⟨String.ofList (trim name), some (String.ofList (trim url))⟩
  | none => ⟨String.ofList cs, none⟩

/-- Every contributor but a last one without an address ends in `>`; commas
before a name separate it from the contributor before. -/
def readContributors (cs : List Char) : List Contributor :=
  let chunks := (cs.splitOn '>').map fun chunk =>
    trim ((trim chunk).dropWhile (· = ','))
  (chunks.filter (· ≠ [])).map readContributor

/-- The version on the first line with one of the two version labels. -/
def readTypescriptVersion (lines : List (List Char)) : Option String :=
  lines.findSome? fun line =>
    ((Label.typescriptVersion.value? line).or
      (Label.minimumTypescriptVersion.value? line)).map String.ofList

/-! ### The header -/

/-- Reads the bodies of a comment block. -/
def ofBlock : List (List Char) → Except Error Header
  | [] => .error .missing
  | title :: lines => do
    let title ← readTitle title
    let (projects, lines) ← readListField .project readProjects lines
    let (contributors, lines) ← readListField .definitionsBy readContributors lines
    let (_, lines) ← readField .definitions lines
    return {
      library := title.library
      major := title.major
      minor := title.minor
      nonNpm := title.nonNpm
      projects
      contributors
      typescriptVersion := readTypescriptVersion lines }

/-- Reads the header at the top of a declaration file. -/
def ofText (text : String) : Except Error Header :=
  ofBlock (commentBlock text.toList)

end DependencyAudit.Header
