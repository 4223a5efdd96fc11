import DependencyAudit.Ascending
import DependencyAudit.Files.Tree
import DependencyAudit.Text.Blank
import DependencyAudit.Text.Lines

/-!
Which files of a project are its sources: the files directly in the root and
all files below the chosen directories, each with one of the chosen extensions.
Entries whose name begins with a dot are left out, but a directory that was
chosen counts whatever its own name is.
-/

namespace DependencyAudit

structure Selection where
  directories : List String
  extensions : List String
  deriving DecidableEq, Repr

namespace Selection

def defaultDirectories : String := "src,lib"

def defaultExtensions : String := "ts,js,tsx,jsx"

/-- The value of a list option: items between commas, without dots in front,
without slashes at the end, and without empty ones. -/
def readList (value : String) : List String :=
  let items := (value.toList.splitOn ',').map fun item =>
    (((Text.trim item).dropWhile (· = '.')).reverse.dropWhile (· = '/')).reverse
  (items.filter (· ≠ [])).map String.ofList

/-- The part behind the last dot of a name, unless nothing stands before it. -/
def extension? (name : String) : Option String :=
  match Text.cutAtLast '.' name.toList with
  | some (_ :: _, ext) => some (String.ofList ext)
  | _ => none

def isHidden (name : String) : Bool :=
  name.toList.head? = some '.'

/-- Whether the file at a place has a chosen extension. -/
def admits (selection : Selection) (location : Location) : Bool :=
  match location.getLast?.bind extension? with
  | some ext => selection.extensions.contains ext
  | none => false

/-- The chosen files at or below a base, by their paths; `within` bounds how
far below.  The base's own name may begin with a dot. -/
def filesUnder (selection : Selection) (tree : FileTree) (base : Path)
    (within : Option Nat) (working : Location := []) : List Path :=
  match tree.locateFrom working base with
  | .error _ => []
  | .ok location =>
    ((tree.filesBelow location).filter fun names =>
        selection.admits (location ++ names) && !names.any isHidden &&
          within.all (names.length ≤ ·)).map
      base.joinAll

/-- The sources of a project.  Of two spellings of the same path the one that is
found first stays, and the root's own files are found before all others.  The root
is absolute, or else it is followed from `working`, and then neither the root nor a
directory below it is one that the walk takes for standard input. -/
def sources (selection : Selection) (tree : FileTree) (root : Path)
    (working : Location := []) : Ascending Path.compare :=
  let bases := (selection.directories.map root.join).filter fun base =>
    tree.isDirectory base working
  .ofList <|
    selection.filesUnder tree root (some 1) working ++
      bases.flatMap fun base => selection.filesUnder tree base none working

/-- Whether the walk of a directory takes a path for standard input, below which
there is nothing. -/
def isStandardInput (path : Path) : Bool :=
  path.components = [.name "-"]

/-- The selection without the directories that the walk of a project takes for
standard input. -/
def withoutInput (selection : Selection) (root : Path) : Selection :=
  { selection with
    directories := selection.directories.filter fun directory =>
      !isStandardInput (root.join directory) }

end Selection

end DependencyAudit
