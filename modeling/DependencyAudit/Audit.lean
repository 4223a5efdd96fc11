import DependencyAudit.Files.Sources
import DependencyAudit.Import.Specifier
import DependencyAudit.Types.Installed

/-!
An audit of a project in a file tree.  Only the project's own manifest can stop
it; a source that cannot be read contributes nothing, and an installed types
package that cannot be inspected is left alone.
-/

namespace DependencyAudit

namespace Audit

inductive Error where
  | manifestMissing (path : Path)
  | unreadable (path : Path) (error : ReadError)
  deriving DecidableEq, Repr

def Error.message : Error → String
  | manifestMissing path => "File " ++ path.text ++ " does not exist"
  | unreadable path error => error.report path

/-- Where a project's manifest lies. -/
def manifestPath (root : Path) : Path :=
  root.join Manifest.fileName

/-- Reads the manifest of a project.  One that is no JSON declares nothing. -/
def readManifest (tree : FileTree) (root : Path) (working : Location := []) :
    Except Error Manifest :=
  let path := manifestPath root
  if tree.isFile path working then
    match tree.readText path working with
    | .error e => .error (.unreadable path e)
    | .ok text => .ok ((Manifest.ofText? text).getD .empty)
  else .error (.manifestMissing path)

/-- The specifiers of a source file. -/
def specifiersOf (tree : FileTree) (file : Path) (working : Location := []) :
    Except ReadError (List Import.Specifier) :=
  (tree.readText file working).map Import.specifiersInText

/-- The requests of a source file; none if it cannot be read. -/
def requestsOf (tree : FileTree) (working : Location) (file : Path) : NameSet :=
  match specifiersOf tree file working with
  | .ok specifiers => .ofList (specifiers.map (·.request))
  | .error _ => .empty

/-- The packages that some gathering of all files' requests names. -/
def detectedIn (gathering : Package.Gathering) : NameSet :=
  Package.detect gathering.merged.toList

structure Outcome where
  findings : Findings
  filesScanned : Nat
  deriving DecidableEq, Repr

/-- The source files of a project, in the order in which they are listed. -/
def sourcesOf (tree : FileTree) (working : Location) (root : Path) (selection : Selection) :
    List Path :=
  ((selection.withoutInput root).sources tree root working).toList

/-- Audits the project at a path, which is followed from the working directory if
it is relative. -/
def runAt (tree : FileTree) (working : Location) (root : Path) (selection : Selection) :
    Except Error Outcome :=
  match readManifest tree root working with
  | .error e => .error e
  | .ok manifest =>
    let files := sourcesOf tree working root selection
    let detected := detectedIn (.ofList (files.map (requestsOf tree working)))
    let types := Types.usable tree root manifest.typesPackages working
    .ok ⟨.classify detected manifest types, files.length⟩

/-- The path by which a project is audited: that of the place that the root leads
to, or of the working directory if no root is given.  A root that leads nowhere
stays as it is written; among these only the empty one can have a manifest, which
is then the one in the working directory. -/
def rootPath (tree : FileTree) (working : Location) : Option Path → Path
  | none => .ofLocation working
  | some path =>
    match tree.locateFrom working path with
    | .ok location => .ofLocation location
    | .error _ => path

/-- Audits the project at `root`, or at the working directory if no root is given. -/
def run (tree : FileTree) (working : Location) (root : Option Path) (selection : Selection) :
    Except Error Outcome :=
  runAt tree working (rootPath tree working root) selection

end Audit

end DependencyAudit
