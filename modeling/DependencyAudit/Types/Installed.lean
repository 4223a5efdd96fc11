import DependencyAudit.Files.Tree
import DependencyAudit.Findings
import DependencyAudit.Header.Reader
import DependencyAudit.Types.Target

/-!
Installed types packages.  An installation is looked for in the directory of
the project and then in each directory above it, as far as the path of the
project names them, and the nearest one counts.
Its manifest leads to the entry declaration, and the header of that file tells
whether the declarations describe a package at all, unless the manifest already
says so.
-/

namespace DependencyAudit

namespace Install

/-- A place and all places above it, from the deepest to the root. -/
def ancestors (location : Location) : List Location :=
  (List.range (location.length + 1)).reverse.map location.take

/-- Where a package lies if it is installed at a place. -/
def directoryAt (location : Location) (package : String) : Path :=
  ((Path.ofLocation location).join "node_modules").join package

def manifestAt (location : Location) (package : String) : Path :=
  (directoryAt location package).join Manifest.fileName

/-- The places where a package may be installed for `start`, from the deepest up:
the place of `start` and those above it.  A relative `start` holds no `..` here and
has no place above its beginning, so an empty one has the working directory alone.
What is found is named by its absolute path in any case. -/
def reach (start : Path) (working : Location) : List Location :=
  (ancestors start.lexical).map fun location => start.origin working ++ location

/-- The nearest place at or above `start` where the package is installed. -/
def nearest? (tree : FileTree) (start : Path) (package : String) (working : Location := []) :
    Option Location :=
  (reach start working).find? fun location => tree.isFile (manifestAt location package)

/-- The manifest of the nearest installation. -/
def manifest? (tree : FileTree) (start : Path) (package : String) (working : Location := []) :
    Option Path :=
  (nearest? tree start package working).map fun location => manifestAt location package

/-- A text without any `./` in front, however many there are. -/
def dropDotSlashes : List Char → List Char
  | '.' :: '/' :: cs => dropDotSlashes cs
  | cs => cs

/-- The cleaned path of a file that a package declares in its manifest. -/
def resolve (directory : Path) (declared : String) : Path :=
  .ofLocation (directory.join (String.ofList (dropDotSlashes declared.toList))).lexical

end Install

namespace Types

/-- What the names of declaration files end in. -/
def declarationEnding : String := ".d.ts"

/-- The entry declaration of a package that names no other. -/
def defaultEntry : String := "index.d.ts"

/-- The fields that may name the entry declaration, in the order in which they
are asked. -/
def entryFields : List String := ["types", "typings"]

def withEnding (declared : String) : String :=
  if declarationEnding.toList.isSuffixOf declared.toList then declared
  else declared ++ declarationEnding

/-- The file that a field of the manifest names, if there is such a file. -/
def declaredFile? (tree : FileTree) (directory : Path) (manifest : Json) (field : String) :
    Option Path :=
  match (manifest.get? field).bind Json.string? with
  | none => none
  | some declared =>
    let candidate := Install.resolve directory (withEnding declared)
    if declared ≠ "" ∧ tree.isFile candidate then some candidate else none

def entryOf (tree : FileTree) (directory : Path) (manifest : Json) : Path :=
  (entryFields.findSome? (declaredFile? tree directory manifest)).getD
    (directory.join defaultEntry)

/-- An installed types package whose files could be read. -/
structure Installed extends TypesPackage where
  manifest : Path
  entry : Path
  /-- Missing if the manifest already marks the package as non-npm. -/
  header : Option Header
  deriving DecidableEq, Repr

/-- Why an installed types package cannot be used. -/
inductive InspectError where
  | unreadable (path : Path) (error : ReadError)
  | malformedManifest (path : Path)
  | malformedHeader (entry : Path) (error : Header.Error)
  deriving DecidableEq, Repr

def InspectError.message : InspectError → String
  | unreadable path error => error.report path
  | malformedManifest path => "Failed to parse " ++ path.text
  | malformedHeader entry error =>
    "Malformed header in " ++ entry.text ++ ": " ++ error.message

/-- Whether a package's manifest marks it as non-npm. -/
def isMarkedNonNpm (manifest : Json) : Bool :=
  ((manifest.get? "nonNpm").map Json.isTrue).getD false

/-- Inspects a types package that is installed at a place. -/
def inspectAt (tree : FileTree) (location : Location) (name : String) :
    Except InspectError Installed :=
  let path := Install.manifestAt location name
  match tree.readText path with
  | .error e => .error (.unreadable path e)
  | .ok text =>
    match Json.ofText? text with
    | none => .error (.malformedManifest path)
    | some manifest =>
      let entry := entryOf tree (Install.directoryAt location name).trimmed manifest
      let package : TypesPackage := ⟨name, targetOf name, true⟩
      if isMarkedNonNpm manifest then .ok ⟨package, path, entry, none⟩
      else
        match tree.readText entry with
        | .error e => .error (.unreadable entry e)
        | .ok text =>
          match Header.ofText text with
          | .error e => .error (.malformedHeader entry e)
          | .ok header =>
            .ok ⟨{ package with nonNpm := header.nonNpm }, path, entry, some header⟩

/-- Inspects the installation nearest to `start`; `none` if there is none. -/
def inspect (tree : FileTree) (start : Path) (name : String) (working : Location := []) :
    Except InspectError (Option Installed) :=
  match Install.nearest? tree start name working with
  | none => .ok none
  | some location => (inspectAt tree location name).map some

/-- The types packages among `names` that are installed and in order. -/
def usable (tree : FileTree) (start : Path) (names : List String) (working : Location := []) :
    List TypesPackage :=
  names.filterMap fun name =>
    match inspect tree start name working with
    | .ok (some installed) => some installed.toTypesPackage
    | _ => none

end Types

end DependencyAudit
