import DependencyAudit.Json.Reader

/-!
The project manifest, of which only the names of the declared dependencies
matter.  The two sections keep the order of declaration.
-/

namespace DependencyAudit

structure Manifest where
  dependencies : List String
  devDependencies : List String
  deriving DecidableEq, Repr

namespace Manifest

def fileName : String := "package.json"

/-- A manifest that declares nothing. -/
def empty : Manifest := ⟨[], []⟩

/-- What the names of types packages begin with. -/
def typesLead : String := "@types/"

def isTypesName (name : String) : Bool :=
  typesLead.toList.isPrefixOf name.toList

/-- A section that is no object declares nothing. -/
def sectionNames (json : Json) (key : String) : List String :=
  match json.get? key with
  | some members => members.keys
  | none => []

def ofJson (json : Json) : Manifest where
  dependencies := sectionNames json "dependencies"
  devDependencies := sectionNames json "devDependencies"

/-- There is no manifest in a text that is no JSON. -/
def ofText? (text : String) : Option Manifest :=
  (Json.ofText? text).map ofJson

/-- All declared names, with those of the first section first. -/
def declared (manifest : Manifest) : List String :=
  manifest.dependencies ++ manifest.devDependencies

def declares (manifest : Manifest) (name : String) : Bool :=
  manifest.declared.contains name

/-- The declared types packages, each at its first place only. -/
def typesPackages (manifest : Manifest) : List String :=
  (manifest.declared.filter isTypesName).eraseDups

end Manifest

end DependencyAudit
