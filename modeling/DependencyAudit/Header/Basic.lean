/-!
The comment header of a declaration file: which library it describes and in
which version, where the library lives, and who wrote the declarations.
-/

namespace DependencyAudit

structure Contributor where
  name : String
  url : Option String
  deriving DecidableEq, Repr

/-- The name, followed by the address in angle brackets if there is one. -/
def Contributor.display (contributor : Contributor) : String :=
  match contributor.url with
  | some url => contributor.name ++ " <" ++ url ++ ">"
  | none => contributor.name

structure Header where
  library : String
  major : UInt32
  minor : UInt32
  /-- The declarations describe something that no package installs, such as the
  globals of a runtime. -/
  nonNpm : Bool
  projects : List String
  contributors : List Contributor
  typescriptVersion : Option String
  deriving DecidableEq, Repr

namespace Header

/-- What a header line can be labelled with. -/
inductive Label where
  | project
  | definitionsBy
  | definitions
  | typescriptVersion
  | minimumTypescriptVersion
  deriving DecidableEq, Repr

def Label.text : Label → String
  | project => "Project:"
  | definitionsBy => "Definitions by:"
  | definitions => "Definitions:"
  | typescriptVersion => "TypeScript Version:"
  | minimumTypescriptVersion => "Minimum TypeScript Version:"

def labels : List Label :=
  [.project, .definitionsBy, .definitions, .typescriptVersion, .minimumTypescriptVersion]

/-- What a title begins with. -/
def titleLead : String := "Type definitions for "

/-- What stands before the library's name if no package installs it. -/
def nonNpmLead : String := "non-npm package "

/-- The first stage of reading that fails. -/
inductive Error where
  | missing
  | missingVersion (title : String)
  | invalidVersion (version : String)
  | missingField (label : Label)
  deriving DecidableEq, Repr

def Error.message : Error → String
  | missing => "missing 'Type definitions for' header"
  | missingVersion title => s!"missing library version in '{title}'"
  | invalidVersion version => s!"invalid library version '{version}'"
  | missingField label => s!"expected a '{label.text}' line"

end Header

end DependencyAudit
