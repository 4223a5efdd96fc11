import DependencyAudit.Manifest
import DependencyAudit.Text.Lines

/-!
The package that a types package describes.  A scope cannot be written inside
the name of a types package, so `@scope/name` is mangled into `scope__name`;
the first double underscore is the one that stands for the scope's slash.
-/

namespace DependencyAudit.Types

/-- The text before and behind the first double underscore. -/
def cutAtScope? : List Char → Option (List Char × List Char)
  | '_' :: '_' :: name => some ([], name)
  | c :: cs => (cutAtScope? cs).map fun (scope, name) => (c :: scope, name)
  | [] => none

/-- The scoped name behind a mangled one; a name without a scope has none. -/
def unmangle? (mangled : String) : Option String :=
  (cutAtScope? mangled.toList).map fun (scope, name) =>
    String.ofList ('@' :: scope ++ '/' :: name)

/-- The name under which a types package describes a package, without what the
names of types packages begin with. -/
def mangle (target : String) : String :=
  match target.toList with
  | '@' :: rest =>
    match Text.cutAtFirst '/' rest with
    | some (scope, name) => String.ofList (scope ++ '_' :: '_' :: name)
    | none => target
  | _ => target

/-- The package that the types package of a given name describes. -/
def targetOf (typesName : String) : String :=
  let mangled := match Manifest.typesLead.toList.isPrefixOf? typesName.toList with
    | some rest => String.ofList rest
    | none => typesName
  (unmangle? mangled).getD mangled

end DependencyAudit.Types
