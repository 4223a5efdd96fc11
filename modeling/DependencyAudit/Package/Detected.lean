import DependencyAudit.Ascending
import DependencyAudit.Package.Name
import DependencyAudit.Text.Order

/-!
The packages that a collection of specifiers names.  The answer is a set in
byte order, so neither the order nor the repetition of specifiers can show in
it.  Specifiers come from many files, and `Gathering` is any way of merging the
sets of the single files; merging from left to right is one of them.
-/

namespace DependencyAudit

/-- Distinct strings in byte order. -/
abbrev NameSet := Ascending Text.compareBytes

namespace NameSet

def contains (s : NameSet) (name : String) : Bool :=
  s.toList.contains name

end NameSet

namespace Package

/-- The packages that the specifiers name, without the runtime's own modules. -/
def detect (specifiers : List String) : NameSet :=
  .ofList ((specifiers.filterMap nameOf).filter fun name => !isBuiltin name)

/-- A way of merging the specifiers of several files, in any grouping and with
any number of empty sets between them. -/
inductive Gathering where
  | nothing
  | file (specifiers : NameSet)
  | both (first second : Gathering)

namespace Gathering

/-- The sets of the single files, from left to right. -/
def files : Gathering → List NameSet
  | nothing => []
  | file specifiers => [specifiers]
  | both first second => first.files ++ second.files

def merged : Gathering → NameSet
  | nothing => .empty
  | file specifiers => specifiers
  | both first second => first.merged.union second.merged

/-- Merging from left to right. -/
def ofList (sets : List NameSet) : Gathering :=
  sets.foldl (fun merged set => .both merged (.file set)) .nothing

end Gathering

end Package

end DependencyAudit
