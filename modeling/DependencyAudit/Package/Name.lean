import DependencyAudit.Package.Known

/-!
Package names and the package that a specifier names.  A name is plain or
carries a scope; a specifier names the package whose name is the longest one it
begins with, unless a colon follows, which makes the beginning a scheme.
Relative and absolute paths begin with no name at all.
-/

namespace DependencyAudit.Package

/-- Characters of a scope, which are also the ones a name may begin with. -/
def isScopeChar (c : Char) : Bool :=
  ('a' ≤ c && c ≤ 'z') || ('0' ≤ c && c ≤ '9') || c == '!' || c == '_' || c == '-'

def isNameChar (c : Char) : Bool :=
  isScopeChar c || c == '.'

/-- The grammar of package names. -/
inductive IsName : List Char → Prop
  | plain {c : Char} {cs : List Char} (head : isScopeChar c = true)
      (tail : ∀ d ∈ cs, isNameChar d = true) : IsName (c :: cs)
  | withScope {scope : List Char} {c : Char} {cs : List Char} (nonempty : scope ≠ [])
      (chars : ∀ d ∈ scope, isScopeChar d = true) (head : isScopeChar c = true)
      (tail : ∀ d ∈ cs, isNameChar d = true) : IsName ('@' :: scope ++ '/' :: c :: cs)

/-- Reads the longest plain name off the front. -/
def readPlain : List Char → Option (List Char × List Char)
  | [] => none
  | c :: cs =>
    if isScopeChar c then some (c :: cs.takeWhile isNameChar, cs.dropWhile isNameChar)
    else none

/-- Reads what follows the `@` of a scoped name. -/
def readScoped (cs : List Char) : Option (List Char × List Char) :=
  match cs.takeWhile isScopeChar, cs.dropWhile isScopeChar with
  | [], _ => none
  | scope, '/' :: rest =>
    (readPlain rest).map fun (name, rest) => ('@' :: scope ++ '/' :: name, rest)
  | _, _ => none

/-- Reads the longest name, with or without a scope, off the front. -/
def readName : List Char → Option (List Char × List Char)
  | '@' :: cs => readScoped cs
  | cs => readPlain cs

/-- The package that a specifier names. -/
def nameOf (specifier : String) : Option String :=
  match readName specifier.toList with
  | none => none
  | some (name, rest) =>
    if rest.head? = some ':' then none else some (String.ofList name)

end DependencyAudit.Package
