import DependencyAudit.Text.Order

/-!
Paths as they are written.  A path keeps its text, because reports show it as
it was given.  It is read in three ways: as components, by which paths are
compared; lexically, as the place it leads to when every `..` cancels the name
before it; and by a file tree, which also sees what is missing.
-/

namespace DependencyAudit

/-- The place of a file or directory: the names on the way from the root. -/
abbrev Location := List String

structure Path where
  text : String
  deriving DecidableEq, Repr

namespace Path

/-- The text between slashes. -/
def segments (path : Path) : List String :=
  (path.text.toList.splitOn '/').map String.ofList

def isAbsolute (path : Path) : Bool :=
  path.text.toList.head? = some '/'

/-- Where following a path begins: at the root, or at the working directory if
the path is relative. -/
def origin (path : Path) (working : Location) : Location :=
  if path.isAbsolute then [] else working

/-- A segment that stays where it is. -/
def isIdle (segment : String) : Bool :=
  segment = "" || segment = "."

/-- Continues a path.  A slash is put between the two unless the first is empty
or ends in one; an absolute continuation replaces the path. -/
def join (path : Path) (right : String) : Path :=
  if (Path.mk right).isAbsolute then ⟨right⟩
  else if path.text = "" ∨ path.text.toList.getLast? = some '/' then ⟨path.text ++ right⟩
  else ⟨path.text ++ "/" ++ right⟩

def joinAll (path : Path) (names : List String) : Path :=
  names.foldl join path

/-- The absolute path of a place. -/
def ofLocation (location : Location) : Path :=
  ⟨"/" ++ "/".intercalate location⟩

/-- One step of lexical reading; above the root there is only the root. -/
def lexicalStep (location : Location) (segment : String) : Location :=
  if isIdle segment then location
  else if segment = ".." then location.dropLast
  else location ++ [segment]

/-- Where an absolute path leads, read from its text alone. -/
def lexical (path : Path) : Location :=
  path.segments.foldl lexicalStep []

/-- The path without slashes and idle segments at its end. -/
def trimmed (path : Path) : Path :=
  match path.segments with
  | [] => path
  | first :: rest =>
    let kept := (rest.reverse.dropWhile isIdle).reverse
    if first = "" ∧ kept = [] then ⟨"/"⟩ else ⟨"/".intercalate (first :: kept)⟩

/-! ### Components -/

inductive Component where
  | root
  | here
  | up
  | name (text : String)
  deriving DecidableEq, Repr

/-- The component of a segment that does not stand at the front. -/
def Component.ofSegment? (segment : String) : Option Component :=
  if isIdle segment then none
  else if segment = ".." then some .up
  else some (.name segment)

/-- Idle segments count for nothing, except a dot that begins the path. -/
def components (path : Path) : List Component :=
  match path.segments with
  | [] => []
  | "" :: segments =>
    (if path.isAbsolute then [.root] else []) ++ segments.filterMap Component.ofSegment?
  | "." :: segments => .here :: segments.filterMap Component.ofSegment?
  | segments => segments.filterMap Component.ofSegment?

/-- The order of components: the root, then `.`, then `..`, then names by bytes. -/
def Component.key : Component → List Nat
  | root => [0]
  | here => [1]
  | up => [2]
  | name text => 3 :: (Text.bytes text).map UInt8.toNat

def orderKey (path : Path) : List (List Nat) :=
  path.components.map Component.key

/-- Paths compare by their components. -/
def compare (path other : Path) : Ordering :=
  compareOn orderKey path other

instance : Std.TransCmp compare :=
  inferInstanceAs (Std.TransCmp (compareOn orderKey))

end Path

end DependencyAudit
