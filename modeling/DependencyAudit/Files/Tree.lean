import DependencyAudit.Files.Path

/-!
A file tree as the view that a program has of it: what stands at each place, and
the finitely many places at which anything stands.  The root is a directory,
whatever has an entry lies in a directory, and every name is one that a path can
spell; with these three facts in the type, no operation has to ask for them.

`step` follows a path one name at a time and leaves a place only if it is a
directory, so a missing name and a file in the way are told apart.
-/

namespace DependencyAudit

inductive Entry where
  | directory
  | file (content : ByteArray)

instance : DecidableEq Entry
  | .directory, .directory => .isTrue rfl
  | .directory, .file _ => .isFalse nofun
  | .file _, .directory => .isFalse nofun
  | .file content, .file other =>
    if h : content.data = other.data then .isTrue (congrArg Entry.file (ByteArray.ext h))
    else .isFalse fun he => h (congrArg ByteArray.data (Entry.file.inj he))

/-- A name that stands for itself in a path. -/
def isFileName (name : String) : Bool :=
  !Path.isIdle name && name != ".." && !name.toList.contains '/'

/-- Why a file cannot be read. -/
inductive ReadError where
  | notFound
  | notDirectory
  | isDirectory
  | notText
  deriving DecidableEq, Repr

def ReadError.message : ReadError → String
  | notFound => "No such file or directory (os error 2)"
  | notDirectory => "Not a directory (os error 20)"
  | isDirectory => "Is a directory (os error 21)"
  | notText => "stream did not contain valid UTF-8"

/-- What a failure to read a file is reported as. -/
def ReadError.report (error : ReadError) (path : Path) : String :=
  "Failed to read " ++ path.text ++ ": " ++ error.message

structure FileTree where
  entryAt : Location → Option Entry
  /-- Every place that has an entry, and perhaps others. -/
  places : List Location
  root : entryAt [] = some .directory
  complete : ∀ location, entryAt location ≠ none → location ∈ places
  closed : ∀ location name, entryAt (location ++ [name]) ≠ none →
    entryAt location = some .directory
  named : ∀ location, entryAt location ≠ none → ∀ name ∈ location, isFileName name = true

namespace FileTree

/-- A tree that has nothing but its root. -/
def empty : FileTree where
  entryAt location := if location = [] then some .directory else none
  places := [[]]
  root := rfl
  complete := by simp
  closed := by simp
  named := by
    intro location h
    have : location = [] := by simpa using h
    simp [this]

def isFileAt (tree : FileTree) (location : Location) : Bool :=
  match tree.entryAt location with
  | some (.file _) => true
  | _ => false

/-! ### Following paths -/

/-- One step along a path.  Only a directory can be left or stayed in. -/
def step (tree : FileTree) (location : Location) (segment : String) :
    Except ReadError Location :=
  if tree.entryAt location ≠ some .directory then .error .notDirectory
  else if Path.isIdle segment then .ok location
  else if segment = ".." then .ok location.dropLast
  else if (tree.entryAt (location ++ [segment])).isSome then .ok (location ++ [segment])
  else .error .notFound

/-- The place that a path leads to; a relative path starts at `start`.  The empty
path leads nowhere, not even to its start. -/
def locateFrom (tree : FileTree) (start : Location) (path : Path) :
    Except ReadError Location :=
  if path.text = "" then .error .notFound
  else path.segments.foldlM tree.step (path.origin start)

/-- The place that an absolute path leads to. -/
abbrev locate (tree : FileTree) (path : Path) : Except ReadError Location :=
  tree.locateFrom [] path

/-! What is looked at or read by its path.  An absolute path is the same in every
working directory, so none needs to be given for it. -/

def isFile (tree : FileTree) (path : Path) (working : Location := []) : Bool :=
  match tree.locateFrom working path with
  | .ok location => tree.isFileAt location
  | .error _ => false

def isDirectory (tree : FileTree) (path : Path) (working : Location := []) : Bool :=
  match tree.locateFrom working path with
  | .ok location => tree.entryAt location = some .directory
  | .error _ => false

/-- The text of a file. -/
def readText (tree : FileTree) (path : Path) (working : Location := []) :
    Except ReadError String :=
  match tree.locateFrom working path with
  | .error e => .error e
  | .ok location =>
    match tree.entryAt location with
    | none => .error .notFound
    | some .directory => .error .isDirectory
    | some (.file content) =>
      match String.fromUTF8? content with
      | some text => .ok text
      | none => .error .notText

/-- The files at or below a place, by the names on the way to them. -/
def filesBelow (tree : FileTree) (location : Location) : List Location :=
  (tree.places.filter tree.isFileAt).filterMap location.isPrefixOf?

/-! ### Changing a tree -/

/-- Puts an entry into a directory, over a file of the same name if there is one.
A directory is never replaced by a file, since it may hold something. -/
def insert? (tree : FileTree) (location : Location) (name : String) (entry : Entry) :
    Option FileTree :=
  if h : isFileName name = true ∧ tree.entryAt location = some .directory ∧
      (tree.entryAt (location ++ [name]) = some .directory → entry = .directory) then
    some {
      entryAt := fun place =>
        if place = location ++ [name] then some entry else tree.entryAt place
      places := (location ++ [name]) :: tree.places
      root := by simpa using tree.root
      complete := by
        intro place hplace
        by_cases hnew : place = location ++ [name]
        · simp [hnew]
        · rw [if_neg hnew] at hplace
          exact List.mem_cons_of_mem _ (tree.complete place hplace)
      closed := by
        obtain ⟨-, inside, keeps⟩ := h
        intro place n hplace
        have parent : tree.entryAt place = some .directory := by
          by_cases hnew : place ++ [n] = location ++ [name]
          · rw [(List.append_inj' hnew rfl).1]
            exact inside
          · rw [if_neg hnew] at hplace
            exact tree.closed place n hplace
        by_cases hnew : place = location ++ [name]
        · rw [if_pos hnew, keeps (hnew ▸ parent)]
        · rw [if_neg hnew]
          exact parent
      named := by
        obtain ⟨hname, inside, -⟩ := h
        intro place hplace n hn
        by_cases hnew : place = location ++ [name]
        · subst hnew
          rcases List.mem_append.1 hn with hn | hn
          · exact tree.named location (by simp [inside]) n hn
          · rw [List.mem_singleton.1 hn]
            exact hname
        · rw [if_neg hnew] at hplace
          exact tree.named place hplace n hn }
  else none

/-- Follows segments from a place and makes each directory that is missing on
the way; the place is the one that they lead to. -/
def makeWay? (tree : FileTree) (location : Location) :
    List String → Option (FileTree × Location)
  | [] => some (tree, location)
  | segment :: segments =>
    if Path.isIdle segment then tree.makeWay? location segments
    else if segment = ".." then tree.makeWay? location.dropLast segments
    else
      match tree.entryAt (location ++ [segment]) with
      | some .directory => tree.makeWay? (location ++ [segment]) segments
      | some (.file _) => none
      | none =>
        match tree.insert? location segment .directory with
        | some tree => tree.makeWay? (location ++ [segment]) segments
        | none => none

/-- Makes the directory of an absolute path. -/
def makeDirectory? (tree : FileTree) (path : Path) : Option FileTree :=
  (tree.makeWay? [] path.segments).map Prod.fst

/-- Writes the file of an absolute path, in a directory that is made if it is
missing. -/
def writeFile? (tree : FileTree) (path : Path) (content : ByteArray) : Option FileTree :=
  match path.segments.getLast?, tree.makeWay? [] path.segments.dropLast with
  | some name, some (tree, location) => tree.insert? location name (.file content)
  | _, _ => none

/-- Takes away a place and all below it; of the root, only what is below it. -/
def remove (tree : FileTree) (location : Location) : FileTree where
  entryAt place := if place ≠ [] ∧ location <+: place then none else tree.entryAt place
  places := tree.places
  root := by simpa using tree.root
  complete := by
    intro place h
    split at h
    · simp at h
    · exact tree.complete place h
  closed := by
    intro place name h
    split at h
    · simp at h
    next hout =>
      have hplace : ¬ (place ≠ [] ∧ location <+: place) := fun ⟨_, hp⟩ =>
        hout ⟨by simp, hp.trans (List.prefix_append _ _)⟩
      rw [if_neg hplace]
      exact tree.closed place name h
  named := by
    intro place h
    split at h
    · simp at h
    · exact tree.named place h

end FileTree

end DependencyAudit
