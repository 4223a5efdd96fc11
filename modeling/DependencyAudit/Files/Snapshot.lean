import DependencyAudit.Files.Tree
import Std.Data.HashMap

/-!
File trees from entries gathered one by one.  Nothing is known of the entries in
advance, so the facts that a file tree promises are checked once, and a look-up
in the finished tree is a look-up in the map.
-/

namespace DependencyAudit.FileTree

/-- What a map of entries has at a place. -/
def viewOf (entries : Std.HashMap Location Entry) (location : Location) : Option Entry :=
  if location = [] then some .directory else entries[location]?

/-- Whether a place has a name that a path can spell and lies in a directory. -/
def isSound (entries : Std.HashMap Location Entry) (location : Location) : Bool :=
  location.all isFileName && viewOf entries location.dropLast = some .directory

theorem mem_keys_of_viewOf {entries : Std.HashMap Location Entry} {location : Location}
    (hne : location ≠ []) (h : viewOf entries location ≠ none) : location ∈ entries.keys := by
  rw [viewOf, if_neg hne] at h
  rw [Std.HashMap.mem_keys, Std.HashMap.mem_iff_isSome_getElem?]
  exact Option.isSome_iff_ne_none.2 h

/-- The tree of a map of entries, unless one of them is out of place. -/
def ofEntries? (entries : Std.HashMap Location Entry) : Option FileTree :=
  if h : ∀ location ∈ entries.keys, isSound entries location = true then
    some {
      entryAt := viewOf entries
      places := [] :: entries.keys
      root := rfl
      complete := by
        intro location hview
        by_cases hl : location = []
        · simp [hl]
        · exact List.mem_cons_of_mem _ (mem_keys_of_viewOf hl hview)
      closed := by
        intro location name hview
        have := h _ (mem_keys_of_viewOf (by simp) hview)
        simp only [isSound, List.dropLast_concat, Bool.and_eq_true, decide_eq_true_eq] at this
        exact this.2
      named := by
        intro location hview name hname
        have := h _ (mem_keys_of_viewOf (List.ne_nil_of_mem hname) hview)
        simp only [isSound, Bool.and_eq_true, List.all_eq_true] at this
        exact this.1 name hname }
  else none

end DependencyAudit.FileTree
