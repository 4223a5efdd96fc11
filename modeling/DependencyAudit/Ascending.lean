/-!
Strictly ascending lists as sets.  An element that compares equal to one
already present is not taken in, so the first spelling of a value is the one
that stays.  The order is part of the type and every operation keeps it.
-/

namespace DependencyAudit

/-- Distinct elements in the order of `cmp`. -/
structure Ascending {α : Type} (cmp : α → α → Ordering) where
  toList : List α
  ascends : toList.Pairwise (cmp · · = .lt)

namespace Ascending

variable {α : Type} {cmp : α → α → Ordering}

/-- Puts `x` at its place unless an equal element stands there. -/
def place (cmp : α → α → Ordering) (x : α) : List α → List α
  | [] => [x]
  | y :: ys =>
    match cmp x y with
    | .lt => x :: y :: ys
    | .eq => y :: ys
    | .gt => y :: place cmp x ys

theorem mem_of_mem_place {x a : α} {xs : List α} (h : a ∈ place cmp x xs) :
    a = x ∨ a ∈ xs := by
  induction xs with
  | nil => simpa [place] using h
  | cons y ys ih =>
    simp only [place] at h
    split at h
    · simpa using h
    · exact .inr h
    · rcases List.mem_cons.1 h with rfl | h
      · simp
      · rcases ih h with rfl | h <;> simp [*]

theorem mem_place_of_mem {x a : α} {xs : List α} (h : a ∈ xs) : a ∈ place cmp x xs := by
  induction xs with
  | nil => simp at h
  | cons y ys ih =>
    simp only [place]
    split
    · simp [h]
    · exact h
    · rcases List.mem_cons.1 h with rfl | h
      · simp
      · simp [ih h]

theorem pairwise_place [Std.TransCmp cmp] {x : α} {xs : List α}
    (h : xs.Pairwise (cmp · · = .lt)) : (place cmp x xs).Pairwise (cmp · · = .lt) := by
  induction xs with
  | nil => simp [place]
  | cons y ys ih =>
    obtain ⟨hy, hys⟩ := List.pairwise_cons.1 h
    simp only [place]
    split
    next hxy =>
      refine List.pairwise_cons.2 ⟨fun z hz => ?_, h⟩
      rcases List.mem_cons.1 hz with rfl | hz
      · exact hxy
      · exact Std.TransCmp.lt_trans hxy (hy z hz)
    next => exact h
    next hxy =>
      refine List.pairwise_cons.2 ⟨fun z hz => ?_, ih hys⟩
      rcases mem_of_mem_place hz with rfl | hz
      · exact Std.OrientedCmp.lt_of_gt hxy
      · exact hy z hz

def empty : Ascending cmp := ⟨[], .nil⟩

variable [Std.TransCmp cmp]

def insert (s : Ascending cmp) (x : α) : Ascending cmp :=
  ⟨place cmp x s.toList, pairwise_place s.ascends⟩

/-- Elements are taken in from left to right. -/
def insertAll (s : Ascending cmp) (xs : List α) : Ascending cmp :=
  xs.foldl insert s

def ofList (xs : List α) : Ascending cmp :=
  empty.insertAll xs

def union (s t : Ascending cmp) : Ascending cmp :=
  s.insertAll t.toList

end Ascending

end DependencyAudit
