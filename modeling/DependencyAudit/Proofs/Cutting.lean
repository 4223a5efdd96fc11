import Mathlib.Data.List.Basic
import Mathlib.Data.List.TakeWhile

/-!
How a reader cuts up a list, said without the functions that cut. A run is the
longest beginning with a property, so what follows it does not begin with the
property; the parts of a text are what stands between its separators. Each
relation holds of exactly one result, which is the one that the functions give.
-/

namespace DependencyAudit.Text

/-! ### Runs -/

/-- `front` is the longest beginning of `xs` in which all elements have the
property. -/
structure LongestRun {α : Type} (P : α → Prop) (xs front back : List α) : Prop where
  append : xs = front ++ back
  all : ∀ x ∈ front, P x
  stop : ∀ x ∈ back.head?, ¬ P x

variable {α : Type} {P : α → Prop} {p : α → Bool} {xs front back : List α}

theorem LongestRun.takeWhile_eq (hp : ∀ x, p x = true ↔ P x) (h : LongestRun P xs front back) :
    xs.takeWhile p = front := by
  obtain ⟨rfl, hall, hstop⟩ := h
  rw [List.takeWhile_append_of_pos fun x hx => (hp x).mpr (hall x hx)]
  cases back with
  | nil => simp
  | cons x back =>
      have hx : ¬ p x = true := fun hpx => hstop x rfl ((hp x).mp hpx)
      rw [List.takeWhile_cons_of_neg hx, List.append_nil]

theorem longestRun_takeWhile (hp : ∀ x, p x = true ↔ P x) (xs : List α) :
    LongestRun P xs (xs.takeWhile p) (xs.dropWhile p) where
  append := List.takeWhile_append_dropWhile.symm
  all x hx := (hp x).mp (List.mem_takeWhile_imp hx)
  stop x hx hPx := by
    have hnot := List.head?_dropWhile_not p xs
    rw [Option.mem_def.mp hx] at hnot
    simp [(hp x).mpr hPx] at hnot

theorem longestRun_iff (hp : ∀ x, p x = true ↔ P x) :
    LongestRun P xs front back ↔ xs.takeWhile p = front ∧ xs.dropWhile p = back := by
  refine ⟨fun h => ?_, fun h => ?_⟩
  · have hfront := h.takeWhile_eq hp
    refine ⟨hfront, ?_⟩
    have happend := h.append
    rw [← List.takeWhile_append_dropWhile (p := p) (l := xs), hfront] at happend
    exact List.append_cancel_left happend
  · obtain ⟨rfl, rfl⟩ := h
    exact longestRun_takeWhile hp xs

/-! ### Parts -/

/-- The parts of a text between its separators, of which there is at least one. -/
inductive SplitBy (sep : Char) : List Char → List (List Char) → Prop
  | last {part : List Char} (free : sep ∉ part) : SplitBy sep part [part]
  | cons {part rest : List Char} {parts : List (List Char)} (free : sep ∉ part)
      (others : SplitBy sep rest parts) : SplitBy sep (part ++ sep :: rest) (part :: parts)

theorem splitBy_splitOn (sep : Char) (cs : List Char) : SplitBy sep cs (cs.splitOn sep) := by
  -- what stands behind the first separator is shorter than the text
  induction hlength : cs.length using Nat.strong_induction_on generalizing cs with
  | _ n ih =>
      by_cases hmem : sep ∈ cs
      · obtain ⟨part, rest, rfl, hpart⟩ := List.eq_append_cons_of_mem hmem
        have hshorter : rest.length < n := by
          rw [List.length_append, List.length_cons] at hlength
          omega
        rw [List.splitOn_append_cons_self_of_not_mem hpart]
        exact .cons hpart (ih _ hshorter rest rfl)
      · rw [List.splitOn_eq_singleton hmem]
        exact .last hmem

theorem splitOn_eq_iff {sep : Char} {cs : List Char} {parts : List (List Char)} :
    cs.splitOn sep = parts ↔ SplitBy sep cs parts := by
  refine ⟨fun h => h ▸ splitBy_splitOn sep cs, fun h => ?_⟩
  induction h with
  | last hfree => exact List.splitOn_eq_singleton hfree
  | cons hfree _ ih => rw [List.splitOn_append_cons_self_of_not_mem hfree, ih]

theorem SplitBy.not_mem {sep : Char} {cs : List Char} {parts : List (List Char)}
    (h : SplitBy sep cs parts) : ∀ part ∈ parts, sep ∉ part := by
  induction h with
  | last free => simpa using free
  | cons free _ ih => simpa using ⟨free, ih⟩

end DependencyAudit.Text
