/-!
Lines and cuts.  `lines` reads `\n` and `\r\n` as line ends and nothing else;
text after the last line end is a line of its own and keeps a carriage return
it ends in, while an empty rest is no line.
-/

namespace DependencyAudit.Text

/-- A line without the carriage return that belongs to its line end. -/
def dropReturn (line : List Char) : List Char :=
  if line.getLast? = some '\r' then line.dropLast else line

/-- The pieces between line feeds read as lines: a line feed ended each of them
but the last. -/
def linesOfPieces : List (List Char) → List (List Char)
  | [] => []
  | [last] => if last.isEmpty then [] else [last]
  | piece :: pieces => dropReturn piece :: linesOfPieces pieces

def lines (cs : List Char) : List (List Char) :=
  linesOfPieces (cs.splitOn '\n')

/-- Text before the first `sep` and text after it. -/
def cutAtFirst (sep : Char) : List Char → Option (List Char × List Char)
  | [] => none
  | c :: cs =>
    if c = sep then some ([], cs)
    else (cutAtFirst sep cs).map fun (before, after) => (c :: before, after)

/-- Text before the last `sep` and text after it. -/
def cutAtLast (sep : Char) (cs : List Char) : Option (List Char × List Char) :=
  (cutAtFirst sep cs.reverse).map fun (after, before) => (before.reverse, after.reverse)

theorem cutAtFirst_eq_some_iff {sep : Char} {cs before after : List Char} :
    cutAtFirst sep cs = some (before, after) ↔ cs = before ++ sep :: after ∧ sep ∉ before := by
  induction cs generalizing before after with
  | nil => simp [cutAtFirst]
  | cons c cs ih =>
    by_cases h : c = sep
    · subst h
      cases before with
      | nil => simp [cutAtFirst]
      | cons b before => simp +contextual [cutAtFirst]
    · cases before with
      | nil => simp [cutAtFirst, h]
      | cons b before =>
        simp only [cutAtFirst, if_neg h, Option.map_eq_some_iff, Prod.exists, Prod.mk.injEq,
          List.cons.injEq, List.cons_append, List.mem_cons, not_or]
        constructor
        · rintro ⟨x, y, hxy, ⟨rfl, rfl⟩, rfl⟩
          obtain ⟨rfl, hx⟩ := ih.1 hxy
          exact ⟨⟨rfl, rfl⟩, Ne.symm h, hx⟩
        · rintro ⟨⟨rfl, rfl⟩, -, hb⟩
          exact ⟨before, after, ih.2 ⟨rfl, hb⟩, ⟨rfl, rfl⟩, rfl⟩

theorem cutAtLast_eq_some_iff {sep : Char} {cs before after : List Char} :
    cutAtLast sep cs = some (before, after) ↔ cs = before ++ sep :: after ∧ sep ∉ after := by
  simp only [cutAtLast, Option.map_eq_some_iff, Prod.exists, cutAtFirst_eq_some_iff,
    Prod.mk.injEq]
  constructor
  · rintro ⟨a, b, ⟨h, ha⟩, rfl, rfl⟩
    refine ⟨?_, by simpa using ha⟩
    simpa using congrArg List.reverse h
  · rintro ⟨rfl, ha⟩
    exact ⟨after.reverse, before.reverse, ⟨by simp, by simpa using ha⟩, by simp, by simp⟩

end DependencyAudit.Text
