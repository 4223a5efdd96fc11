import DependencyAudit.Text.Blank
import DependencyAudit.Text.Lines

/-!
Texts as rows. A text is written by putting a line end behind each row, of
either kind and with the last one left out if one likes; reading the lines of
the text gives the rows back, up to the carriage returns in which a row itself
may end.
-/

namespace DependencyAudit.Text

/-! ### The lines of a text -/

theorem linesOfPieces_cons {piece : List Char} {pieces : List (List Char)} (h : pieces ≠ []) :
    linesOfPieces (piece :: pieces) = dropReturn piece :: linesOfPieces pieces := by
  cases pieces with
  | nil => exact absurd rfl h
  | cons => rfl

theorem lines_eq_singleton {line : List Char} (hline : '\n' ∉ line) (hne : line ≠ []) :
    lines line = [line] := by
  rw [lines, List.splitOn_eq_singleton hline]
  simp [linesOfPieces, hne]

theorem lines_row_append {row : List Char} (hrow : '\n' ∉ row) (rest : List Char) :
    lines (row ++ '\n' :: rest) = dropReturn row :: lines rest := by
  rw [lines, List.splitOn_append_cons_self_of_not_mem hrow,
    linesOfPieces_cons (List.splitOn_ne_nil _ _)]
  rfl

/-! ### Rows -/

/-- What can end a line. -/
inductive LineEnd where
  | feed
  | returnFeed
  deriving DecidableEq, Repr

def LineEnd.chars : LineEnd → List Char
  | feed => ['\n']
  | returnFeed => ['\r', '\n']

/-- The text is that of the rows, with a line end of either kind behind each of
them; the last row can do without if it is not empty. -/
inductive Written : List (List Char) → List Char → Prop
  | nil : Written [] []
  | last {row : List Char} (nonempty : row ≠ []) : Written [row] row
  | row {row text : List Char} {rows : List (List Char)} (lineEnd : LineEnd)
      (rest : Written rows text) : Written (row :: rows) (row ++ lineEnd.chars ++ text)

/-- The text of the rows, with the same line end behind each of them. -/
def textOf (lineEnd : LineEnd) (rows : List String) : String :=
  String.join (rows.map (· ++ String.ofList lineEnd.chars))

theorem written_textOf (lineEnd : LineEnd) (rows : List String) :
    Written (rows.map String.toList) (textOf lineEnd rows).toList := by
  induction rows with
  | nil => exact .nil
  | cons row rows ih => simpa [textOf] using Written.row lineEnd ih

/-- A text begins like its first row, or with the line end if that row is empty. -/
theorem Written.head?_mem {row text : List Char} {rows : List (List Char)}
    (h : Written (row :: rows) text) {c : Char} (hc : c ∈ text.head?) :
    c ∈ row.head? ∨ c = '\n' ∨ c = '\r' := by
  cases h with
  | last => exact .inl hc
  | @row row text rows lineEnd _ =>
      cases row with
      | cons d row => exact .inl hc
      | nil =>
          right
          cases lineEnd with
          | feed => exact .inl (Option.mem_some_iff.mp hc).symm
          | returnFeed => exact .inr (Option.mem_some_iff.mp hc).symm

theorem dropReturn_concat (row : List Char) : dropReturn (row ++ ['\r']) = row := by
  simp [dropReturn]

/-- The first line of a text is its first row, less a carriage return that the
row itself may end in. -/
theorem exists_lines_row {row : List Char} (hrow : '\n' ∉ row) (lineEnd : LineEnd)
    (text : List Char) :
    ∃ line, lines (row ++ lineEnd.chars ++ text) = line :: lines text ∧
      (line = row ∨ line = dropReturn row) := by
  cases lineEnd with
  | feed =>
      refine ⟨dropReturn row, ?_, .inr rfl⟩
      rw [List.append_assoc]
      exact lines_row_append hrow text
  | returnFeed =>
      have hreturn : '\n' ∉ row ++ ['\r'] := by simp [hrow]
      refine ⟨row, ?_, .inl rfl⟩
      have hlines := lines_row_append hreturn text
      rw [dropReturn_concat] at hlines
      simpa [LineEnd.chars] using hlines

/-- Whatever does not depend on a carriage return at the end of a row can be
read off the lines. -/
theorem Written.map_lines {α : Type} {f : List Char → α} (hf : ∀ row, f (dropReturn row) = f row)
    {rows : List (List Char)} {text : List Char} (h : Written rows text)
    (hrows : ∀ row ∈ rows, '\n' ∉ row) : (lines text).map f = rows.map f := by
  induction h with
  | nil => rfl
  | last nonempty => rw [lines_eq_singleton (hrows _ (by simp)) nonempty]
  | @row row text rows lineEnd _ ih =>
      have hrest : ∀ row ∈ rows, '\n' ∉ row := fun row hmem => hrows row (by simp [hmem])
      obtain ⟨line, hlines, hline⟩ := exists_lines_row (hrows row (by simp)) lineEnd text
      have hfirst : f line = f row := by
        rcases hline with rfl | rfl
        · rfl
        · exact hf row
      rw [hlines, List.map_cons, List.map_cons, hfirst, ih hrest]

end DependencyAudit.Text
