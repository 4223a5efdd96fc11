import DependencyAudit.Proofs.HeaderGrammar
import DependencyAudit.Proofs.Rows
import DependencyAudit.Proofs.Trimming

/-!
What stands below a header. A block ends at the first row behind its blank rows that is
no comment, so a row of the body ends every block that reaches it, and no block begins
behind it. Where the header itself ends does not matter: between line feeds it has the
rows of its lines and perhaps one more, which is blank and belongs to no block.
-/

namespace DependencyAudit.Header

open DependencyAudit.Text

variable {row : List Char} {front back : List (List Char)}

/-! ### Leading comments -/

/-- The comments that stand first among the rows, blank rows apart. -/
def leadingComments (rows : List (List Char)) : List (List Char) :=
  (rows.dropWhile (·.isEmpty)).takeWhile isComment

/-- The row is not blank and no comment. -/
def EndsBlock (row : List Char) : Prop :=
  trim row ≠ [] ∧ ¬ IsComment (trim row)

theorem takeWhile_append_cons {α : Type} {p : α → Bool} {x : α} (h : p x = false)
    (xs ys : List α) : (xs ++ x :: ys).takeWhile p = xs.takeWhile p := by
  rw [List.takeWhile_append, List.takeWhile_cons_of_neg (by simp [h]), List.append_nil]
  split
  next hlength => exact ((List.takeWhile_prefix p).eq_of_length hlength).symm
  next => rfl

/-- A row that is no comment ends the leading comments, unless they have not begun; then
they are those of the rows from there on. -/
theorem leadingComments_append (hrow : isComment row = false)
    (hback : leadingComments (row :: back) = []) :
    leadingComments (front ++ row :: back) = leadingComments front := by
  rw [leadingComments, List.dropWhile_append]
  split
  next hblank =>
    rw [leadingComments, List.isEmpty_iff.mp hblank]
    exact hback
  next => exact takeWhile_append_cons hrow _ back

theorem leadingComments_append_blank (rows : List (List Char)) :
    leadingComments (rows ++ [[]]) = leadingComments rows :=
  leadingComments_append rfl rfl

theorem leadingComments_append_body (h : EndsBlock row) :
    leadingComments (front ++ trim row :: back) = leadingComments front := by
  obtain ⟨hblank, hcomment⟩ := h
  have hrow : isComment (trim row) = false := by
    rwa [← isComment_iff, Bool.not_eq_true] at hcomment
  refine leadingComments_append hrow ?_
  rw [leadingComments, List.dropWhile_cons_of_neg (by simpa using hblank),
    List.takeWhile_cons_of_neg (by simp [hrow])]

/-! ### Rows between line feeds -/

theorem map_trim_pieces (pieces : List (List Char)) :
    pieces.map trim = (linesOfPieces pieces).map trim ∨
      pieces.map trim = (linesOfPieces pieces).map trim ++ [[]] := by
  induction pieces with
  | nil => exact .inl rfl
  | cons piece pieces ih =>
      by_cases hpieces : pieces = []
      · subst hpieces
        cases piece with
        | nil => exact .inr rfl
        | cons c piece => exact .inl rfl
      · rw [linesOfPieces_cons hpieces, List.map_cons, List.map_cons, trim_dropReturn]
        exact ih.imp (congrArg _) (congrArg _)

theorem commentBlock_eq_splitOn (text : List Char) :
    commentBlock text = (leadingComments
      (((text.dropWhile (· = '\uFEFF')).splitOn '\n').map trim)).map commentBody := by
  rw [commentBlock, lines]
  rcases map_trim_pieces ((text.dropWhile (· = '\uFEFF')).splitOn '\n') with h | h
  · rw [h]
    rfl
  · rw [h, leadingComments_append_blank]
    rfl

theorem dropWhile_mark_append_newline (text more : List Char) :
    (text ++ '\n' :: more).dropWhile (· = '\uFEFF') =
      text.dropWhile (· = '\uFEFF') ++ '\n' :: more := by
  rw [List.dropWhile_append]
  split
  next hmarks =>
    rw [List.dropWhile_cons_of_neg (by decide), List.isEmpty_iff.mp hmarks, List.nil_append]
  next => rfl

theorem commentBlock_append_body {text : List Char} (hline : '\n' ∉ row) (hends : EndsBlock row)
    (rest : List Char) :
    commentBlock (text ++ '\n' :: (row ++ '\n' :: rest)) = commentBlock text := by
  rw [commentBlock_eq_splitOn, commentBlock_eq_splitOn, dropWhile_mark_append_newline,
    List.splitOn_append_cons_self, List.splitOn_append_cons_self_of_not_mem hline,
    List.map_append, List.map_cons, leadingComments_append_body hends]

/-- Whatever has been read of a header, be it the header itself or the stage that failed,
a row that is neither blank nor a comment and everything behind it changes nothing. -/
theorem ofText_append_body (header : String) {row : String} (hline : '\n' ∉ row.toList)
    (hends : EndsBlock row.toList) (rest : String) :
    ofText (header ++ "\n" ++ row ++ "\n" ++ rest) = ofText header := by
  have htext : (header ++ "\n" ++ row ++ "\n" ++ rest).toList =
      header.toList ++ '\n' :: (row.toList ++ '\n' :: rest.toList) := by simp
  rw [ofText, htext, commentBlock_append_body hline hends]
  rfl

/-- A header that is cut off within its projects, a directive behind it, and the rest of
the header below. -/
theorem ofText_append_body_cut_off :
    let header := "\uFEFF\n// Type definitions for b 1\n// Project: p,\n// q\r"
    let directive := " /// <reference types=\"c\" />"
    let rest := "// Definitions by: A\n// Definitions: d"
    '\n' ∉ directive.toList ∧ EndsBlock directive.toList ∧
      ofText header = .error (.missingField .definitionsBy) ∧
      ofText (header ++ "\n" ++ directive ++ "\n" ++ rest) =
        .error (.missingField .definitionsBy) := by
  intro header directive rest
  have hline : '\n' ∉ directive.toList := by decide
  have hends : EndsBlock directive.toList := ⟨by decide, fun h => h.2 (by decide)⟩
  have hheader : ofText header = .error (.missingField .definitionsBy) := by decide +kernel
  exact ⟨hline, hends, hheader, (ofText_append_body header hline hends rest).trans hheader⟩

end DependencyAudit.Header
