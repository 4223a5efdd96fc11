import DependencyAudit.Proofs.Appending
import DependencyAudit.Proofs.Cutting
import DependencyAudit.Proofs.Rows

/-!
Line ends, and what is found between them. The lines of a text differ from its
pieces between line feeds in two ways: a piece with a line feed behind it loses a
carriage return at its end, and an empty last piece is no line. Neither can be seen
in what is found, since no form ends in a blank and nothing is found in an empty
line. So a text may be cut at any line feed, whatever stands in front of it, and it
does not matter how its line ends are written. A text that grows at its end, in the
middle of a line or behind it, loses nothing, because its lines lose nothing.
-/

namespace DependencyAudit

/-! ### Line ends with a carriage return -/

namespace Text

/-- The text with `\r\n` in place of each `\n`. -/
def withReturns (text : List Char) : List Char :=
  text.flatMap fun c => if c = '\n' then LineEnd.returnFeed.chars else [c]

theorem withReturns_eq_self {text : List Char} (h : '\n' ∉ text) : withReturns text = text := by
  have hsame : ∀ c ∈ text, (if c = '\n' then LineEnd.returnFeed.chars else [c]) = [c] := by
    intro c hc
    rw [if_neg]
    rintro rfl
    exact h hc
  rw [withReturns, List.flatMap_congr hsame]
  exact List.flatMap_singleton' text

theorem withReturns_append_newline {row : List Char} (h : '\n' ∉ row) (rest : List Char) :
    withReturns (row ++ '\n' :: rest) = row ++ ['\r'] ++ '\n' :: withReturns rest := by
  have hrow := withReturns_eq_self h
  rw [withReturns] at hrow
  rw [withReturns, List.flatMap_append, hrow, List.flatMap_cons, if_pos rfl]
  simp [withReturns, LineEnd.chars]

end Text

/-! ### Specifiers between line feeds -/

namespace Import

open Text

theorem flatMap_linesOfPieces (pieces : List (List Char)) :
    (linesOfPieces pieces).flatMap specifiersInChars = pieces.flatMap specifiersInChars := by
  induction pieces with
  | nil => rfl
  | cons piece pieces ih =>
      by_cases hpieces : pieces = []
      · subst hpieces
        cases piece with
        | nil => decide
        | cons c piece => rfl
      · rw [linesOfPieces_cons hpieces, List.flatMap_cons, List.flatMap_cons,
          specifiersInChars_dropReturn, ih]

/-- The specifiers of a text are those of its pieces between line feeds. -/
theorem specifiersInText_eq_flatMap (text : String) :
    specifiersInText text = (text.toList.splitOn '\n').flatMap specifiersInChars :=
  flatMap_linesOfPieces _

theorem specifiersInText_append_newline (first rest : String) :
    specifiersInText (first ++ "\n" ++ rest) =
      specifiersInText first ++ specifiersInText rest := by
  have htext : (first ++ "\n" ++ rest).toList = first.toList ++ '\n' :: rest.toList := by simp
  simp only [specifiersInText_eq_flatMap]
  rw [htext, List.splitOn_append_cons_self, List.flatMap_append]

/-! ### Longer texts -/

theorem flatMap_splitOn_sublist_append (text more : List Char) :
    ((text.splitOn '\n').flatMap specifiersInChars).Sublist
      (((text ++ more).splitOn '\n').flatMap specifiersInChars) := by
  -- only the last line of the text can become longer
  have hparts := splitBy_splitOn '\n' text
  generalize text.splitOn '\n' = parts at hparts
  induction hparts with
  | @last row hrow =>
      rw [List.flatMap_singleton]
      by_cases hmem : '\n' ∈ more
      · obtain ⟨front, rest, rfl, hfront⟩ := List.eq_append_cons_of_mem hmem
        have hlonger : '\n' ∉ row ++ front := by simp [hrow, hfront]
        rw [← List.append_assoc, List.splitOn_append_cons_self_of_not_mem hlonger,
          List.flatMap_cons]
        exact (specifiersInChars_sublist_append row front).trans (List.sublist_append_left _ _)
      · have hlonger : '\n' ∉ row ++ more := by simp [hrow, hmem]
        rw [List.splitOn_eq_singleton hlonger, List.flatMap_singleton]
        exact specifiersInChars_sublist_append row more
  | @cons row rest rows hrow _ ih =>
      rw [List.append_assoc, List.cons_append, List.splitOn_append_cons_self_of_not_mem hrow,
        List.flatMap_cons, List.flatMap_cons]
      exact ih.append_left _

/-- Text that is appended takes no specifier away, also when it goes on with the last
line. -/
theorem specifiersInText_sublist_append (text more : String) :
    (specifiersInText text).Sublist (specifiersInText (text ++ more)) := by
  rw [specifiersInText_eq_flatMap, specifiersInText_eq_flatMap, String.toList_append]
  exact flatMap_splitOn_sublist_append _ _

/-! ### One line after the other -/

theorem flatMap_splitOn_withReturns (text : List Char) :
    ((withReturns text).splitOn '\n').flatMap specifiersInChars =
      (text.splitOn '\n').flatMap specifiersInChars := by
  -- line by line, each with the return that its own line end has got
  have hparts := splitBy_splitOn '\n' text
  generalize text.splitOn '\n' = parts at hparts
  induction hparts with
  | @last row hrow => rw [withReturns_eq_self hrow, List.splitOn_eq_singleton hrow]
  | @cons row rest rows hrow _ ih =>
      have hreturn : '\n' ∉ row ++ ['\r'] := by simp [hrow]
      have hfound : specifiersInChars (row ++ ['\r']) = specifiersInChars row := by
        rw [← specifiersInChars_dropReturn (row ++ ['\r']), dropReturn_concat]
      rw [withReturns_append_newline hrow, List.splitOn_append_cons_self_of_not_mem hreturn,
        List.flatMap_cons, hfound, ih, List.flatMap_cons]

theorem newline_not_mem_request {line : List Char} (hline : '\n' ∉ line) {specifier : Specifier}
    (h : specifier ∈ specifiersInChars line) : '\n' ∉ specifier.request.toList := by
  obtain ⟨rule, request, ⟨start, hoccurs, -⟩, rfl⟩ := mem_specifiersInChars.mp h
  rw [String.toList_ofList]
  exact fun hmem => hline (hoccurs.isInfix.subset hmem)

/-- A text can be cut at any line feed, its line ends can be written either way, and no
request reaches over one. -/
theorem specifiersInText_line_by_line :
    (∀ first rest : String, specifiersInText (first ++ "\n" ++ rest) =
        specifiersInText first ++ specifiersInText rest) ∧
      (∀ text : String, specifiersInText (String.ofList (withReturns text.toList)) =
        specifiersInText text) ∧
      ∀ text : String, ∀ specifier ∈ specifiersInText text,
        '\n' ∉ specifier.request.toList := by
  refine ⟨specifiersInText_append_newline, fun text => ?_, fun text specifier h => ?_⟩
  · simp only [specifiersInText_eq_flatMap]
    rw [String.toList_ofList, flatMap_splitOn_withReturns]
  · rw [specifiersInText_eq_flatMap] at h
    obtain ⟨line, hline, hmem⟩ := List.mem_flatMap.mp h
    exact newline_not_mem_request ((splitBy_splitOn '\n' text.toList).not_mem line hline) hmem

end Import

end DependencyAudit
