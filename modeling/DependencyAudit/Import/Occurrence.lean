import DependencyAudit.Import.Specifier

/-!
What it means for a form to occur in a line, said without searching.  A list of
pieces spells a text if the text can be cut into parts that the pieces allow;
an occurrence is a place in the line at which the lead-in is satisfied and a
spelling of the form follows.  Nothing here picks one occurrence over another.
-/

namespace DependencyAudit.Import

open DependencyAudit.Text

/-- The texts that a list of pieces allows. -/
inductive Spells : List Piece → List Char → Prop
  | nil : Spells [] []
  | text {chars cs : List Char} {pieces : List Piece} (rest : Spells pieces cs) :
      Spells (.text chars :: pieces) (chars ++ cs)
  | gap {blanks cs : List Char} {pieces : List Piece}
      (blank : ∀ c ∈ blanks, isBlank c = true) (rest : Spells pieces cs) :
      Spells (.gap :: pieces) (blanks ++ cs)
  | wideGap {blanks cs : List Char} {pieces : List Piece} (nonempty : blanks ≠ [])
      (blank : ∀ c ∈ blanks, isBlank c = true) (rest : Spells pieces cs) :
      Spells (.wideGap :: pieces) (blanks ++ cs)

/-- A request that a quote can enclose. -/
def Quote.Encloses (quote : Quote) (request : List Char) : Prop :=
  request ≠ [] ∧ quote.char ∉ request

/-- A text that is the form of a rule, with the given request and nothing more. -/
inductive Rule.Spells (rule : Rule) (request : List Char) : List Char → Prop
  | intro {front back : List Char} (before : Import.Spells rule.form.before front)
      (enclosed : rule.quote.Encloses request) (after : Import.Spells rule.form.after back) :
      Rule.Spells rule request
        (front ++ rule.quote.char :: request ++ rule.quote.char :: back)

/-- When a lead-in is satisfied between the text to the left and the text to the
right, of which `taken` is what it takes for itself. -/
inductive LeadIn.Admits : LeadIn → (left taken right : List Char) → Prop
  | boundary {left right : List Char}
      (edge : isBoundary left.getLast? right.head? = true) : Admits .boundary left [] right
  | start {right : List Char} (edge : isBoundary none right.head? = true) :
      Admits .undotted [] [] right
  | undotted {left right : List Char} {c : Char} (nodot : c ≠ '.')
      (edge : isBoundary (some c) right.head? = true) : Admits .undotted left [c] right
  | anywhere {left right : List Char} : Admits .anywhere left [] right

/-- The rule's form begins in the line behind `start` characters and encloses the
request. -/
def Rule.OccursAt (rule : Rule) (line : List Char) (start : Nat) (request : List Char) : Prop :=
  ∃ left taken form rest, line = left ++ taken ++ form ++ rest ∧ left.length = start ∧
    rule.form.lead.Admits left taken (form ++ rest) ∧ rule.Spells request form

end DependencyAudit.Import
