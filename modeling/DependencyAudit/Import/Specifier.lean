import DependencyAudit.Import.Form
import DependencyAudit.Text.Blank
import DependencyAudit.Text.Lines
import DependencyAudit.Text.WordChar

/-!
Finding requests in source text.  A line is searched once for each rule, from
its start to its end, and the first occurrence gives the rule's request.  Lines
are searched one by one, so no occurrence crosses a line end.
-/

namespace DependencyAudit.Import

open DependencyAudit.Text

/-! ### Reading one occurrence -/

/-- What is left behind a piece at the front of the text. -/
def Piece.read? : Piece → List Char → Option (List Char)
  | text chars, cs => chars.isPrefixOf? cs
  | gap, cs => some (cs.dropWhile isBlank)
  | wideGap, cs =>
    match cs with
    | c :: cs => if isBlank c then some (cs.dropWhile isBlank) else none
    | [] => none

def readPieces? : List Piece → List Char → Option (List Char)
  | [], cs => some cs
  | piece :: pieces, cs => (piece.read? cs).bind (readPieces? pieces)

/-- The request between two quotes and what is left behind the second. -/
def Quote.read? (quote : Quote) : List Char → Option (List Char × List Char)
  | [] => none
  | c :: cs =>
    if c = quote.char then
      match cutAtFirst quote.char cs with
      | some (r :: request, rest) => some (r :: request, rest)
      | _ => none
    else none

/-- The request of a form that stands at the front of the text, lead-in apart. -/
def Rule.requestOf? (rule : Rule) (cs : List Char) : Option (List Char) := do
  let cs ← readPieces? rule.form.before cs
  let (request, cs) ← rule.quote.read? cs
  let _ ← readPieces? rule.form.after cs
  return request

/-- The request of an occurrence that begins here; `before` is the character to
the left, if there is one. -/
def Rule.readAt? (rule : Rule) (before : Option Char) (cs : List Char) : Option (List Char) :=
  match rule.form.lead with
  | .anywhere => rule.requestOf? cs
  | .boundary => if isBoundary before cs.head? then rule.requestOf? cs else none
  | .undotted =>
    let atStart :=
      if before = none ∧ isBoundary none cs.head? then rule.requestOf? cs else none
    atStart.or <|
      match cs with
      | [] => none
      | c :: cs =>
        if c ≠ '.' ∧ isBoundary (some c) cs.head? then rule.requestOf? cs else none

/-- The request of the first occurrence in the text. -/
def Rule.search? (rule : Rule) (before : Option Char) : List Char → Option (List Char)
  | [] => rule.readAt? before []
  | c :: cs => (rule.readAt? before (c :: cs)).or (rule.search? (some c) cs)

/-! ### Specifiers of a line and of a text -/

/-- A request together with the syntax it was written in. -/
structure Specifier where
  kind : Kind
  request : String
  deriving DecidableEq, Repr

/-- The specifiers of one line, in the order of the rules. -/
def specifiersInChars (line : List Char) : List Specifier :=
  rules.filterMap fun rule =>
    (rule.search? none line).map fun request => ⟨rule.kind, String.ofList request⟩

def specifiersInLine (line : String) : List Specifier :=
  specifiersInChars line.toList

/-- The specifiers of all lines of a source text, from top to bottom. -/
def specifiersInText (text : String) : List Specifier :=
  (lines text.toList).flatMap specifiersInChars

end DependencyAudit.Import
