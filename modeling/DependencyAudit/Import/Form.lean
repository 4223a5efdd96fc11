/-!
The written forms in which source text names another module.  A form is a list
of pieces around one quoted request; the same list is read when a line is
searched and spelled out when the form is shown as a pattern.

No form needs a second attempt from the same start: a gap is followed by a
character that is not blank, and a request ends at the first closing quote, so
every piece can take as much as it can get.
-/

namespace DependencyAudit.Import

/-- The syntax that a request was written in. -/
inductive Kind where
  | require
  | requireEnsure
  | requireResolve
  | systemImport
  | importFrom
  | sideEffectImport
  | dynamicImport
  | referenceTypes
  deriving DecidableEq, Repr

inductive Quote where
  | single
  | double
  deriving DecidableEq, Repr

def Quote.char : Quote → Char
  | single => Char.ofNat 0x27
  | double => '"'

/-- One part of a form: fixed text, or room for blank characters. -/
inductive Piece where
  | text (chars : List Char)
  | gap
  | wideGap
  deriving DecidableEq, Repr

/-- What has to stand where a form begins. -/
inductive LeadIn where
  /-- A word boundary. -/
  | boundary
  /-- The start of the line or one character other than a dot, and then a word
  boundary; the character is part of the occurrence. -/
  | undotted
  /-- Anything. -/
  | anywhere
  deriving DecidableEq, Repr

/-- A request in quotes with the pieces on both of its sides. -/
structure Form where
  lead : LeadIn
  before : List Piece
  after : List Piece
  deriving DecidableEq, Repr

/-- The forms that call a function on the request. -/
def callForm (callee : String) : Form where
  lead := .boundary
  before := [.text callee.toList, .gap, .text ['('], .gap]
  after := [.gap, .text [')']]

def Kind.form : Kind → Form
  | require => callForm "require"
  | requireEnsure => callForm "require.ensure"
  | requireResolve => callForm "require.resolve"
  | systemImport => callForm "System.import"
  | importFrom => ⟨.boundary, [.text "from".toList, .gap], []⟩
  | sideEffectImport => ⟨.boundary, [.text "import".toList, .gap], [.gap, .text [';']]⟩
  | dynamicImport => ⟨.undotted, [.text "import(".toList], [.text [')']]⟩
  | referenceTypes =>
    ⟨.anywhere,
      [.text "///".toList, .gap, .text ['<'], .gap, .text "reference".toList, .wideGap,
        .text "types".toList, .gap, .text ['='], .gap],
      [.gap, .text "/>".toList]⟩

/-- A form with its kind of quote; a rule answers at most once for each line. -/
structure Rule where
  kind : Kind
  quote : Quote
  deriving DecidableEq, Repr

def Rule.form (rule : Rule) : Form :=
  rule.kind.form

def kinds : List Kind :=
  [.require, .requireEnsure, .requireResolve, .systemImport, .importFrom,
   .sideEffectImport, .dynamicImport, .referenceTypes]

/-- All rules in the order in which they answer. -/
def rules : List Rule :=
  kinds.flatMap fun kind => [⟨kind, .single⟩, ⟨kind, .double⟩]

/-! ### Forms as patterns -/

/-- A character in pattern notation; those with a meaning there are escaped. -/
def patternChar (c : Char) : List Char :=
  if c = '.' ∨ c = '(' ∨ c = ')' then ['\\', c] else [c]

def Piece.pattern : Piece → List Char
  | text chars => chars.flatMap patternChar
  | gap => ['\\', 's', '*']
  | wideGap => ['\\', 's', '+']

def LeadIn.pattern : LeadIn → List Char
  | boundary => ['\\', 'b']
  | undotted => "(?:^|[^.])\\b".toList
  | anywhere => []

/-- One or more characters other than the quote, between two quotes. -/
def Quote.pattern (quote : Quote) : List Char :=
  let q := quote.char
  [q, '(', '[', '^', q, ']', '+', ')', q]

def Rule.pattern (rule : Rule) : String :=
  String.ofList <|
    rule.form.lead.pattern ++ rule.form.before.flatMap Piece.pattern ++
      rule.quote.pattern ++ rule.form.after.flatMap Piece.pattern

end DependencyAudit.Import
