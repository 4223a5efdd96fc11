/-!
Text with styles for a terminal.  A style stretches over one span and is closed
before the next span begins; where the text of a span closes it early, it is
opened again.  Without colour only the words are left.
-/

namespace DependencyAudit

inductive Style where
  | yellow
  | boldYellow
  | green
  | boldGreen
  | dimmed
  | brightBlue
  | cyan
  | red
  deriving DecidableEq, Repr

/-- The selectors that open the style. -/
def Style.selectors : Style → String
  | yellow => "33"
  | boldYellow => "1;33"
  | green => "32"
  | boldGreen => "1;32"
  | dimmed => "2"
  | brightBlue => "94"
  | cyan => "36"
  | red => "31"

/-- The sequence that opens the style. -/
def Style.opening (style : Style) : List Char :=
  '\x1b' :: '[' :: style.selectors.toList ++ ['m']

/-- The sequence that closes every style. -/
def closing : List Char := ['\x1b', '[', '0', 'm']

/-- A text with `opening` behind each closing sequence in it. -/
def reopen (opening : List Char) : List Char → List Char
  | '\x1b' :: '[' :: '0' :: 'm' :: cs => closing ++ opening ++ reopen opening cs
  | c :: cs => c :: reopen opening cs
  | [] => []

structure Span where
  style : Option Style
  text : String
  deriving DecidableEq, Repr

namespace Span

def plain (text : String) : Span := ⟨none, text⟩

def styled (style : Style) (text : String) : Span := ⟨some style, text⟩

def render (colour : Bool) (span : Span) : String :=
  match colour, span.style with
  | true, some style =>
    String.ofList (style.opening ++ reopen style.opening span.text.toList ++ closing)
  | _, _ => span.text

end Span

/-- The spans of one line, without its line end. -/
abbrev StyledLine := List Span

namespace StyledLine

def render (colour : Bool) (line : StyledLine) : String :=
  String.join (line.map (Span.render colour))

/-- Lines one below the other, each with its line end. -/
def renderAll (colour : Bool) (lines : List StyledLine) : String :=
  String.join (lines.map fun line => render colour line ++ "\n")

end StyledLine

end DependencyAudit
