import DependencyAudit.Proofs.Cutting
import DependencyAudit.Report

/-!
What colour adds to a text. A coloured text is taken apart into the codes of a
terminal and the characters between them, without knowing which of them were meant as
codes. The characters of a report are those of the report without colour, each style
is closed before the next one opens and before its line ends, and in the styles stand
only the report's own words: the names are all outside of them, in full.
-/

namespace DependencyAudit

/-! ### Codes in a text -/

/-- What a terminal takes from a text: a code with its selectors, or a character. -/
inductive Token where
  | code (selectors : List Char)
  | char (c : Char)
  deriving DecidableEq, Repr

namespace Token

def isSelector (c : Char) : Bool := c.isDigit || c = ';'

/-- Reads a code off the front of a text. -/
def readCode? : List Char → Option (List Char × List Char)
  | '\x1b' :: '[' :: cs =>
    match cs.dropWhile isSelector with
    | 'm' :: rest => some (cs.takeWhile isSelector, rest)
    | _ => none
  | _ => none

theorem readCode?_eq_some_iff {cs selectors rest : List Char} :
    readCode? cs = some (selectors, rest) ↔
      cs = '\x1b' :: '[' :: (selectors ++ 'm' :: rest) ∧ ∀ c ∈ selectors, isSelector c = true := by
  constructor
  · intro h
    rw [readCode?.eq_def] at h
    split at h
    next cs =>
      split at h
      next rest' hrest =>
        obtain ⟨rfl, rfl⟩ := Prod.mk.inj (Option.some.inj h)
        refine ⟨?_, fun c hc => List.mem_takeWhile_imp hc⟩
        rw [← hrest, List.takeWhile_append_dropWhile]
      next => cases h
    next => cases h
  · rintro ⟨rfl, hall⟩
    have hrun : Text.LongestRun (isSelector · = true) (selectors ++ 'm' :: rest) selectors
        ('m' :: rest) := ⟨rfl, hall, by simp [isSelector]⟩
    obtain ⟨hfront, hback⟩ := (Text.longestRun_iff fun _ => Iff.rfl).mp hrun
    simp only [readCode?, hfront, hback]

theorem length_lt_of_readCode? {cs selectors rest : List Char}
    (h : readCode? cs = some (selectors, rest)) : rest.length < cs.length := by
  rw [(readCode?_eq_some_iff.mp h).1]
  simp only [List.length_cons, List.length_append]
  omega

/-- Takes a text apart; what is no code is a character. -/
def read : List Char → List Token
  | [] => []
  | c :: cs =>
    match h : readCode? (c :: cs) with
    | some (selectors, rest) =>
      have := length_lt_of_readCode? h
      .code selectors :: read rest
    | none => .char c :: read cs
  termination_by cs => cs.length
  decreasing_by
    · assumption
    · exact Nat.lt_succ_self _

def char? : Token → Option Char
  | code _ => none
  | char c => some c

theorem read_cons (c : Char) (cs : List Char) :
    read (c :: cs) =
      match readCode? (c :: cs) with
      | some (selectors, rest) => .code selectors :: read rest
      | none => .char c :: read cs := by
  rw [read]
  split <;> simp [*]

theorem read_code {selectors : List Char} (h : ∀ c ∈ selectors, isSelector c = true)
    (rest : List Char) :
    read ('\x1b' :: '[' :: (selectors ++ 'm' :: rest)) = .code selectors :: read rest := by
  rw [read_cons, readCode?_eq_some_iff.mpr ⟨rfl, h⟩]

theorem read_append {cs : List Char} (h : '\x1b' ∉ cs) (rest : List Char) :
    read (cs ++ rest) = cs.map .char ++ read rest := by
  induction cs with
  | nil => rfl
  | cons c cs ih =>
      simp only [List.mem_cons, not_or] at h
      have hcode : readCode? (c :: (cs ++ rest)) = none := by
        rw [readCode?]
        exact fun _ hcs => h.1 (List.cons.inj hcs).1.symm
      rw [List.cons_append, read_cons, hcode]
      simp only [ih h.2, List.map_cons, List.cons_append]

end Token

/-- A text without its codes. -/
def withoutCodes (text : String) : String :=
  String.ofList ((Token.read text.toList).filterMap Token.char?)

/-! ### Styles that are closed -/

/-- Each style that the tokens open is closed before another one opens and before its
line ends. `inside` are the texts that stand in the styles, one for each style, and
`outside` is the text that stands in none. -/
inductive Closes : List Token → List (List Char) → List Char → Prop
  | nil : Closes [] [] []
  | plain {c : Char} {tokens : List Token} {inside : List (List Char)} {outside : List Char}
      (rest : Closes tokens inside outside) :
      Closes (.char c :: tokens) inside (c :: outside)
  | styled {selectors body : List Char} {tokens : List Token} {inside : List (List Char)}
      {outside : List Char} (opens : selectors ≠ ['0']) (in_line : '\n' ∉ body)
      (rest : Closes tokens inside outside) :
      Closes (.code selectors :: (body.map .char ++ .code ['0'] :: tokens)) (body :: inside)
        outside

theorem Closes.append {tokens tokens' : List Token} {inside inside' : List (List Char)}
    {outside outside' : List Char} (h : Closes tokens inside outside)
    (h' : Closes tokens' inside' outside') :
    Closes (tokens ++ tokens') (inside ++ inside') (outside ++ outside') := by
  induction h with
  | nil => exact h'
  | plain _ ih => exact .plain ih
  | styled opens in_line _ ih => simpa using Closes.styled opens in_line ih

theorem closes_map_char (cs : List Char) : Closes (cs.map .char) [] cs := by
  induction cs with
  | nil => exact .nil
  | cons c cs ih => exact .plain ih

/-! ### Spans and lines in colour -/

namespace Span

def tokens (span : Span) : List Token :=
  match span.style with
  | none => span.text.toList.map .char
  | some style => .code style.selectors.toList :: (span.text.toList.map .char ++ [.code ['0']])

/-- The text of the span if it stands in a style. -/
def inside (span : Span) : List (List Char) :=
  if span.style.isSome then [span.text.toList] else []

/-- The text of the span if it stands in no style. -/
def outside (span : Span) : List Char :=
  if span.style.isSome then [] else span.text.toList

theorem mem_inside_iff {span : Span} {body : List Char} :
    body ∈ span.inside ↔ span.style.isSome ∧ body = span.text.toList := by
  rw [inside]
  split <;> simp [*]

theorem reopen_eq_self {cs : List Char} (h : '\x1b' ∉ cs) (opening : List Char) :
    reopen opening cs = cs := by
  fun_induction reopen opening cs with
  | case1 cs ih => simp at h
  | case2 c cs hcode ih =>
      simp only [List.mem_cons, not_or] at h
      rw [ih h.2]
  | case3 => rfl

theorem isSelector_selectors (style : Style) :
    ∀ c ∈ style.selectors.toList, Token.isSelector c = true := by
  cases style <;> simp [Style.selectors, Token.isSelector]

theorem selectors_ne_zero (style : Style) : style.selectors.toList ≠ ['0'] := by
  cases style <;> decide

theorem read_render_append {span : Span} (h : '\x1b' ∉ span.text.toList) (rest : List Char) :
    Token.read ((span.render true).toList ++ rest) = span.tokens ++ Token.read rest := by
  obtain ⟨style, text⟩ := span
  cases style with
  | none => exact Token.read_append h rest
  | some style =>
      have hrender : (render true ⟨some style, text⟩).toList ++ rest =
          '\x1b' :: '[' :: (style.selectors.toList ++ 'm' ::
            (text.toList ++ '\x1b' :: '[' :: (['0'] ++ 'm' :: rest))) := by
        simp [render, Style.opening, closing, reopen_eq_self h]
      rw [hrender, Token.read_code (isSelector_selectors style), Token.read_append h,
        Token.read_code (by simp [Token.isSelector])]
      simp [tokens]

theorem filterMap_tokens (span : Span) :
    span.tokens.filterMap Token.char? = (span.render false).toList := by
  obtain ⟨style, text⟩ := span
  have hchars : (text.toList.map Token.char).filterMap Token.char? = text.toList := by
    rw [List.filterMap_map]
    exact List.filterMap_some
  cases style with
  | none => exact hchars
  | some style =>
      rw [tokens, List.filterMap_cons_none rfl, List.filterMap_append, hchars]
      exact List.append_nil _

theorem closes_tokens {span : Span} (h : span.style.isSome → '\n' ∉ span.text.toList) :
    Closes span.tokens span.inside span.outside := by
  obtain ⟨style, text⟩ := span
  cases style with
  | none => exact closes_map_char text.toList
  | some style => exact .styled (selectors_ne_zero style) (h rfl) .nil

end Span

namespace StyledLine

/-- The tokens of lines one below the other. -/
def tokens (lines : List StyledLine) : List Token :=
  lines.flatMap fun line => line.flatMap Span.tokens ++ [.char '\n']

/-- The texts that stand in the styles of the lines. -/
def inside (lines : List StyledLine) : List (List Char) :=
  lines.flatMap fun line => line.flatMap Span.inside

/-- The text of the lines that stands in no style. -/
def outside (lines : List StyledLine) : List Char :=
  lines.flatMap fun line => line.flatMap Span.outside ++ ['\n']

theorem read_render_append {line : StyledLine} (h : ∀ span ∈ line, '\x1b' ∉ span.text.toList)
    (rest : List Char) :
    Token.read ((render true line).toList ++ rest) =
      line.flatMap Span.tokens ++ Token.read rest := by
  induction line with
  | nil => rfl
  | cons span line ih =>
      have hrender : (render true (span :: line)).toList ++ rest =
          (span.render true).toList ++ ((render true line).toList ++ rest) := by
        simp [render]
      rw [hrender, Span.read_render_append (h span (by simp)),
        ih fun span hspan => h span (by simp [hspan]), List.flatMap_cons, List.append_assoc]

theorem read_renderAll {lines : List StyledLine}
    (h : ∀ line ∈ lines, ∀ span ∈ line, '\x1b' ∉ span.text.toList) :
    Token.read (renderAll true lines).toList = tokens lines := by
  induction lines with
  | nil => simp [renderAll, tokens, Token.read]
  | cons line lines ih =>
      have hrender : (renderAll true (line :: lines)).toList =
          (render true line).toList ++ (['\n'] ++ (renderAll true lines).toList) := by
        simp [renderAll]
      rw [hrender, read_render_append (h line (by simp)), Token.read_append (by decide),
        ih fun line hline => h line (by simp [hline])]
      simp [tokens]

theorem filterMap_tokens (lines : List StyledLine) :
    (tokens lines).filterMap Token.char? = (renderAll false lines).toList := by
  have hline (line : StyledLine) : (line.flatMap Span.tokens).filterMap Token.char? =
      (render false line).toList := by
    simp [List.filterMap_flatMap, Span.filterMap_tokens, render, String.toList_join,
      List.flatMap_map]
  simp [tokens, List.filterMap_flatMap, hline, renderAll, String.toList_join, List.flatMap_map,
    Token.char?]

theorem closes_tokens {lines : List StyledLine}
    (h : ∀ line ∈ lines, ∀ span ∈ line, span.style.isSome → '\n' ∉ span.text.toList) :
    Closes (tokens lines) (inside lines) (outside lines) := by
  have hline {line : StyledLine} (h : ∀ span ∈ line, span.style.isSome → '\n' ∉ span.text.toList) :
      Closes (line.flatMap Span.tokens) (line.flatMap Span.inside)
        (line.flatMap Span.outside) := by
    induction line with
    | nil => exact .nil
    | cons span line ih =>
        exact (Span.closes_tokens (h span (by simp))).append
          (ih fun span hspan => h span (by simp [hspan]))
  induction lines with
  | nil => exact .nil
  | cons line lines ih =>
      have hend := (hline (h line (by simp))).append (closes_map_char ['\n'])
      have hlines := hend.append (ih fun line hline => h line (by simp [hline]))
      simpa [tokens, inside, outside] using hlines

end StyledLine

/-! ### Reports in colour -/

namespace Report

open StyledLine

/-- The words of a report that can stand in a style. -/
def captions : List String :=
  ["⚠", "✓", "├──", "└──", "Everything looks good.",
    "Detected dependencies", " - these seem to be imported by this project:",
    "Possible phantom dependencies",
    " - these seem to be imported but aren't listed in package.json:",
    "Possible unused dependencies",
    " - these are listed in package.json but don't seem to be imported:"]

theorem newline_not_mem_captions : ∀ caption ∈ captions, '\n' ∉ caption.toList := by
  decide +kernel

/-- The span holds no code of its own, and stands in a style only if it is a caption. -/
def Neat (span : Span) : Prop :=
  '\x1b' ∉ span.text.toList ∧ (span.style.isSome → span.text ∈ captions)

instance (span : Span) : Decidable (Neat span) :=
  inferInstanceAs (Decidable (_ ∧ _))

def AllNeat (lines : List StyledLine) : Prop := ∀ line ∈ lines, ∀ span ∈ line, Neat span

instance (lines : List StyledLine) : Decidable (AllNeat lines) :=
  inferInstanceAs (Decidable (∀ line ∈ lines, ∀ span ∈ line, Neat span))

theorem AllNeat.append {lines lines' : List StyledLine} (h : AllNeat lines)
    (h' : AllNeat lines') : AllNeat (lines ++ lines') :=
  List.forall_mem_append.mpr ⟨h, h'⟩

/-- No name holds an escape character. -/
def EscapeFree (findings : Findings) : Prop :=
  ∀ name ∈ findings.detected ++ findings.missing ++ findings.unused, '\x1b' ∉ name.toList

/-- What a list of names looks like without its branches. -/
def namesText (names : List String) : List Char :=
  names.flatMap fun name => ' ' :: ' ' :: name.toList ++ ['\n']

theorem neat_branch {sign name : String} (hsign : Neat (.styled .dimmed sign))
    (hname : '\x1b' ∉ name.toList) :
    ∀ span ∈ [Span.styled .dimmed sign, .plain ("  " ++ name)], Neat span := by
  have hplain : Neat (.plain ("  " ++ name)) := ⟨by simpa [Span.plain] using hname, nofun⟩
  simp [hsign, hplain]

theorem allNeat_branches {names : List String} (h : ∀ name ∈ names, '\x1b' ∉ name.toList) :
    AllNeat (branches names) := by
  induction names with
  | nil => exact List.forall_mem_nil _
  | cons name names ih =>
      obtain ⟨hname, hnames⟩ := List.forall_mem_cons.mp h
      by_cases hlast : names = []
      · subst hlast
        exact List.forall_mem_singleton.mpr (neat_branch (by decide) hname)
      · rw [branches_cons hlast]
        exact List.forall_mem_cons.mpr ⟨neat_branch (by decide) hname, ih hnames⟩

theorem outside_branches (names : List String) : outside (branches names) = namesText names := by
  induction names with
  | nil => rfl
  | cons name names ih =>
      by_cases hlast : names = []
      · subst hlast
        simp [branches, outside, namesText, Span.outside, Span.styled, Span.plain]
      · rw [branches_cons hlast, outside, List.flatMap_cons, ← outside, ih]
        simp [namesText, Span.outside, Span.styled, Span.plain]

/-- What stands above the names of a list. -/
def headingLines (title explanation : String) : List StyledLine :=
  [[.styled .boldYellow "⚠", .plain " ", .styled .yellow title],
    [.styled .dimmed (" - " ++ explanation)]]

/-- A list is shown as its branches below its heading, or below what stands there instead. -/
theorem exists_section {instead : List StyledLine} {title explanation : String}
    (hinstead : AllNeat instead) (hheading : AllNeat (headingLines title explanation))
    (names : List String) :
    ∃ above, AllNeat above ∧
      (if names.isEmpty then instead else sectionOf title explanation names) =
        above ++ branches names := by
  cases names with
  | nil => exact ⟨instead, hinstead, (List.append_nil _).symm⟩
  | cons => exact ⟨headingLines title explanation, hheading, rfl⟩

/-- A report is made of the branches of its lists, with nothing around them that depends on
the names. -/
theorem exists_lines_eq (findings : Findings) (all : Bool) :
    ∃ a b c d, AllNeat a ∧ AllNeat b ∧ AllNeat c ∧ AllNeat d ∧
      lines findings all =
        a ++ branches (if all then findings.detected else []) ++ b ++
          branches findings.missing ++ c ++ branches findings.unused ++ d := by
  have hdetected : ∃ a b, AllNeat a ∧ AllNeat b ∧
      (if all then detectedSection findings.detected ++ [[]] else []) =
        a ++ branches (if all then findings.detected else []) ++ b := by
    cases all with
    | false => exact ⟨[], [], by decide, by decide, rfl⟩
    | true =>
        have hsection : ∃ a, AllNeat a ∧
            detectedSection findings.detected = a ++ branches findings.detected :=
          exists_section (by decide +kernel) (by decide +kernel) _
        obtain ⟨a, ha, heq⟩ := hsection
        exact ⟨a, [[]], ha, by decide, congrArg (· ++ [[]]) heq⟩
  obtain ⟨a, b, ha, hb, hdetected⟩ := hdetected
  have hmissing : ∃ b, AllNeat b ∧
      missingSection findings.missing = b ++ branches findings.missing :=
    exists_section (by decide +kernel) (by decide +kernel) _
  obtain ⟨b', hb', hmissing⟩ := hmissing
  have hunused : ∃ c, AllNeat c ∧
      unusedSection findings.unused = c ++ branches findings.unused :=
    exists_section (by decide +kernel) (by decide +kernel) _
  obtain ⟨c, hc, hunused⟩ := hunused
  have hseparator : AllNeat (if findings.missing.isEmpty || findings.unused.isEmpty then []
      else [[]]) := by
    split <;> decide +kernel
  have hclear : AllNeat (if findings.hasAny then [] else allClear) := by
    split <;> decide +kernel
  refine ⟨a, b ++ b', _ ++ c, _, ha, hb.append hb', hseparator.append hc, hclear, ?_⟩
  rw [lines, hdetected, hmissing, hunused]
  simp only [List.append_assoc]

/-- Without its codes a coloured report is the report without colour. In it each style is
closed before the next one and before its line ends; only captions stand in styles, and the
names of each list stand outside of them, line by line. -/
theorem text_coloured {findings : Findings} (h : EscapeFree findings) (all : Bool) :
    withoutCodes (text findings all true) = text findings all false ∧
      ∃ inside outside, Closes (Token.read (text findings all true).toList) inside outside ∧
        (∀ body ∈ inside, String.ofList body ∈ captions) ∧
        ∃ a b c d, outside = a ++ namesText (if all then findings.detected else []) ++ b ++
          namesText findings.missing ++ c ++ namesText findings.unused ++ d := by
  simp only [EscapeFree, List.forall_mem_append] at h
  obtain ⟨⟨hdetected, hmissing⟩, hunused⟩ := h
  have hshown : ∀ name ∈ if all then findings.detected else [], '\x1b' ∉ name.toList := by
    cases all with
    | false => exact List.forall_mem_nil _
    | true => exact hdetected
  obtain ⟨a, b, c, d, ha, hb, hc, hd, hlines⟩ := exists_lines_eq findings all
  have hneat : AllNeat (lines findings all) := by
    rw [hlines]
    exact (((((ha.append (allNeat_branches hshown)).append hb).append
      (allNeat_branches hmissing)).append hc).append (allNeat_branches hunused)).append hd
  have hread : Token.read (text findings all true).toList = tokens (lines findings all) :=
    read_renderAll fun line hline span hspan => (hneat line hline span hspan).1
  rw [withoutCodes, hread]
  refine ⟨?_, _, _, closes_tokens ?_, ?_, outside a, outside b, outside c,
    outside d, ?_⟩
  · rw [filterMap_tokens, String.ofList_toList]
    rfl
  · intro line hline span hspan hstyle
    exact newline_not_mem_captions _ ((hneat line hline span hspan).2 hstyle)
  · intro body hbody
    obtain ⟨line, hline, hbody⟩ := List.mem_flatMap.mp hbody
    obtain ⟨span, hspan, hbody⟩ := List.mem_flatMap.mp hbody
    obtain ⟨hstyle, rfl⟩ := Span.mem_inside_iff.mp hbody
    rw [String.ofList_toList]
    exact (hneat line hline span hspan).2 hstyle
  · simp only [hlines, ← outside_branches, outside, List.flatMap_append]

/-- Names that look like the codes of a terminal, but for the escape character. -/
def bracketed : Findings where
  detected := ["[0m", "[1;33mx"]
  missing := ["m", "0;1m"]
  unused := ["└──\n⚠"]

theorem text_coloured_bracketed :
    EscapeFree bracketed ∧
      withoutCodes (text bracketed true true) = text bracketed true false ∧
      ∃ inside outside, Closes (Token.read (text bracketed true true).toList) inside outside ∧
        ∀ body ∈ inside, String.ofList body ∈ captions := by
  have hfree : EscapeFree bracketed := by
    rw [EscapeFree]
    decide
  obtain ⟨hstripped, inside, outside, hcloses, hinside, -⟩ := text_coloured hfree true
  exact ⟨hfree, hstripped, inside, outside, hcloses, hinside⟩

end Report

end DependencyAudit
