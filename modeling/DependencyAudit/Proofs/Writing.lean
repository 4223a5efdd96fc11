import DependencyAudit.Proofs.Rows
import DependencyAudit.Proofs.Surrounding

/-!
Imports written down and read back. A line that spells one form holds no other
occurrence: the quotes of an occurrence have to be the two of the line, so the
other form would have to end in front of the same quote, and with the blanks
left out no form ends like another one. The exception is a call of a method
whose name is that of a form, and there the dot in front gives it away. So each
line gives back the one import that it was written for.
-/

namespace DependencyAudit.Import

open DependencyAudit.Text

/-! ### A line with one form -/

/-- No form begins like the end of another one, up to its quote and blanks apart,
except for the call of a method that has the name of a form. -/
theorem eq_of_inkOf_suffix {kind kind' : Kind}
    (h : inkOf kind'.form.before <:+ inkOf kind.form.before) :
    kind' = kind ∨ kind = .systemImport ∧ kind' = .dynamicImport := by
  revert h
  cases kind <;> cases kind' <;> decide

/-- The one form that ends with another one has a dot in front of it. -/
theorem eq_of_spells_systemImport {before : List Char}
    (h : Spells (callForm "System.import").before (before ++ "import(".toList)) :
    before = "System.".toList := by
  generalize hfront : before ++ "import(".toList = front at h
  rcases h with _ | ⟨_ | _ | ⟨hblank, _ | ⟨_ | _ | ⟨hblank', ⟨⟩⟩⟩⟩⟩
  rename_i blanks blanks'
  have hlast : "System.import".toList ++ (blanks ++ '(' :: blanks') =
      before ++ "import".toList ++ ['('] := by
    simpa using hfront.symm
  rw [show "System.import".toList ++ (blanks ++ '(' :: blanks') =
      "System.import".toList ++ blanks ++ ['('] ++ blanks' by simp] at hlast
  obtain rfl := eq_nil_of_append_blanks hblank' (by decide) hlast
  rw [List.append_nil] at hlast
  obtain ⟨hname, -⟩ := List.append_inj' hlast rfl
  have hname' : "System.import".toList ++ blanks = before ++ "impor".toList ++ ['t'] := by
    simpa using hname
  obtain rfl := eq_nil_of_append_blanks hblank (by decide) hname'
  have hsplit : "System.".toList ++ "import".toList = before ++ "import".toList := by
    simpa using hname
  exact (List.append_inj' hsplit rfl).1.symm

theorem Rule.not_mem_of_ne_quote {rule : Rule} {request line : List Char} {quote : Quote}
    (h : rule.Spells request line) (hrequest : quote.char ∉ request) (hne : quote ≠ rule.quote) :
    quote.char ∉ line := by
  obtain ⟨hfront, -, hback⟩ := h
  have hfront' := @Rule.not_mem_before ⟨rule.kind, quote⟩ _ hfront
  have hback' := @Rule.not_mem_after ⟨rule.kind, quote⟩ _ hback
  have hchar : quote.char ≠ rule.quote.char := by
    revert hne
    cases quote <;> cases rule.quote <;> decide
  simp_all

/-- A line that spells a form, around a request without quotes, holds no
occurrence but that of the form. -/
theorem Rule.OccursAt.eq_of_spells {rule rule' : Rule} {request request' line : List Char}
    {start : Nat} (h : rule.Spells request line) (hrequest : ∀ quote : Quote, quote.char ∉ request)
    (h' : rule'.OccursAt line start request') : rule' = rule ∧ request' = request := by
  obtain ⟨kind', quote'⟩ := rule'
  obtain ⟨left, taken, _, rest, hline, -, hlead, ⟨hfront', -, hback'⟩⟩ := h'
  rename_i front' back'
  have hquote : quote' = rule.quote := by
    by_contra hne
    apply Rule.not_mem_of_ne_quote h (hrequest quote') hne
    simp [hline]
  subst hquote
  obtain ⟨hfront, -, hback⟩ := h
  rename_i front back
  obtain ⟨hbefore, rfl, -⟩ := eq_of_quotes (Rule.not_mem_before hfront) (hrequest rule.quote)
    (Rule.not_mem_after hback) hline
  refine ⟨?_, rfl⟩
  have hinked := congrArg ink hbefore
  rw [ink_append, hfront.ink_eq, hfront'.ink_eq] at hinked
  have hsuffix : inkOf kind'.form.before <:+ inkOf rule.kind.form.before := ⟨_, hinked.symm⟩
  obtain ⟨kind, quote⟩ := rule
  rcases eq_of_inkOf_suffix hsuffix with rfl | ⟨rfl, rfl⟩
  · rfl
  · exfalso
    obtain rfl : front' = "import(".toList := by
      rcases hfront' with _ | ⟨⟨⟩⟩
      rfl
    have hdot := eq_of_spells_systemImport (hbefore ▸ hfront)
    rcases LeadIn.admits_undotted_iff.mp hlead with ⟨rfl, rfl, -⟩ | ⟨c, rfl, hc, -⟩
    · cases hdot
    · have hsplit : "System".toList ++ ['.'] = _ ++ [c] := hdot.symm
      obtain ⟨-, hlast⟩ := List.append_inj' hsplit rfl
      exact hc (List.singleton_inj.mp hlast).symm

theorem Rule.search?_of_spells {rule : Rule} {request line : List Char}
    (h : rule.Spells request line) (hrequest : ∀ quote : Quote, quote.char ∉ request)
    (rule' : Rule) : rule'.search? none line = if rule' = rule then some request else none := by
  have honly : ∀ {rule' request'}, rule'.FirstIn line request' →
      rule' = rule ∧ request' = request :=
    fun ⟨_, hoccurs, _⟩ => hoccurs.eq_of_spells h hrequest
  by_cases hrule : rule' = rule
  · subst hrule
    rw [if_pos rfl, Rule.search?_none_eq_some_iff]
    simpa using h.firstIn List.not_mem_nil rule'.form.lead.allows_nil []
  · rw [if_neg hrule]
    by_contra hne
    obtain ⟨request', hsome⟩ := Option.ne_none_iff_exists'.mp hne
    exact hrule (honly (Rule.search?_none_eq_some_iff.mp hsome)).1

theorem specifiersInChars_of_spells {rule : Rule} {request line : List Char}
    (h : rule.Spells request line) (hrequest : ∀ quote : Quote, quote.char ∉ request) :
    specifiersInChars line = [⟨rule.kind, String.ofList request⟩] := by
  obtain ⟨before, after, hrules⟩ := List.append_of_mem (mem_rules rule)
  have hnodup := nodup_rules
  rw [hrules, List.nodup_middle, List.nodup_cons, List.mem_append, not_or] at hnodup
  obtain ⟨⟨hbefore, hafter⟩, -⟩ := hnodup
  have hother : ∀ others : List Rule, rule ∉ others →
      (others.filterMap fun rule' => (rule'.search? none line).map fun request =>
        (⟨rule'.kind, String.ofList request⟩ : Specifier)) = [] := by
    intro others hothers
    rw [List.filterMap_eq_nil_iff]
    intro rule' hrule'
    have hne : rule' ≠ rule := fun heq => hothers (heq ▸ hrule')
    rw [Rule.search?_of_spells h hrequest, if_neg hne, Option.map_none]
  rw [specifiersInChars, hrules, List.filterMap_append, hother before hbefore, List.nil_append,
    List.filterMap_cons_some (by rw [Rule.search?_of_spells h hrequest, if_pos rfl]; rfl),
    hother after hafter]

/-! ### Texts -/

/-- An import and a line that is written for it, with any blanks where its form
has room for some. -/
structure WrittenImport where
  rule : Rule
  request : List Char
  line : List Char
  spells : rule.Spells request line
  unquoted : ∀ quote : Quote, quote.char ∉ request
  unbroken : '\n' ∉ line

def WrittenImport.specifier (written : WrittenImport) : Specifier :=
  ⟨written.rule.kind, String.ofList written.request⟩

/-- A text that is written import by import, each on a line of its own, gives
back these imports, in order and nothing else. -/
theorem specifiersInText_of_written {imports : List WrittenImport} {text : String}
    (h : Written (imports.map WrittenImport.line) text.toList) :
    specifiersInText text = imports.map WrittenImport.specifier := by
  have hunbroken : ∀ row ∈ imports.map WrittenImport.line, '\n' ∉ row := by
    intro row hrow
    obtain ⟨written, -, rfl⟩ := List.mem_map.mp hrow
    exact written.unbroken
  have hlines := h.map_lines specifiersInChars_dropReturn hunbroken
  rw [specifiersInText, List.flatMap_def, hlines, List.map_map]
  have hone : specifiersInChars ∘ WrittenImport.line =
      fun written => [written.specifier] := by
    funext written
    exact specifiersInChars_of_spells written.spells written.unquoted
  rw [hone, ← List.flatMap_def, ← List.map_eq_flatMap]

/-- A method call with the name of a form and a request that looks like one, and
line ends of both kinds. -/
theorem specifiersInText_of_written_mixed :
    let text := "System.import (\t'require(')\r\nimport\"from\" ;\n"
    ∃ imports : List WrittenImport, Written (imports.map WrittenImport.line) text.toList ∧
      specifiersInText text = imports.map WrittenImport.specifier ∧
        imports.map WrittenImport.specifier =
          [⟨.systemImport, "require("⟩, ⟨.sideEffectImport, "from"⟩] := by
  intro text
  let firstLine := "System.import".toList ++ ([' '] ++ (['('] ++ (['\t'] ++ []))) ++
    Quote.single.char :: "require(".toList ++ Quote.single.char :: ([] ++ ([')'] ++ []))
  let secondLine := "import".toList ++ ([] ++ []) ++
    Quote.double.char :: "from".toList ++ Quote.double.char :: ([' '] ++ ([';'] ++ []))
  have hspace : Blank [' '] := blank_singleton (by decide)
  have htab : Blank ['\t'] := blank_singleton (by decide)
  have hfirst : Rule.Spells ⟨.systemImport, .single⟩ "require(".toList firstLine :=
    .intro (.text (.gap hspace (.text (.gap htab .nil))))
      ⟨by decide, by decide⟩ (.gap blank_nil (.text .nil))
  have hsecond : Rule.Spells ⟨.sideEffectImport, .double⟩ "from".toList secondLine :=
    .intro (.text (.gap blank_nil .nil)) ⟨by decide, by decide⟩ (.gap hspace (.text .nil))
  let imports : List WrittenImport :=
    [⟨_, _, _, hfirst, fun quote => by cases quote <;> decide, by decide⟩,
      ⟨_, _, _, hsecond, fun quote => by cases quote <;> decide, by decide⟩]
  have htext : text.toList = firstLine ++ LineEnd.returnFeed.chars ++
      (secondLine ++ LineEnd.feed.chars ++ []) := by decide
  have hwritten : Written (imports.map WrittenImport.line) text.toList := by
    rw [htext]
    exact .row .returnFeed (.row .feed .nil)
  exact ⟨imports, hwritten, specifiersInText_of_written hwritten, rfl⟩

end DependencyAudit.Import
