import DependencyAudit.Proofs.Leftmost
import DependencyAudit.Proofs.Trimming

/-!
What appended text can do to a line. An occurrence stays where it is when text
follows the line, and no new one can begin before it: it would have to reach over
the two quotes of the old one, and a form has no quotes besides its own two. So the
first occurrence stays the first. A carriage return at the end of a line makes no
difference at all, because no form ends in a blank.
-/

namespace DependencyAudit.Import

open DependencyAudit.Text

/-! ### Occurrences in a longer line -/

theorem Rule.Spells.ne_nil {rule : Rule} {request form : List Char}
    (h : rule.Spells request form) : form ≠ [] := by
  obtain ⟨-, -, -⟩ := h
  simp

theorem LeadIn.Admits.congr {lead : LeadIn} {left taken right right' : List Char}
    (h : lead.Admits left taken right) (hhead : right.head? = right'.head?) :
    lead.Admits left taken right' := by
  cases h with
  | boundary edge => exact .boundary (hhead ▸ edge)
  | start edge => exact .start (hhead ▸ edge)
  | undotted nodot edge => exact .undotted nodot (hhead ▸ edge)
  | anywhere => exact .anywhere

theorem LeadIn.Admits.length_le_one {lead : LeadIn} {left taken right : List Char}
    (h : lead.Admits left taken right) : taken.length ≤ 1 := by
  cases h <;> simp

/-- What an earlier occurrence has in front of its form ends no later than a later one
begins. -/
theorem LeadIn.Admits.prefix_of_lt {lead : LeadIn} {left taken right before rest rest' : List Char}
    (h : lead.Admits left taken right) (hline : left ++ taken ++ rest = before ++ rest')
    (hlt : left.length < before.length) : left ++ taken <+: before := by
  have htaken := h.length_le_one
  refine List.prefix_of_prefix_length_le (List.prefix_append _ rest) ?_ ?_
  · rw [hline]
    exact List.prefix_append _ _
  · rw [List.length_append]
    omega

theorem Rule.Spells.head?_append {rule : Rule} {request form : List Char}
    (h : rule.Spells request form) (rest rest' : List Char) :
    (form ++ rest).head? = (form ++ rest').head? := by
  obtain ⟨c, cs, rfl⟩ := List.exists_cons_of_ne_nil h.ne_nil
  rfl

theorem Rule.OccursAt.append {rule : Rule} {line request : List Char} {start : Nat}
    (h : rule.OccursAt line start request) (more : List Char) :
    rule.OccursAt (line ++ more) start request := by
  obtain ⟨left, taken, form, rest, rfl, hlen, hlead, hform⟩ := h
  exact ⟨left, taken, form, rest ++ more, by simp, hlen,
    hlead.congr (hform.head?_append _ _), hform⟩

/-- Whether no piece spells the character itself. -/
def avoids (c : Char) : List Piece → Bool
  | [] => true
  | .text chars :: pieces => !chars.contains c && avoids c pieces
  | _ :: pieces => avoids c pieces

theorem Spells.not_mem {pieces : List Piece} {cs : List Char} {c : Char}
    (hc : isBlank c = false) (ha : avoids c pieces = true) (h : Spells pieces cs) : c ∉ cs := by
  induction h with
  | nil => simp
  | text _ ih =>
      obtain ⟨hchars, ha⟩ : c ∉ _ ∧ avoids c _ = true := by simpa [avoids] using ha
      simpa using ⟨hchars, ih ha⟩
  | gap blank _ ih => simpa using ⟨Blank.not_mem blank hc, ih ha⟩
  | wideGap _ blank _ ih => simpa using ⟨Blank.not_mem blank hc, ih ha⟩

theorem Quote.isBlank_char (quote : Quote) : isBlank quote.char = false := by
  cases quote <;> decide

theorem Rule.avoids_quote (rule : Rule) :
    avoids rule.quote.char rule.form.before = true ∧
      avoids rule.quote.char rule.form.after = true := by
  obtain ⟨kind, quote⟩ := rule
  cases kind <;> cases quote <;> decide

theorem Rule.not_mem_before {rule : Rule} {front : List Char}
    (h : Import.Spells rule.form.before front) : rule.quote.char ∉ front :=
  h.not_mem rule.quote.isBlank_char rule.avoids_quote.1

theorem Rule.not_mem_after {rule : Rule} {back : List Char}
    (h : Import.Spells rule.form.after back) : rule.quote.char ∉ back :=
  h.not_mem rule.quote.isBlank_char rule.avoids_quote.2

theorem eq_and_eq_of_append_cons {c : Char} {before before' after after' : List Char}
    (hfree : c ∉ before) (hfree' : c ∉ before')
    (h : before ++ c :: after = before' ++ c :: after') : before = before' ∧ after = after' := by
  have hcut : cutAtFirst c (before ++ c :: after) = some (before, after) :=
    cutAtFirst_eq_some_iff.mpr ⟨rfl, hfree⟩
  have hcut' : cutAtFirst c (before ++ c :: after) = some (before', after') :=
    cutAtFirst_eq_some_iff.mpr ⟨h, hfree'⟩
  simpa using hcut.symm.trans hcut'

/-- If a text holds a character only twice, two quotes in it are those two. -/
theorem eq_of_quotes {c : Char} {front request back before front' request' back' after : List Char}
    (hfront : c ∉ front) (hrequest : c ∉ request) (hback : c ∉ back)
    (h : front ++ c :: request ++ c :: back =
      before ++ (front' ++ c :: request' ++ c :: back') ++ after) :
    front = before ++ front' ∧ request = request' ∧ back = back' ++ after := by
  -- the two quotes on the right leave no further one for the text around them
  have hcount := congrArg (List.count c) h
  simp only [List.count_append, List.count_cons_self, List.count_eq_zero_of_not_mem hfront,
    List.count_eq_zero_of_not_mem hrequest, List.count_eq_zero_of_not_mem hback] at hcount
  have hbefore : c ∉ before ++ front' := by
    rw [← List.count_eq_zero, List.count_append]
    omega
  have hrequest' : c ∉ request' := by
    rw [← List.count_eq_zero]
    omega
  obtain ⟨hfirst, htail⟩ := eq_and_eq_of_append_cons hfront hbefore
    (show front ++ c :: (request ++ c :: back) =
      before ++ front' ++ c :: (request' ++ c :: (back' ++ after)) by simpa using h)
  obtain ⟨hsecond, hend⟩ := eq_and_eq_of_append_cons hrequest hrequest' htail
  exact ⟨hfirst, hsecond, hend⟩

/-- A form that contains another form of the same rule ends with it: the two
quotes of the inner one are also those of the outer one. -/
theorem Rule.Spells.eq_nil_of_append {rule : Rule} {request request' form before after : List Char}
    (h : rule.Spells request form) (h' : rule.Spells request' (before ++ form ++ after)) :
    after = [] := by
  obtain ⟨hfront, -, hback⟩ := h
  rename_i front back
  generalize houter : before ++ (front ++ rule.quote.char :: request ++ rule.quote.char :: back) ++
    after = outer at h'
  obtain ⟨hfront', ⟨-, hfree'⟩, hback'⟩ := h'
  obtain ⟨-, -, hend⟩ := eq_of_quotes (not_mem_before hfront') hfree' (not_mem_after hback')
    houter.symm
  have hread := readPieces?_append after rule.isSettled_after hback
  have hread' := readPieces?_append [] rule.isSettled_after hback'
  rw [List.append_nil, hend, hread] at hread'
  exact Option.some.inj hread'

/-- No occurrence in a longer line begins before one in the line itself without
lying in the line itself. -/
theorem Rule.OccursAt.of_append {rule : Rule} {line more request request' : List Char}
    {start start' : Nat} (h : rule.OccursAt line start request)
    (h' : rule.OccursAt (line ++ more) start' request') (hlt : start' < start) :
    rule.OccursAt line start' request' := by
  obtain ⟨left, taken, form, rest, hline, hlen, -, hform⟩ := h
  obtain ⟨left', taken', form', rest', hline', hlen', hlead', hform'⟩ := h'
  rcases List.append_eq_append_iff.mp hline' with ⟨beyond, houter, -⟩ | ⟨within, hinner, -⟩
  · -- its form reaches the end of the line, and so contains the other one
    have hsplit : left' ++ taken' ++ (form' ++ rest') =
        left ++ (taken ++ form ++ rest ++ more) := by
      rw [hline] at hline'
      simpa using hline'.symm
    obtain ⟨between, hbetween⟩ := hlead'.prefix_of_lt hsplit (by omega)
    have hcontains : form' = between ++ taken ++ form ++ (rest ++ beyond) := by
      rw [hline, ← hbetween] at houter
      simpa using houter
    rw [hcontains] at hform'
    obtain ⟨-, rfl⟩ := List.append_eq_nil_iff.mp (hform.eq_nil_of_append hform')
    rw [List.append_nil] at houter
    refine ⟨left', taken', form', [], by simp [← houter], hlen', ?_, ?_⟩
    · exact hlead'.congr ((hcontains ▸ hform').head?_append _ _)
    · rwa [hcontains]
  · exact ⟨left', taken', form', within, by rw [hinner], hlen',
      hlead'.congr (hform'.head?_append _ _), hform'⟩

theorem Rule.FirstIn.append {rule : Rule} {line request : List Char}
    (h : rule.FirstIn line request) (more : List Char) :
    rule.FirstIn (line ++ more) request := by
  obtain ⟨start, hstart, hfirst⟩ := h
  refine ⟨start, hstart.append more, fun start' request' h' => ?_⟩
  by_contra hlt
  have := hfirst start' request' (hstart.of_append h' (by omega))
  omega

theorem Rule.search?_append {rule : Rule} {line request : List Char}
    (h : rule.search? none line = some request) (more : List Char) :
    rule.search? none (line ++ more) = some request := by
  rw [Rule.search?_none_eq_some_iff] at h ⊢
  exact h.append more

theorem filterMap_sublist_filterMap {α β : Type} {f g : α → Option β} {xs : List α}
    (h : ∀ x ∈ xs, ∀ y, f x = some y → g x = some y) :
    (xs.filterMap f).Sublist (xs.filterMap g) := by
  induction xs with
  | nil => exact .slnil
  | cons x xs ih =>
      have ih := ih fun x' hx' => h x' (List.mem_cons_of_mem x hx')
      cases hf : f x with
      | none =>
          rw [List.filterMap_cons_none hf]
          refine ih.trans ?_
          exact (List.sublist_cons_self x xs).filterMap g
      | some y =>
          rw [List.filterMap_cons_some hf, List.filterMap_cons_some (h x (by simp) y hf)]
          exact ih.cons_cons y

theorem answersIn_sublist_append (line more : List Char) :
    (answersIn line).Sublist (answersIn (line ++ more)) := by
  refine filterMap_sublist_filterMap fun rule _ answer h => ?_
  obtain ⟨request, hrequest, rfl⟩ := Option.map_eq_some_iff.mp h
  rw [Rule.search?_append hrequest, Option.map_some]

theorem specifiersInChars_sublist_append (line more : List Char) :
    (specifiersInChars line).Sublist (specifiersInChars (line ++ more)) := by
  rw [specifiersInChars_eq_map_answersIn, specifiersInChars_eq_map_answersIn]
  exact (answersIn_sublist_append line more).map _

/-- Whatever follows a line, each rule that answers for it gives the same answer
for the longer line, and the specifiers of the line keep their order. -/
theorem specifiersInLine_sublist_append (line more : String) :
    (answersIn line.toList).Sublist (answersIn (line ++ more).toList) ∧
      (specifiersInLine line).Sublist (specifiersInLine (line ++ more)) := by
  rw [specifiersInLine, specifiersInLine, String.toList_append]
  exact ⟨answersIn_sublist_append _ _, specifiersInChars_sublist_append _ _⟩

/-! ### The end of a line -/

/-- Whether the last piece is a text that ends in no blank. -/
def endsInked : List Piece → Bool
  | [] => false
  | [.text chars] => chars.getLast?.any fun c => !isBlank c
  | _ :: pieces => endsInked pieces

theorem Spells.exists_concat_of_endsInked {pieces : List Piece} {cs : List Char}
    (he : endsInked pieces = true) (h : Spells pieces cs) :
    ∃ init last, cs = init ++ [last] ∧ isBlank last = false := by
  induction h with
  | nil => cases he
  | @text chars cs pieces h ih =>
      cases pieces with
      | nil =>
          cases h
          rw [endsInked] at he
          cases hlast : chars.getLast? with
          | none => simp [hlast] at he
          | some last =>
              obtain ⟨init, rfl⟩ := List.getLast?_eq_some_iff.mp hlast
              exact ⟨init, last, List.append_nil _, by simpa [hlast] using he⟩
      | cons piece pieces =>
          obtain ⟨init, last, rfl, hinked⟩ := ih he
          exact ⟨chars ++ init, last, by simp, hinked⟩
  | @gap blanks cs pieces _ h ih =>
      cases pieces with
      | nil => cases he
      | cons piece pieces =>
          obtain ⟨init, last, rfl, hinked⟩ := ih he
          exact ⟨blanks ++ init, last, by simp, hinked⟩
  | @wideGap blanks cs pieces _ _ h ih =>
      cases pieces with
      | nil => cases he
      | cons piece pieces =>
          obtain ⟨init, last, rfl, hinked⟩ := ih he
          exact ⟨blanks ++ init, last, by simp, hinked⟩

/-- The pieces behind the request, the closing quote among them. -/
def Rule.closing (rule : Rule) : List Piece :=
  .text [rule.quote.char] :: rule.form.after

theorem Rule.Spells.exists_concat {rule : Rule} {request form : List Char}
    (h : rule.Spells request form) : ∃ init last, form = init ++ [last] ∧ isBlank last = false := by
  obtain ⟨-, -, hback⟩ := h
  rename_i front back
  have hinked : endsInked rule.closing = true := by
    obtain ⟨kind, quote⟩ := rule
    cases kind <;> cases quote <;> decide
  have hclosing : Import.Spells rule.closing ([rule.quote.char] ++ back) := .text hback
  obtain ⟨init, last, heq, hlast⟩ := hclosing.exists_concat_of_endsInked hinked
  refine ⟨front ++ rule.quote.char :: request ++ init, last, ?_, hlast⟩
  rw [List.append_assoc _ init, ← heq]
  rfl

theorem Rule.OccursAt.of_append_blank {rule : Rule} {line request : List Char} {start : Nat}
    {blank : Char} (hblank : isBlank blank = true)
    (h : rule.OccursAt (line ++ [blank]) start request) : rule.OccursAt line start request := by
  obtain ⟨left, taken, form, rest, hline, hlen, hlead, hform⟩ := h
  rcases List.eq_nil_or_concat' rest with rfl | ⟨rest, last, rfl⟩
  · obtain ⟨init, last, rfl, hlast⟩ := hform.exists_concat
    rw [List.append_nil, ← List.append_assoc] at hline
    obtain ⟨-, rfl⟩ := List.append_inj' hline rfl |>.imp_right List.singleton_inj.mp
    rw [hblank] at hlast
    cases hlast
  · rw [← List.append_assoc] at hline
    obtain ⟨hline, -⟩ := List.append_inj' hline rfl
    exact ⟨left, taken, form, rest, hline, hlen,
      hlead.congr (hform.head?_append _ _), hform⟩

theorem Rule.firstIn_append_blank_iff {rule : Rule} {line request : List Char} {blank : Char}
    (hblank : isBlank blank = true) :
    rule.FirstIn (line ++ [blank]) request ↔ rule.FirstIn line request := by
  refine ⟨fun h => ?_, fun h => h.append [blank]⟩
  obtain ⟨start, hstart, hfirst⟩ := h
  exact ⟨start, hstart.of_append_blank hblank,
    fun start' request' h' => hfirst start' request' (h'.append [blank])⟩

/-- The carriage return of a line end is of no consequence. -/
theorem specifiersInChars_dropReturn (line : List Char) :
    specifiersInChars (dropReturn line) = specifiersInChars line := by
  rw [dropReturn]
  split
  next hlast =>
    obtain ⟨init, rfl⟩ := List.getLast?_eq_some_iff.mp hlast
    have hsearch : ∀ rule : Rule, rule.search? none init = rule.search? none (init ++ ['\r']) := by
      intro rule
      ext request
      rw [Rule.search?_none_eq_some_iff, Rule.search?_none_eq_some_iff,
        Rule.firstIn_append_blank_iff (by decide)]
    simp only [List.dropLast_concat, specifiersInChars, hsearch]
  next => rfl

end DependencyAudit.Import
