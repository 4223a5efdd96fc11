import DependencyAudit.Proofs.Appending

/-!
A form with other text on both sides of it. As long as its quote does not occur in
front of it, every occurrence that begins earlier has the same opening quote, so the
pieces in front of that quote would spell a longer text that ends with what they
spell already. With the blanks left out both are the same, and no form begins with a
blank, so there is no such longer text: the form is the first one of its rule, and
nothing that follows it can change that.
-/

namespace DependencyAudit.Import

open DependencyAudit.Text

/-! ### Forms without their blanks -/

/-- What is left of a text when its blanks are taken out. -/
def ink (cs : List Char) : List Char :=
  cs.filter fun c => !isBlank c

/-- What pieces spell when the blanks are taken out. -/
def inkOf : List Piece → List Char
  | [] => []
  | .text chars :: pieces => ink chars ++ inkOf pieces
  | .gap :: pieces => inkOf pieces
  | .wideGap :: pieces => inkOf pieces

theorem ink_append (first second : List Char) : ink (first ++ second) = ink first ++ ink second :=
  List.filter_append first second

theorem ink_eq_nil_iff {cs : List Char} : ink cs = [] ↔ Blank cs := by
  simp only [ink, List.filter_eq_nil_iff, Blank, Bool.not_eq_true', Bool.not_eq_false]

theorem Spells.ink_eq {pieces : List Piece} {cs : List Char} (h : Spells pieces cs) :
    ink cs = inkOf pieces := by
  induction h with
  | nil => rfl
  | text _ ih => rw [ink_append, inkOf, ih]
  | gap blank _ ih => rw [ink_append, ink_eq_nil_iff.mpr blank, List.nil_append, inkOf, ih]
  | wideGap _ blank _ ih => rw [ink_append, ink_eq_nil_iff.mpr blank, List.nil_append, inkOf, ih]

/-- Pieces that begin with no blank spell no longer text with the same end. -/
theorem Spells.eq_nil_of_append {pieces : List Piece} {extra cs : List Char}
    (hs : startsInked pieces = true) (h : Spells pieces cs) (h' : Spells pieces (extra ++ cs)) :
    extra = [] := by
  have hink : ink extra = [] := by
    have heq : ink extra ++ ink cs = ink cs := by rw [← ink_append, h'.ink_eq, h.ink_eq]
    simpa using heq
  have hblank := ink_eq_nil_iff.mp hink
  obtain ⟨d, ds, heq, hd⟩ := h'.exists_cons_of_startsInked hs
  cases extra with
  | nil => rfl
  | cons c extra =>
      obtain rfl : c = d := (List.cons.inj heq).1
      rw [hblank c (by simp)] at hd
      cases hd

/-! ### What stands in front of a form -/

/-- Whether a form can begin behind the text, as far as its last character goes. -/
def LeadIn.Allows (lead : LeadIn) (before : List Char) : Prop :=
  match lead with
  | boundary => ∀ c ∈ before.getLast?, isWordChar c = false
  | undotted => ∀ c ∈ before.getLast?, isWordChar c = false ∧ c ≠ '.'
  | anywhere => True

theorem LeadIn.allows_nil (lead : LeadIn) : lead.Allows [] := by
  cases lead <;> simp [LeadIn.Allows]

theorem isBoundary_of_isWordChar {before : Option Char} {c : Char} (hc : isWordChar c = true)
    (hbefore : ∀ b ∈ before, isWordChar b = false) : isBoundary before (some c) = true := by
  cases before with
  | none => simp [isBoundary, hc]
  | some b => simp [isBoundary, hc, hbefore b rfl]

theorem Rule.startsInked_before (rule : Rule) : startsInked rule.form.before = true := by
  obtain ⟨kind, quote⟩ := rule
  cases kind <;> cases quote <;> decide

/-- A form with a lead-in of its own begins with a word character. -/
theorem Rule.Spells.exists_cons {rule : Rule} {request form : List Char}
    (h : rule.Spells request form) :
    ∃ c cs, form = c :: cs ∧ (rule.form.lead = .anywhere ∨ isWordChar c = true) := by
  have hopening : ∃ c chars pieces, rule.form.before = .text (c :: chars) :: pieces ∧
      (rule.form.lead = .anywhere ∨ isWordChar c = true) := by
    obtain ⟨kind, quote⟩ := rule
    cases kind <;> cases quote <;> exact ⟨_, _, _, rfl, by decide⟩
  obtain ⟨c, chars, pieces, hbefore, hlead⟩ := hopening
  obtain ⟨hfront, -, -⟩ := h
  rw [hbefore] at hfront
  rcases hfront with _ | ⟨-⟩
  exact ⟨c, _, rfl, hlead⟩

theorem Rule.Spells.exists_admits {rule : Rule} {request form before : List Char}
    (h : rule.Spells request form) (hallows : rule.form.lead.Allows before) (after : List Char) :
    ∃ left taken, before = left ++ taken ∧
      rule.form.lead.Admits left taken (form ++ after) := by
  obtain ⟨c, cs, rfl, hlead⟩ := h.exists_cons
  cases hkind : rule.form.lead with
  | anywhere => exact ⟨before, [], (List.append_nil before).symm, .anywhere⟩
  | boundary =>
      rw [hkind] at hallows hlead
      have hc : isWordChar c = true := hlead.resolve_left (by simp)
      exact ⟨before, [], (List.append_nil before).symm,
        .boundary (isBoundary_of_isWordChar hc hallows)⟩
  | undotted =>
      rw [hkind] at hallows hlead
      have hc : isWordChar c = true := hlead.resolve_left (by simp)
      rcases List.eq_nil_or_concat' before with rfl | ⟨left, last, rfl⟩
      · exact ⟨[], [], rfl, .start (isBoundary_of_isWordChar hc (by simp))⟩
      · obtain ⟨hlast, hdot⟩ := hallows last (by simp)
        refine ⟨left, [last], rfl, .undotted hdot (isBoundary_of_isWordChar hc ?_)⟩
        rintro _ ⟨⟩
        exact hlast

/-- Where an occurrence begins can be told from where its form does. -/
theorem LeadIn.Admits.left_unique {lead : LeadIn} {left taken right left' taken' right' : List Char}
    (h : lead.Admits left taken right) (h' : lead.Admits left' taken' right')
    (heq : left ++ taken = left' ++ taken') : left = left' := by
  cases h with
  | boundary =>
      cases h' with
      | boundary => simpa using heq
  | start =>
      cases h' with
      | start => rfl
      | undotted => simp at heq
  | undotted =>
      cases h' with
      | start => simp at heq
      | undotted => exact (List.append_inj' heq rfl).1
  | anywhere =>
      cases h' with
      | anywhere => simpa using heq

/-! ### The first quoted form -/

variable {rule : Rule} {request form before : List Char}

/-- In a text that begins with a form of a rule, no other one begins later without the
quote in between. -/
theorem Rule.Spells.eq_nil_of_shift {request' form' extra after after' : List Char}
    (h : rule.Spells request form) (h' : rule.Spells request' form')
    (hfree : rule.quote.char ∉ extra) (heq : extra ++ form ++ after = form' ++ after') :
    extra = [] := by
  obtain ⟨hfront, -, -⟩ := h
  obtain ⟨hfront', -, -⟩ := h'
  rename_i front back front' back'
  have hquotes : extra ++ front ++
      rule.quote.char :: (request ++ rule.quote.char :: (back ++ after)) =
        front' ++ rule.quote.char :: (request' ++ rule.quote.char :: (back' ++ after')) := by
    simpa using heq
  have hfree' : rule.quote.char ∉ extra ++ front := by simp [hfree, not_mem_before hfront]
  obtain ⟨rfl, -⟩ := eq_and_eq_of_append_cons hfree' (not_mem_before hfront') hquotes
  exact hfront.eq_nil_of_append rule.startsInked_before hfront'

/-- If the quote does not occur in front of a form, the form is the first of its rule,
whatever follows it. -/
theorem Rule.Spells.firstIn (h : rule.Spells request form) (hfree : rule.quote.char ∉ before)
    (hallows : rule.form.lead.Allows before) (after : List Char) :
    rule.FirstIn (before ++ form ++ after) request := by
  obtain ⟨left, taken, hbefore, hadmits⟩ := h.exists_admits hallows after
  refine ⟨left.length, ⟨left, taken, form, after, by rw [hbefore], rfl, hadmits, h⟩,
    fun start' request' h' => ?_⟩
  obtain ⟨left', taken', form', rest', hline, rfl, hadmits', hform'⟩ := h'
  by_contra hlt
  have hsplit : left' ++ taken' ++ (form' ++ rest') = before ++ (form ++ after) := by
    simpa using hline.symm
  have hearlier : left'.length < before.length := by
    rw [hbefore, List.length_append]
    omega
  -- the form of an earlier occurrence begins no later than this one
  obtain ⟨extra, hextra⟩ := hadmits'.prefix_of_lt hsplit hearlier
  have hshift : extra ++ form ++ after = form' ++ rest' := by
    rw [← hextra] at hline
    simpa using hline
  obtain rfl := h.eq_nil_of_shift hform' (fun hmem => hfree (hextra ▸ List.mem_append_right _ hmem))
    hshift
  rw [List.append_nil, hbefore] at hextra
  exact hlt (hadmits.left_unique hadmits' hextra.symm ▸ le_rfl)

/-- The first form of a rule on a line is found as soon as its quote does not occur in
front of it: half-finished forms, other quotes and whatever follows do not matter. -/
theorem specifiersInLine_first_quoted {rule : Rule} {request form : List Char} {before : String}
    (h : rule.Spells request form) (hfree : rule.quote.char ∉ before.toList)
    (hallows : rule.form.lead.Allows before.toList) (after : String) :
    let line := before ++ String.ofList form ++ after
    (rule, request) ∈ answersIn line.toList ∧
      ⟨rule.kind, String.ofList request⟩ ∈ specifiersInLine line := by
  intro line
  have hline : line.toList = before.toList ++ form ++ after.toList := by simp [line]
  have hfirst := h.firstIn hfree hallows after.toList
  rw [specifiersInLine, hline]
  exact ⟨mem_answersIn.mpr hfirst, mem_specifiersInChars.mpr ⟨rule, request, hfirst, rfl⟩⟩

/-- A dynamic import behind a method call with its name, in the other quotes, and a call
that is not finished, with a second one behind it. -/
theorem specifiersInLine_first_quoted_unfinished :
    let rule : Rule := ⟨.dynamicImport, .single⟩
    let before := "x.import(\"a\"), import( , import("
    let form := "import('b')".toList
    let line := before ++ String.ofList form ++ ", import('c') from 'd'"
    rule.Spells ['b'] form ∧ rule.quote.char ∉ before.toList ∧
      rule.form.lead.Allows before.toList ∧ (rule, ['b']) ∈ answersIn line.toList ∧
      ⟨.dynamicImport, "b"⟩ ∈ specifiersInLine line := by
  intro rule before form line
  have hspells : rule.Spells ['b'] form :=
    @Rule.Spells.intro rule ['b'] ("import(".toList ++ []) ([')'] ++ [])
      (.text .nil) ⟨by decide, by decide⟩ (.text .nil)
  have hfree : rule.quote.char ∉ before.toList := by decide
  have hallows : rule.form.lead.Allows before.toList := by
    rintro c hc
    obtain rfl : '(' = c := by simpa [before] using hc
    decide
  obtain ⟨hanswer, hfound⟩ := specifiersInLine_first_quoted hspells hfree hallows _
  exact ⟨hspells, hfree, hallows, hanswer, hfound⟩

end DependencyAudit.Import
