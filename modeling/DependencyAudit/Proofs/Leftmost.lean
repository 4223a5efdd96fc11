import DependencyAudit.Proofs.Forms
import Mathlib.Data.List.Nodup

/-!
What a rule answers for a line. The search tries one place after the other and
gives up a place at the first piece that does not fit; an occurrence is any way
of cutting the line so that the rule's form stands between the cuts. The two
agree: the search answers exactly when there is an occurrence, and its request
is that of the occurrence that starts first.
-/

namespace DependencyAudit.Import

open DependencyAudit.Text

/-- The request is that of an occurrence, and none starts before it. -/
def Rule.FirstIn (rule : Rule) (line : List Char) (request : List Char) : Prop :=
  ∃ start, rule.OccursAt line start request ∧
    ∀ start' request', rule.OccursAt line start' request' → start ≤ start'

/-! ### One place -/

theorem LeadIn.admits_boundary_iff {left taken right : List Char} :
    LeadIn.boundary.Admits left taken right ↔
      taken = [] ∧ isBoundary left.getLast? right.head? = true := by
  refine ⟨fun h => ?_, fun h => ?_⟩
  · obtain ⟨edge⟩ := h
    exact ⟨rfl, edge⟩
  · obtain ⟨rfl, edge⟩ := h
    exact .boundary edge

theorem LeadIn.admits_anywhere_iff {left taken right : List Char} :
    LeadIn.anywhere.Admits left taken right ↔ taken = [] := by
  refine ⟨fun h => ?_, fun h => ?_⟩
  · obtain ⟨⟩ := h
    rfl
  · subst h
    exact .anywhere

theorem LeadIn.admits_undotted_iff {left taken right : List Char} :
    LeadIn.undotted.Admits left taken right ↔
      (left = [] ∧ taken = [] ∧ isBoundary none right.head? = true) ∨
        ∃ c, taken = [c] ∧ c ≠ '.' ∧ isBoundary (some c) right.head? = true := by
  refine ⟨fun h => ?_, fun h => ?_⟩
  · rcases h with _ | ⟨edge⟩ | ⟨nodot, edge⟩
    · exact .inl ⟨rfl, rfl, edge⟩
    · exact .inr ⟨_, rfl, nodot, edge⟩
  · rcases h with ⟨rfl, rfl, edge⟩ | ⟨c, rfl, nodot, edge⟩
    · exact .start edge
    · exact .undotted nodot edge

theorem Rule.occursAt_length_iff {rule : Rule} {left cs request : List Char} :
    rule.OccursAt (left ++ cs) left.length request ↔
      ∃ taken form rest, cs = taken ++ form ++ rest ∧
        rule.form.lead.Admits left taken (form ++ rest) ∧ rule.Spells request form := by
  refine ⟨fun h => ?_, fun h => ?_⟩
  · obtain ⟨left', taken, form, rest, hline, hlen, hlead, hform⟩ := h
    rw [List.append_assoc, List.append_assoc] at hline
    obtain ⟨rfl, rfl⟩ := List.append_inj hline hlen.symm
    exact ⟨taken, form, rest, by simp, hlead, hform⟩
  · obtain ⟨taken, form, rest, rfl, hlead, hform⟩ := h
    exact ⟨left, taken, form, rest, by simp, rfl, hlead, hform⟩

theorem Rule.isPrefix_of_requestOf? {rule : Rule} {cs request chars : List Char}
    {pieces : List Piece} (hbefore : rule.form.before = .text chars :: pieces)
    (h : rule.requestOf? cs = some request) : chars <+: cs := by
  obtain ⟨_, rest, rfl, ⟨hfront, -, -⟩⟩ := Rule.requestOf?_eq_some_iff.mp h
  rw [hbefore] at hfront
  cases hfront with
  | text => simp only [List.append_assoc, List.prefix_append]

/-- The two lead-ins of a form that must not follow a dot never both lead to a
request: the form's text does not begin in its own second character. -/
theorem Rule.requestOf?_tail_eq_none {rule : Rule} (hlead : rule.form.lead = .undotted)
    {c : Char} {cs request : List Char} (h : rule.requestOf? (c :: cs) = some request) :
    rule.requestOf? cs = none := by
  obtain ⟨pieces, hbefore⟩ : ∃ pieces, rule.form.before = .text "import(".toList :: pieces := by
    obtain ⟨kind, quote⟩ := rule
    cases kind with
    | dynamicImport => exact ⟨[], rfl⟩
    | _ => cases hlead
  by_contra hne
  obtain ⟨request', h'⟩ := Option.ne_none_iff_exists'.mp hne
  obtain ⟨t, ht⟩ := Rule.isPrefix_of_requestOf? hbefore h
  obtain ⟨t', rfl⟩ := Rule.isPrefix_of_requestOf? hbefore h'
  exact absurd (List.cons.inj (List.cons.inj ht).2).1 (by decide)

theorem Rule.readAt?_eq_some_iff {rule : Rule} {left cs request : List Char} :
    rule.readAt? left.getLast? cs = some request ↔
      rule.OccursAt (left ++ cs) left.length request := by
  rw [Rule.occursAt_length_iff]
  cases hlead : rule.form.lead with
  | anywhere =>
      simp only [Rule.readAt?, hlead, LeadIn.admits_anywhere_iff, Rule.requestOf?_eq_some_iff]
      refine ⟨fun h => ?_, fun h => ?_⟩
      · obtain ⟨form, rest, rfl, hform⟩ := h
        exact ⟨[], form, rest, rfl, rfl, hform⟩
      · obtain ⟨_, form, rest, rfl, rfl, hform⟩ := h
        exact ⟨form, rest, rfl, hform⟩
  | boundary =>
      simp only [Rule.readAt?, hlead, LeadIn.admits_boundary_iff, Option.ite_none_right_eq_some,
        Rule.requestOf?_eq_some_iff]
      refine ⟨fun h => ?_, fun h => ?_⟩
      · obtain ⟨edge, form, rest, rfl, hform⟩ := h
        exact ⟨[], form, rest, rfl, ⟨rfl, edge⟩, hform⟩
      · obtain ⟨_, form, rest, rfl, ⟨rfl, edge⟩, hform⟩ := h
        exact ⟨edge, form, rest, rfl, hform⟩
  | undotted =>
      simp only [Rule.readAt?, hlead, LeadIn.admits_undotted_iff, Option.or_eq_some_iff,
        List.getLast?_eq_none_iff, Option.ite_none_right_eq_some]
      refine ⟨fun h => ?_, fun h => ?_⟩
      · rcases h with ⟨⟨rfl, edge⟩, h⟩ | ⟨-, h⟩
        · obtain ⟨form, rest, rfl, hform⟩ := Rule.requestOf?_eq_some_iff.mp h
          exact ⟨[], form, rest, rfl, .inl ⟨rfl, rfl, edge⟩, hform⟩
        · cases cs with
          | nil => cases h
          | cons c cs =>
              obtain ⟨⟨nodot, edge⟩, h⟩ := Option.ite_none_right_eq_some.mp h
              obtain ⟨form, rest, rfl, hform⟩ := Rule.requestOf?_eq_some_iff.mp h
              exact ⟨[c], form, rest, rfl, .inr ⟨c, rfl, nodot, edge⟩, hform⟩
      · obtain ⟨_, form, rest, rfl, ⟨rfl, rfl, edge⟩ | ⟨c, rfl, nodot, edge⟩, hform⟩ := h
        · exact .inl ⟨⟨rfl, edge⟩, Rule.requestOf?_eq_some_iff.mpr ⟨form, rest, rfl, hform⟩⟩
        · have h : rule.requestOf? (form ++ rest) = some request :=
            Rule.requestOf?_eq_some_iff.mpr ⟨form, rest, rfl, hform⟩
          -- The start of the line is tried first, so it has to fail here.
          have hstart : rule.requestOf? (c :: (form ++ rest)) = none := by
            by_contra hne
            obtain ⟨request', h'⟩ := Option.ne_none_iff_exists'.mp hne
            rw [Rule.requestOf?_tail_eq_none hlead h'] at h
            cases h
          refine .inr ⟨by simp [hstart], ?_⟩
          show (if c ≠ '.' ∧ isBoundary (some c) (form ++ rest).head? = true then
            rule.requestOf? (form ++ rest) else none) = some request
          rw [if_pos ⟨nodot, edge⟩, h]

/-! ### The whole line -/

theorem Rule.OccursAt.request_unique {rule : Rule} {line request request' : List Char}
    {start : Nat} (h : rule.OccursAt line start request)
    (h' : rule.OccursAt line start request') : request = request' := by
  obtain ⟨left, taken, form, rest, rfl, rfl, hlead, hform⟩ := h
  rw [List.append_assoc, List.append_assoc] at h'
  have hread := Rule.readAt?_eq_some_iff.mpr h'
  have hread' := Rule.readAt?_eq_some_iff.mpr
    (Rule.occursAt_length_iff.mpr ⟨taken, form, rest, rfl, hlead, hform⟩)
  rw [← List.append_assoc] at hread
  exact Option.some.inj (hread'.symm.trans hread)

theorem Rule.OccursAt.start_le_length {rule : Rule} {line request : List Char} {start : Nat}
    (h : rule.OccursAt line start request) : start ≤ line.length := by
  obtain ⟨left, taken, form, rest, rfl, rfl, -, -⟩ := h
  simp only [List.length_append]
  omega

theorem Rule.search?_eq_some_iff {rule : Rule} {left cs request : List Char} :
    rule.search? left.getLast? cs = some request ↔
      ∃ start, left.length ≤ start ∧ rule.OccursAt (left ++ cs) start request ∧
        ∀ start' request', left.length ≤ start' →
          rule.OccursAt (left ++ cs) start' request' → start ≤ start' := by
  -- the text behind the place that is tried gets shorter, the text before it longer
  induction cs generalizing left with
  | nil =>
      rw [Rule.search?, Rule.readAt?_eq_some_iff]
      refine ⟨fun h => ?_, fun h => ?_⟩
      · exact ⟨left.length, le_rfl, h, fun _ _ hstart _ => hstart⟩
      · obtain ⟨start, hstart, h, -⟩ := h
        have hle := h.start_le_length
        rw [List.append_nil] at hle
        rwa [Nat.le_antisymm hle hstart] at h
  | cons c cs ih =>
      have ih := @ih (left ++ [c])
      rw [List.getLast?_concat, List.append_assoc, List.singleton_append, List.length_append,
        List.length_singleton] at ih
      rw [Rule.search?, Option.or_eq_some_iff, Rule.readAt?_eq_some_iff, ih]
      refine ⟨fun h => ?_, fun h => ?_⟩
      · rcases h with h | ⟨hnone, start, hstart, h, hfirst⟩
        · exact ⟨left.length, le_rfl, h, fun _ _ hstart _ => hstart⟩
        · refine ⟨start, by omega, h, fun start' request' hstart' h' => ?_⟩
          rcases Nat.eq_or_lt_of_le hstart' with rfl | hlt
          · rw [Rule.readAt?_eq_some_iff.mpr h'] at hnone
            cases hnone
          · exact hfirst start' request' hlt h'
      · obtain ⟨start, hstart, h, hfirst⟩ := h
        rcases Nat.eq_or_lt_of_le hstart with rfl | hlt
        · exact .inl h
        · refine .inr ⟨?_, start, hlt, h, fun start' request' hstart' h' =>
            hfirst start' request' (by omega) h'⟩
          by_contra hne
          obtain ⟨request', h'⟩ := Option.ne_none_iff_exists'.mp hne
          have := hfirst _ _ le_rfl (Rule.readAt?_eq_some_iff.mp h')
          omega

theorem Rule.search?_none_eq_some_iff {rule : Rule} {line request : List Char} :
    rule.search? none line = some request ↔ rule.FirstIn line request := by
  have h := @Rule.search?_eq_some_iff rule [] line request
  simpa [Rule.FirstIn] using h

theorem Rule.OccursAt.exists_firstIn {rule : Rule} {line request : List Char} {start : Nat}
    (h : rule.OccursAt line start request) : ∃ request', rule.FirstIn line request' := by
  induction start using Nat.strong_induction_on generalizing request with
  | _ start ih =>
      by_cases hlt : ∃ start' request', start' < start ∧ rule.OccursAt line start' request'
      · obtain ⟨start', request', hlt, h'⟩ := hlt
        exact ih start' hlt h'
      · refine ⟨request, start, h, fun start' request' h' => ?_⟩
        by_contra hle
        exact hlt ⟨start', request', by omega, h'⟩

theorem Rule.OccursAt.encloses {rule : Rule} {line request : List Char} {start : Nat}
    (h : rule.OccursAt line start request) : rule.quote.Encloses request := by
  obtain ⟨-, -, -, -, -, -, -, ⟨-, henc, -⟩⟩ := h
  exact henc

theorem Rule.OccursAt.isInfix {rule : Rule} {line request : List Char} {start : Nat}
    (h : rule.OccursAt line start request) : request <:+: line := by
  obtain ⟨left, taken, _, rest, rfl, -, -, ⟨-, -, -⟩⟩ := h
  rename_i front back
  exact ⟨left ++ taken ++ front ++ [rule.quote.char], rule.quote.char :: back ++ rest, by simp⟩

/-! ### All rules -/

/-- The rules that answer for a line, each with its answer. -/
def answersIn (line : List Char) : List (Rule × List Char) :=
  rules.filterMap fun rule => (rule.search? none line).map fun request => (rule, request)

theorem nodup_rules : rules.Nodup := by decide

theorem mem_rules (rule : Rule) : rule ∈ rules := by
  obtain ⟨kind, quote⟩ := rule
  cases kind <;> cases quote <;> decide

theorem mem_answersIn {line request : List Char} {rule : Rule} :
    (rule, request) ∈ answersIn line ↔ rule.FirstIn line request := by
  simp only [answersIn, List.mem_filterMap, Option.map_eq_some_iff, Prod.mk.injEq,
    Rule.search?_none_eq_some_iff]
  refine ⟨fun h => ?_, fun h => ?_⟩
  · obtain ⟨_, -, _, h, rfl, rfl⟩ := h
    exact h
  · exact ⟨rule, mem_rules rule, request, h, rfl, rfl⟩

theorem map_fst_answersIn_sublist (line : List Char) :
    ((answersIn line).map Prod.fst).Sublist rules := by
  have heq : (answersIn line).map Prod.fst =
      rules.filter fun rule => (rule.search? none line).isSome := by
    rw [answersIn, List.map_filterMap, ← List.filterMap_eq_filter]
    congr 1
    funext rule
    cases h : rule.search? none line <;> simp [Option.guard, h]
  rw [heq]
  exact List.filter_sublist

theorem specifiersInChars_eq_map_answersIn (line : List Char) :
    specifiersInChars line =
      (answersIn line).map fun answer => ⟨answer.1.kind, String.ofList answer.2⟩ := by
  rw [specifiersInChars, answersIn, List.map_filterMap]
  simp only [Option.map_map, Function.comp_def]

theorem mem_specifiersInChars {line : List Char} {specifier : Specifier} :
    specifier ∈ specifiersInChars line ↔
      ∃ rule request, Rule.FirstIn rule line request ∧
        specifier = ⟨rule.kind, String.ofList request⟩ := by
  simp only [specifiersInChars_eq_map_answersIn, List.mem_map, Prod.exists, mem_answersIn,
    eq_comm]

/-- Each rule answers with the request of its first occurrence in the line, if
it occurs there at all, and the answers stand in the order of the rules. -/
theorem specifiersInLine_first_occurrences (line : String) :
    ∃ answers : List (Rule × List Char),
      specifiersInLine line =
          answers.map (fun answer => ⟨answer.1.kind, String.ofList answer.2⟩) ∧
        rules.Nodup ∧ (answers.map Prod.fst).Sublist rules ∧
        (∀ rule ∈ rules, rule ∈ answers.map Prod.fst ↔
          ∃ start request, rule.OccursAt line.toList start request) ∧
        ∀ rule request, (rule, request) ∈ answers →
          (∃ start, rule.OccursAt line.toList start request ∧
            (∀ start' request', rule.OccursAt line.toList start' request' → start ≤ start') ∧
            ∀ request', rule.OccursAt line.toList start request' → request' = request) ∧
          request ≠ [] ∧ rule.quote.char ∉ request ∧ request <:+: line.toList := by
  refine ⟨answersIn line.toList, specifiersInChars_eq_map_answersIn _, nodup_rules,
    map_fst_answersIn_sublist _, fun rule _ => ?_, fun rule request hmem => ?_⟩
  · simp only [List.mem_map, Prod.exists, exists_and_right, exists_eq_right, mem_answersIn]
    refine ⟨fun h => ?_, fun h => ?_⟩
    · obtain ⟨request, start, h, -⟩ := h
      exact ⟨start, request, h⟩
    · obtain ⟨start, request, h⟩ := h
      exact h.exists_firstIn
  · obtain ⟨start, h, hfirst⟩ := mem_answersIn.mp hmem
    obtain ⟨hne, hfree⟩ := h.encloses
    exact ⟨⟨start, h, hfirst, fun request' h' => h'.request_unique h⟩, hne, hfree, h.isInfix⟩

end DependencyAudit.Import
