import DependencyAudit.Package.Name
import DependencyAudit.Proofs.Cutting

/-!
The package name at the beginning of a specifier. A name may go on as long as name
characters follow, so whichever name a text begins with, the characters behind it
lead to the same longest one, and that is the one that is read. A colon behind it
makes it a scheme. All other specifiers without a package are told by their first
characters.
-/

namespace DependencyAudit.Package

variable {cs name rest : List Char}

/-! ### Reading a name -/

theorem not_isScopeChar_at : ¬ isScopeChar '@' = true := by decide

theorem isNameChar_slash : isNameChar '/' = false := by decide

theorem isNameChar_colon : isNameChar ':' = false := by decide

theorem isScopeChar_eq_false_of_isUpper {c : Char} (h : c.isUpper = true) :
    isScopeChar c = false := by
  obtain ⟨hlower, hupper⟩ : 'A' ≤ c ∧ c ≤ 'Z' := of_decide_eq_true h
  rw [Bool.eq_false_iff]
  intro hc
  simp only [isScopeChar, Bool.or_eq_true, Bool.and_eq_true, decide_eq_true_iff, beq_iff_eq] at hc
  rcases hc with (((⟨hc, -⟩ | ⟨-, hc⟩) | rfl) | rfl) | rfl
  · exact absurd (Char.le_trans hc hupper) (by decide)
  · exact absurd (Char.le_trans hlower hc) (by decide)
  · exact absurd hlower (by decide)
  · exact absurd hupper (by decide)
  · exact absurd hlower (by decide)

/-- A name with further name characters behind it is a name. -/
theorem IsName.append {run : List Char} (h : IsName name)
    (hrun : ∀ d ∈ run, isNameChar d = true) : IsName (name ++ run) := by
  have hall : ∀ tail : List Char, (∀ d ∈ tail, isNameChar d = true) →
      ∀ d ∈ tail ++ run, isNameChar d = true := by
    intro tail htail d hd
    rcases List.mem_append.mp hd with hd | hd
    · exact htail d hd
    · exact hrun d hd
  cases h with
  | plain head tail => exact .plain head (hall _ tail)
  | @withScope scope c cs nonempty chars head tail =>
      have htext : '@' :: scope ++ '/' :: c :: cs ++ run =
          '@' :: scope ++ '/' :: c :: (cs ++ run) := by simp
      rw [htext]
      exact .withScope nonempty chars head (hall _ tail)

theorem exists_of_readPlain (h : readPlain cs = some (name, rest)) :
    ∃ c tail following, name = c :: tail ∧ cs = c :: following ∧ isScopeChar c = true ∧
      Text.LongestRun (isNameChar · = true) following tail rest := by
  cases cs with
  | nil => cases h
  | cons c cs =>
      simp only [readPlain, Option.ite_none_right_eq_some, Option.some.injEq, Prod.mk.injEq] at h
      obtain ⟨hc, rfl, rfl⟩ := h
      exact ⟨c, _, cs, rfl, rfl, hc, Text.longestRun_takeWhile (fun _ => Iff.rfl) cs⟩

theorem exists_of_readScoped (h : readScoped cs = some (name, rest)) :
    ∃ scope following plain, scope ≠ [] ∧ (∀ d ∈ scope, isScopeChar d = true) ∧
      cs = scope ++ '/' :: following ∧ readPlain following = some (plain, rest) ∧
      name = '@' :: scope ++ '/' :: plain := by
  unfold readScoped at h
  split at h
  next => cases h
  next following hdrop hnonempty =>
    obtain ⟨⟨plain, rest'⟩, hplain, heq⟩ := Option.map_eq_some_iff.mp h
    obtain ⟨rfl, rfl⟩ := Prod.mk.inj heq
    have hscope := Text.longestRun_takeWhile (P := (isScopeChar · = true)) (fun _ => Iff.rfl) cs
    rw [hdrop] at hscope
    exact ⟨_, following, plain, hnonempty, hscope.all, hscope.append, hplain, rfl⟩
  next => cases h

theorem isName_of_readName (h : readName cs = some (name, rest)) :
    cs = name ++ rest ∧ IsName name ∧ ∀ d ∈ rest.head?, ¬ isNameChar d = true := by
  unfold readName at h
  split at h
  next cs =>
    obtain ⟨scope, following, plain, nonempty, chars, rfl, hplain, rfl⟩ := exists_of_readScoped h
    obtain ⟨c, tail, following, rfl, rfl, head, ⟨rfl, hall, hstop⟩⟩ := exists_of_readPlain hplain
    exact ⟨by simp, .withScope nonempty chars head hall, hstop⟩
  next =>
    obtain ⟨c, tail, following, rfl, rfl, head, ⟨rfl, hall, hstop⟩⟩ := exists_of_readPlain h
    exact ⟨rfl, .plain head hall, hstop⟩

theorem readPlain_append_eq {c : Char} {cs rest : List Char} (head : isScopeChar c = true)
    (tail : ∀ d ∈ cs, isNameChar d = true) (hrest : ∀ d ∈ rest.head?, ¬ isNameChar d = true) :
    readPlain (c :: cs ++ rest) = some (c :: cs, rest) := by
  obtain ⟨htake, hdrop⟩ :=
    (Text.longestRun_iff fun d => Iff.rfl).mp
      (⟨rfl, tail, hrest⟩ : Text.LongestRun (isNameChar · = true) (cs ++ rest) cs rest)
  rw [List.cons_append, readPlain, if_pos head, htake, hdrop]

/-- A name is read off the front of a text unless it goes on there. -/
theorem readName_append_eq (h : IsName name) (hrest : ∀ d ∈ rest.head?, ¬ isNameChar d = true) :
    readName (name ++ rest) = some (name, rest) := by
  cases h with
  | @plain c cs head tail =>
      have hat : c ≠ '@' := by
        rintro rfl
        exact not_isScopeChar_at head
      rw [← readPlain_append_eq head tail hrest, List.cons_append, readName]
      rintro _ ⟨⟩
      exact hat rfl
  | @withScope scope c cs nonempty chars head tail =>
      have hscope : Text.LongestRun (isScopeChar · = true) (scope ++ '/' :: (c :: cs ++ rest))
          scope ('/' :: (c :: cs ++ rest)) := by
        refine ⟨rfl, chars, fun d hd => ?_⟩
        obtain rfl := Option.some.inj hd
        decide
      obtain ⟨htake, hdrop⟩ := (Text.longestRun_iff fun d => Iff.rfl).mp hscope
      obtain ⟨s, scope, rfl⟩ := List.exists_cons_of_ne_nil nonempty
      have htext : '@' :: (s :: scope) ++ '/' :: c :: cs ++ rest =
          '@' :: (s :: scope ++ '/' :: (c :: cs ++ rest)) := by simp
      rw [htext, readName, readScoped, htake, hdrop]
      simp only [readPlain_append_eq head tail hrest]
      rfl

theorem readName_eq_some_iff :
    readName cs = some (name, rest) ↔
      cs = name ++ rest ∧ IsName name ∧ ∀ d ∈ rest.head?, ¬ isNameChar d = true := by
  refine ⟨isName_of_readName, fun h => ?_⟩
  obtain ⟨rfl, hname, hrest⟩ := h
  exact readName_append_eq hname hrest

/-- A text that begins with a name is read as the name that goes on to the last name
character. -/
theorem readName_append_run (h : IsName name) (more : List Char) :
    readName (name ++ more) =
      some (name ++ more.takeWhile isNameChar, more.dropWhile isNameChar) := by
  obtain ⟨happend, hall, hstop⟩ :=
    Text.longestRun_takeWhile (P := (isNameChar · = true)) (fun _ => Iff.rfl) more
  refine readName_eq_some_iff.mpr ⟨?_, h.append hall, hstop⟩
  rw [List.append_assoc, ← happend]

theorem readName_eq_none_iff :
    readName cs = none ↔ ∀ name, IsName name → ¬ name <+: cs := by
  refine ⟨fun h name hname hprefix => ?_, fun h => ?_⟩
  · obtain ⟨more, rfl⟩ := hprefix
    rw [readName_append_run hname] at h
    cases h
  · by_contra hne
    obtain ⟨⟨name, rest⟩, hsome⟩ := Option.ne_none_iff_exists'.mp hne
    obtain ⟨rfl, hname, -⟩ := isName_of_readName hsome
    exact h name hname (List.prefix_append name rest)

/-! ### The package of a specifier -/

theorem nameOf_eq_some_iff {specifier package : String} :
    nameOf specifier = some package ↔
      ∃ rest, specifier = package ++ rest ∧ IsName package.toList ∧
        ∀ c ∈ rest.toList.head?, isNameChar c = false ∧ c ≠ ':' := by
  refine ⟨fun h => ?_, fun h => ?_⟩
  · rw [nameOf] at h
    split at h
    next => cases h
    next name rest hread =>
      obtain ⟨hcolon, heq⟩ := Option.ite_none_left_eq_some.mp h
      obtain rfl := Option.some.inj heq
      obtain ⟨happend, hname, hstop⟩ := isName_of_readName hread
      refine ⟨String.ofList rest, ?_, by rwa [String.toList_ofList], fun c hc => ?_⟩
      · rw [← String.toList_inj, happend]
        simp
      · rw [String.toList_ofList] at hc
        refine ⟨Bool.eq_false_iff.mpr (hstop c hc), ?_⟩
        rintro rfl
        exact hcolon hc
  · obtain ⟨rest, rfl, hname, hrest⟩ := h
    have hread : readName (package.toList ++ rest.toList) = some (package.toList, rest.toList) :=
      readName_append_eq hname fun d hd => by simp [(hrest d hd).1]
    have hcolon : rest.toList.head? ≠ some ':' := fun hhead => (hrest ':' hhead).2 rfl
    rw [nameOf, String.toList_append, hread]
    simp only [if_neg hcolon, String.ofList_toList]

theorem nameOf_eq_of_isName {package : String} (h : IsName package.toList) :
    nameOf package = some package :=
  nameOf_eq_some_iff.mpr ⟨"", by simp, h, by simp⟩

theorem nameOf_path_eq {package : String} (h : IsName package.toList) (rest : String) :
    nameOf (package ++ "/" ++ rest) = some package :=
  nameOf_eq_some_iff.mpr
    ⟨"/" ++ rest, String.append_assoc, h, by simp [isNameChar_slash]⟩

theorem prefix_of_nameOf {specifier package : String} (h : nameOf specifier = some package)
    (hname : IsName name) (hbegins : name <+: specifier.toList) : name <+: package.toList := by
  obtain ⟨rest, rfl, hpackage, hrest⟩ := nameOf_eq_some_iff.mp h
  obtain ⟨more, hmore⟩ := hbegins
  have hstop : ∀ d ∈ rest.toList.head?, ¬ isNameChar d = true := fun d hd => by
    simp [(hrest d hd).1]
  have hread := readName_append_run hname more
  rw [hmore, String.toList_append, readName_append_eq hpackage hstop] at hread
  obtain ⟨heq, -⟩ := Prod.mk.inj (Option.some.inj hread)
  rw [heq]
  exact List.prefix_append _ _

/-! ### Specifiers without a package -/

/-- What a specifier that names no package is like. -/
inductive Nameless : List Char → Prop
  | empty : Nameless []
  /-- A dot, a slash, an upper-case letter or another character that no name begins with. -/
  | foreign {c : Char} {cs : List Char} (unnamed : isScopeChar c = false) (unscoped : c ≠ '@') :
      Nameless (c :: cs)
  /-- An at sign without a scope, a slash and the first character of a name behind it. -/
  | incompleteScope {cs : List Char}
      (incomplete : ∀ scope c, scope ≠ [] → (∀ d ∈ scope, isScopeChar d = true) →
        isScopeChar c = true → ¬ scope ++ ['/', c] <+: cs) : Nameless ('@' :: cs)
  /-- A name with a colon behind it, as in a URL. -/
  | scheme {name rest : List Char} (isName : IsName name) : Nameless (name ++ ':' :: rest)

theorem nameOf_eq_none_iff {specifier : String} :
    nameOf specifier = none ↔
      readName specifier.toList = none ∨
        ∃ name rest, IsName name ∧ specifier.toList = name ++ ':' :: rest := by
  refine ⟨fun h => ?_, fun h => ?_⟩
  · rw [nameOf] at h
    split at h
    next hread => exact .inl hread
    next name rest hread =>
      right
      obtain ⟨happend, hname, -⟩ := isName_of_readName hread
      have hcolon : rest.head? = some ':' := by
        by_contra hne
        rw [if_neg hne] at h
        cases h
      obtain ⟨rest, rfl⟩ := List.head?_eq_some_iff.mp hcolon
      exact ⟨name, rest, hname, happend⟩
  · rcases h with hread | ⟨name, rest, hname, htext⟩
    · rw [nameOf, hread]
    · have hread : readName (name ++ ':' :: rest) = some (name, ':' :: rest) :=
        readName_append_eq hname (by simp [isNameChar_colon])
      rw [nameOf, htext, hread]
      rfl

theorem not_prefix_of_foreign {c : Char} (hc : isScopeChar c = false) (hat : c ≠ '@')
    (hname : IsName name) : ¬ name <+: c :: cs := by
  intro hprefix
  cases hname with
  | plain head =>
      obtain ⟨rfl, -⟩ := List.cons_prefix_cons.mp hprefix
      rw [hc] at head
      cases head
  | withScope => exact hat (List.cons_prefix_cons.mp hprefix).1.symm

theorem not_prefix_of_incompleteScope
    (h : ∀ scope c, scope ≠ [] → (∀ d ∈ scope, isScopeChar d = true) →
      isScopeChar c = true → ¬ scope ++ ['/', c] <+: cs)
    (hname : IsName name) : ¬ name <+: '@' :: cs := by
  intro hprefix
  cases hname with
  | plain head =>
      obtain ⟨rfl, -⟩ := List.cons_prefix_cons.mp hprefix
      exact not_isScopeChar_at head
  | @withScope scope c tail nonempty chars head =>
      obtain ⟨-, hprefix⟩ := List.cons_prefix_cons.mp hprefix
      refine h scope c nonempty chars head (List.IsPrefix.trans ⟨tail, ?_⟩ hprefix)
      simp

theorem nameless_of_readName (h : readName cs = none) : Nameless cs := by
  have hnone := readName_eq_none_iff.mp h
  cases cs with
  | nil => exact .empty
  | cons c cs =>
      by_cases hat : c = '@'
      · subst hat
        refine .incompleteScope fun scope c nonempty chars head hprefix => ?_
        have hname : IsName ('@' :: scope ++ '/' :: [c]) :=
          .withScope nonempty chars head (by simp)
        exact hnone _ hname (List.cons_prefix_cons.mpr ⟨rfl, hprefix⟩)
      · refine .foreign ?_ hat
        by_contra hc
        have hname : IsName [c] := .plain (by simpa using hc) (by simp)
        exact hnone _ hname (List.cons_prefix_cons.mpr ⟨rfl, List.nil_prefix⟩)

theorem nameless_iff :
    Nameless cs ↔ readName cs = none ∨ ∃ name rest, IsName name ∧ cs = name ++ ':' :: rest := by
  refine ⟨fun h => ?_, fun h => ?_⟩
  · cases h with
    | empty => exact .inl rfl
    | foreign unnamed unscoped =>
        exact .inl (readName_eq_none_iff.mpr fun _ => not_prefix_of_foreign unnamed unscoped)
    | incompleteScope incomplete =>
        exact .inl (readName_eq_none_iff.mpr fun _ => not_prefix_of_incompleteScope incomplete)
    | scheme isName => exact .inr ⟨_, _, isName, rfl⟩
  · rcases h with hread | ⟨name, rest, hname, rfl⟩
    · exact nameless_of_readName hread
    · exact .scheme hname

/-- A specifier names the package whose name is the longest it begins with, unless a
colon follows that name; those that name none are known by how they begin. -/
theorem nameOf_longest_name (specifier : String) :
    (∀ package, nameOf specifier = some package ↔
        ∃ rest, specifier = package ++ rest ∧ IsName package.toList ∧
          ∀ c ∈ rest.toList.head?, isNameChar c = false ∧ c ≠ ':') ∧
      (∀ package, nameOf specifier = some package →
        ∀ name, IsName name → name <+: specifier.toList → name <+: package.toList) ∧
      (nameOf specifier = none ↔ Nameless specifier.toList) ∧
      ∀ c ∈ specifier.toList.head?, c = '.' ∨ c = '/' ∨ c.isUpper = true →
        nameOf specifier = none := by
  refine ⟨fun _ => nameOf_eq_some_iff, fun _ h _ hname => prefix_of_nameOf h hname,
    nameOf_eq_none_iff.trans nameless_iff.symm, fun c hc hforeign => ?_⟩
  obtain ⟨hscope, hat⟩ : isScopeChar c = false ∧ c ≠ '@' := by
    rcases hforeign with rfl | rfl | hupper
    · decide
    · decide
    · refine ⟨isScopeChar_eq_false_of_isUpper hupper, ?_⟩
      rintro rfl
      cases hupper
  obtain ⟨rest, hrest⟩ := List.head?_eq_some_iff.mp hc
  rw [nameOf_eq_none_iff, ← nameless_iff, hrest]
  exact .foreign hscope hat

end DependencyAudit.Package
