import DependencyAudit.Header.Reader
import DependencyAudit.Proofs.Cutting
import Mathlib.Data.List.Forall2

/-!
The grammar of headers, and what reading says of a text that is none. The
relations below describe a header from the rows of its text on: which rows
count, what a title is, where the labelled rows have their places. They share
the notion of a line and of trimming with the reader and nothing else. A
verdict is either a header or the first stage that fails, and every text has
exactly one, which is what reading gives.
-/

namespace DependencyAudit.Header

open DependencyAudit.Text

/-! ### The comment block -/

/-- The row begins with two slashes and not with three. -/
def IsComment (row : List Char) : Prop :=
  "//".toList <+: row ∧ ¬ "///".toList <+: row

/-- The block of a text: byte order marks and blank rows are left out, and what
counts are the comment rows that follow. -/
inductive IsBlock (text : List Char) : List (List Char) → Prop
  | intro {marks body : List Char} {blanks rows comments others : List (List Char)}
      (afterMarks : LongestRun (· = '\uFEFF') text marks body)
      (afterBlanks : LongestRun (fun row => trim row = []) (lines body) blanks rows)
      (run : LongestRun (fun row => IsComment (trim row)) rows comments others) :
      IsBlock text (comments.map fun row => trim ((trim row).drop 2))

theorem isComment_iff {row : List Char} : isComment row = true ↔ IsComment row := by
  unfold isComment IsComment
  split
  next rest => simp
  next rest h =>
    have hthird : ∀ tail, rest ≠ '/' :: tail := fun tail heq => h tail (by rw [heq])
    cases rest with
    | nil => simp
    | cons c rest =>
        have hc : '/' ≠ c := fun heq => hthird rest (by rw [heq])
        simpa using hc
  next h =>
    have hnot : ¬ "//".toList <+: row := by
      rintro ⟨rest, rfl⟩
      exact h _ rfl
    simp only [Bool.false_eq_true, false_iff]
    exact fun hcomment => hnot hcomment.1

theorem commentBlock_eq_iff {text : List Char} {block : List (List Char)} :
    commentBlock text = block ↔ IsBlock text block := by
  have hmark : ∀ c : Char, decide (c = '\uFEFF') = true ↔ c = '\uFEFF' := fun c =>
    decide_eq_true_iff
  have hblank : ∀ row : List Char, ((·.isEmpty) ∘ trim) row = true ↔ trim row = [] := by simp
  have hcomment : ∀ row : List Char, (isComment ∘ trim) row = true ↔ IsComment (trim row) :=
    fun row => isComment_iff
  simp only [commentBlock, List.dropWhile_map, List.takeWhile_map, List.map_map]
  refine ⟨fun h => ?_, fun h => ?_⟩
  · subst h
    exact .intro (longestRun_takeWhile hmark _) (longestRun_takeWhile hblank _)
      (longestRun_takeWhile hcomment _)
  · obtain ⟨hmarks, hblanks, hrun⟩ := h
    rw [((longestRun_iff hmark).mp hmarks).2, ((longestRun_iff hblank).mp hblanks).2,
      ((longestRun_iff hcomment).mp hrun).1]
    rfl

/-! ### Titles -/

/-- The number that decimal digits stand for. -/
def decimal (digits : List Char) : Nat :=
  Nat.ofDigitChars 10 digits 0

/-- A number: one or more digits, with or without a plus sign, whose value fits
into thirty-two bits. -/
inductive IsNumber : List Char → Nat → Prop
  | plain {digits : List Char} (nonempty : digits ≠ []) (digit : ∀ d ∈ digits, d.isDigit = true)
      (bound : decimal digits ≤ 4294967295) : IsNumber digits (decimal digits)
  | plus {digits : List Char} (nonempty : digits ≠ []) (digit : ∀ d ∈ digits, d.isDigit = true)
      (bound : decimal digits ≤ 4294967295) : IsNumber ('+' :: digits) (decimal digits)

/-- A version: one number, or two around a dot. -/
inductive IsVersion : List Char → Nat → Nat → Prop
  | major {cs : List Char} {n : Nat} (number : IsNumber cs n) : IsVersion cs n 0
  | minor {cs ds : List Char} {n m : Nat} (first : IsNumber cs n) (second : IsNumber ds m) :
      IsVersion (cs ++ '.' :: ds) n m

/-- What a title says behind its lead, and whether the name is marked as one
that no package installs. -/
inductive Names : List Char → Bool → List Char → Prop
  | nonNpm {named : List Char} : Names (nonNpmLead.toList ++ named) true named
  | npm {named : List Char} (unmarked : ¬ nonNpmLead.toList <+: named) : Names named false named

/-- What there is to say of a title. -/
inductive TitleVerdict : List Char → Except Error Title → Prop
  | missing {title : List Char} (leadless : ¬ titleLead.toList <+: title) :
      TitleVerdict title (.error .missing)
  | missingVersion {rest named : List Char} {nonNpm : Bool} (names : Names rest nonNpm named)
      (unspaced : ' ' ∉ trim named) :
      TitleVerdict (titleLead.toList ++ rest)
        (.error (.missingVersion (String.ofList (titleLead.toList ++ rest))))
  | invalidVersion {rest named name version : List Char} {nonNpm : Bool}
      (names : Names rest nonNpm named) (cut : trim named = name ++ ' ' :: version)
      (last : ' ' ∉ version) (invalid : ∀ major minor, ¬ IsVersion version major minor) :
      TitleVerdict (titleLead.toList ++ rest)
        (.error (.invalidVersion (String.ofList version)))
  | ok {rest named name version : List Char} {nonNpm : Bool} {major minor : UInt32}
      (names : Names rest nonNpm named) (cut : trim named = name ++ ' ' :: version)
      (last : ' ' ∉ version) (valid : IsVersion version major.toNat minor.toNat) :
      TitleVerdict (titleLead.toList ++ rest)
        (.ok ⟨String.ofList (trim name), major, minor, nonNpm⟩)

/-- The digits of a number that is written with or without a plus sign. -/
def unsigned : List Char → List Char
  | '+' :: digits => digits
  | digits => digits

theorem readNumber?_eq_some_iff_unsigned {cs : List Char} {n : UInt32} :
    readNumber? cs = some n ↔
      unsigned cs ≠ [] ∧ (∀ d ∈ unsigned cs, d.isDigit = true) ∧
        decimal (unsigned cs) ≤ 4294967295 ∧ n.toNat = decimal (unsigned cs) := by
  have hdef : readNumber? cs =
      if unsigned cs ≠ [] ∧ (unsigned cs).all Char.isDigit then
        if decimal (unsigned cs) < UInt32.size then some (.ofNat (decimal (unsigned cs))) else none
      else none := rfl
  rw [hdef, Option.ite_none_right_eq_some, List.all_eq_true, and_assoc,
    Option.ite_none_right_eq_some, Option.some.injEq, show UInt32.size = 4294967296 from rfl]
  refine and_congr_right fun _ => and_congr_right fun _ => ?_
  refine ⟨fun h => ?_, fun h => ?_⟩
  · obtain ⟨hlt, rfl⟩ := h
    exact ⟨by omega, UInt32.toNat_ofNat_of_lt hlt⟩
  · obtain ⟨hle, hn⟩ := h
    exact ⟨by omega, by rw [← hn, UInt32.ofNat_toNat]⟩

theorem unsigned_cases (cs : List Char) : cs = '+' :: unsigned cs ∨ unsigned cs = cs := by
  unfold unsigned
  split
  · exact .inl rfl
  · exact .inr rfl

theorem readNumber?_eq_some_iff {cs : List Char} {n : UInt32} :
    readNumber? cs = some n ↔ IsNumber cs n.toNat := by
  rw [readNumber?_eq_some_iff_unsigned]
  refine ⟨fun h => ?_, fun h => ?_⟩
  · obtain ⟨hne, hdigit, hbound, hn⟩ := h
    rw [hn]
    rcases unsigned_cases cs with hplus | hplain
    · rw [hplus]
      exact .plus hne hdigit hbound
    · rw [hplain] at hne hdigit hbound ⊢
      exact .plain hne hdigit hbound
  · generalize hvalue : n.toNat = value at h
    cases h with
    | plus hne hdigit hbound => exact ⟨hne, hdigit, hbound, rfl⟩
    | plain hne hdigit hbound =>
        -- a plus sign is no digit
        have hunsigned : unsigned cs = cs := by
          refine (unsigned_cases cs).resolve_left fun hplus => ?_
          have hsign := hdigit '+' (by rw [hplus]; simp)
          cases hsign
        rw [hunsigned]
        exact ⟨hne, hdigit, hbound, rfl⟩

theorem IsNumber.not_mem_dot {cs : List Char} {n : Nat} (h : IsNumber cs n) : '.' ∉ cs := by
  have hdot : ∀ digits : List Char, (∀ d ∈ digits, d.isDigit = true) → '.' ∉ digits := by
    intro digits hdigits hmem
    have hdigit := hdigits '.' hmem
    cases hdigit
  cases h with
  | plain _ hdigit => exact hdot _ hdigit
  | plus _ hdigit => simpa using hdot _ hdigit

theorem readVersion?_eq_some_iff {cs : List Char} {major minor : UInt32} :
    readVersion? cs = some (major, minor) ↔ IsVersion cs major.toNat minor.toNat := by
  rw [readVersion?]
  refine ⟨fun h => ?_, fun h => ?_⟩
  · split at h
    next first hsplit =>
      simp only [Option.map_eq_some_iff, Prod.mk.injEq] at h
      obtain ⟨n, hnumber, rfl, rfl⟩ := h
      rcases splitOn_eq_iff.mp hsplit with _ | ⟨_, ⟨⟩⟩
      exact .major (readNumber?_eq_some_iff.mp hnumber)
    next first second hsplit =>
      obtain ⟨n, hnumber, hsecond⟩ := Option.bind_eq_some_iff.mp h
      obtain ⟨m, hnumber', hpair⟩ := Option.bind_eq_some_iff.mp hsecond
      obtain ⟨rfl, rfl⟩ : n = major ∧ m = minor := by simpa using hpair
      rcases splitOn_eq_iff.mp hsplit with _ | ⟨_, _ | ⟨_, ⟨⟩⟩⟩
      exact .minor (readNumber?_eq_some_iff.mp hnumber) (readNumber?_eq_some_iff.mp hnumber')
    next => cases h
  · generalize hmajor : major.toNat = n at h
    generalize hminor : minor.toNat = m at h
    cases h with
    | major number =>
        rw [← hmajor] at number
        obtain rfl : minor = 0 := UInt32.toNat_inj.mp hminor
        rw [splitOn_eq_iff.mpr (.last number.not_mem_dot)]
        simp only [readNumber?_eq_some_iff.mpr number, Option.map_some]
    | minor first second =>
        rw [← hmajor] at first
        rw [← hminor] at second
        rw [splitOn_eq_iff.mpr (.cons first.not_mem_dot (.last second.not_mem_dot))]
        simp only [readNumber?_eq_some_iff.mpr first, readNumber?_eq_some_iff.mpr second]
        rfl

theorem IsVersion.exists_toNat {cs : List Char} {n m : Nat} (h : IsVersion cs n m) :
    ∃ major minor : UInt32, IsVersion cs major.toNat minor.toNat := by
  have hfits : ∀ {ds : List Char} {k : Nat}, IsNumber ds k → ∃ value : UInt32, value.toNat = k := by
    intro ds k hnumber
    have hlt : k < UInt32.size := by
      cases hnumber <;> rw [show UInt32.size = 4294967296 from rfl] <;> omega
    exact ⟨.ofNat k, UInt32.toNat_ofNat_of_lt hlt⟩
  cases h with
  | major number =>
      obtain ⟨value, rfl⟩ := hfits number
      exact ⟨value, 0, .major number⟩
  | minor first second =>
      obtain ⟨value, rfl⟩ := hfits first
      obtain ⟨value', rfl⟩ := hfits second
      exact ⟨value, value', .minor first second⟩

theorem readVersion?_eq_none_iff {cs : List Char} :
    readVersion? cs = none ↔ ∀ major minor, ¬ IsVersion cs major minor := by
  refine ⟨fun h n m hversion => ?_, fun h => ?_⟩
  · obtain ⟨major, minor, hfits⟩ := hversion.exists_toNat
    rw [readVersion?_eq_some_iff.mpr hfits] at h
    cases h
  · by_contra hne
    obtain ⟨⟨major, minor⟩, hsome⟩ := Option.ne_none_iff_exists'.mp hne
    exact h _ _ (readVersion?_eq_some_iff.mp hsome)

theorem isPrefixOf?_eq_none_iff {front cs : List Char} :
    front.isPrefixOf? cs = none ↔ ¬ front <+: cs := by
  simp only [Option.eq_none_iff_forall_ne_some, ne_eq, List.isPrefixOf?_eq_some_iff_append_eq,
    List.IsPrefix, not_exists]

theorem cutAtLast_eq_none_iff {sep : Char} {cs : List Char} :
    cutAtLast sep cs = none ↔ sep ∉ cs := by
  refine ⟨fun h hmem => ?_, fun h => ?_⟩
  · obtain ⟨back, front, hsplit, hback⟩ := List.eq_append_cons_of_mem (List.mem_reverse.mpr hmem)
    have hcs : cs = front.reverse ++ sep :: back.reverse := by
      simpa using congrArg List.reverse hsplit
    rw [cutAtLast_eq_some_iff.mpr ⟨hcs, by simpa using hback⟩] at h
    cases h
  · by_contra hne
    obtain ⟨⟨front, back⟩, hsome⟩ := Option.ne_none_iff_exists'.mp hne
    obtain ⟨rfl, -⟩ := cutAtLast_eq_some_iff.mp hsome
    simp at h

/-- What stands behind the lead of a title, split into the mark and the rest. -/
def readMark (rest : List Char) : Bool × List Char :=
  match nonNpmLead.toList.isPrefixOf? rest with
  | some named => (true, named)
  | none => (false, rest)

theorem readMark_eq_iff {rest named : List Char} {nonNpm : Bool} :
    readMark rest = (nonNpm, named) ↔ Names rest nonNpm named := by
  rw [readMark]
  refine ⟨fun h => ?_, fun h => ?_⟩
  · split at h
    next named' hlead =>
      obtain ⟨rfl, rfl⟩ : true = nonNpm ∧ named' = named := by simpa using h
      obtain rfl := List.append_eq_of_isPrefixOf?_eq_some hlead
      exact .nonNpm
    next hlead =>
      obtain ⟨rfl, rfl⟩ : false = nonNpm ∧ rest = named := by simpa using h
      exact .npm (isPrefixOf?_eq_none_iff.mp hlead)
  · cases h with
    | nonNpm => rw [List.isPrefixOf?_eq_some_iff_append_eq.mpr rfl]
    | npm unmarked => rw [isPrefixOf?_eq_none_iff.mpr unmarked]

theorem readTitle_append (rest : List Char) :
    readTitle (titleLead.toList ++ rest) =
      match cutAtLast ' ' (trim (readMark rest).2) with
      | none => .error (.missingVersion (String.ofList (titleLead.toList ++ rest)))
      | some (library, version) =>
        match readVersion? version with
        | none => .error (.invalidVersion (String.ofList version))
        | some (major, minor) =>
          .ok ⟨String.ofList (trim library), major, minor, (readMark rest).1⟩ := by
  rw [readTitle, List.isPrefixOf?_eq_some_iff_append_eq.mpr rfl]
  rfl

theorem readTitle_eq_iff {title : List Char} {result : Except Error Title} :
    readTitle title = result ↔ TitleVerdict title result := by
  refine ⟨fun h => ?_, fun h => ?_⟩
  · subst h
    by_cases hlead : titleLead.toList <+: title
    · obtain ⟨rest, rfl⟩ := hlead
      have hnames : Names rest (readMark rest).1 (readMark rest).2 := readMark_eq_iff.mp rfl
      rw [readTitle_append]
      cases hcut : cutAtLast ' ' (trim (readMark rest).2) with
      | none => exact .missingVersion hnames (cutAtLast_eq_none_iff.mp hcut)
      | some parts =>
          obtain ⟨name, version⟩ := parts
          obtain ⟨hnamed, hlast⟩ := cutAtLast_eq_some_iff.mp hcut
          cases hversion : readVersion? version with
          | none =>
              simp only [hversion]
              exact .invalidVersion hnames hnamed hlast (readVersion?_eq_none_iff.mp hversion)
          | some numbers =>
              simp only [hversion]
              exact .ok hnames hnamed hlast (readVersion?_eq_some_iff.mp hversion)
    · rw [readTitle, isPrefixOf?_eq_none_iff.mpr hlead]
      exact .missing hlead
  · cases h with
    | missing hlead => rw [readTitle, isPrefixOf?_eq_none_iff.mpr hlead]
    | missingVersion names unspaced =>
        rw [readTitle_append, readMark_eq_iff.mpr names, cutAtLast_eq_none_iff.mpr unspaced]
    | invalidVersion names cut last invalid =>
        rw [readTitle_append, readMark_eq_iff.mpr names, cutAtLast_eq_some_iff.mpr ⟨cut, last⟩]
        simp only [readVersion?_eq_none_iff.mpr invalid]
    | ok names cut last valid =>
        rw [readTitle_append, readMark_eq_iff.mpr names, cutAtLast_eq_some_iff.mpr ⟨cut, last⟩]
        simp only [readVersion?_eq_some_iff.mpr valid]

/-! ### Labelled rows -/

/-- A row that carries on the list before it: it is not empty and begins with
none of the labels. -/
def Continues (row : List Char) : Prop :=
  row ≠ [] ∧ ∀ label : Label, ¬ label.text.toList <+: row

/-- The first row, if there is one, does not carry the label. -/
def Lacks (label : Label) (rows : List (List Char)) : Prop :=
  ∀ row ∈ rows.head?, ¬ label.text.toList <+: row

/-- A labelled list at the front of the rows: its values, the first of which
stands behind the label, and the rows after it. -/
inductive IsSection (label : Label) :
    List (List Char) → (values : List (List Char)) → (rest : List (List Char)) → Prop
  | intro {value : List Char} {rows more rest : List (List Char)}
      (run : LongestRun Continues rows more rest) :
      IsSection label ((label.text.toList ++ value) :: rows) (trim value :: more) rest

theorem mem_labels (label : Label) : label ∈ labels := by
  cases label <;> decide

theorem isContinuation_iff {row : List Char} : isContinuation row = true ↔ Continues row := by
  simp only [isContinuation, Continues, Bool.and_eq_true, Bool.not_eq_true',
    List.isEmpty_eq_false_iff, List.any_eq_false, List.isPrefixOf_iff_prefix]
  exact and_congr_right fun _ =>
    ⟨fun h label => h label (mem_labels label), fun h label _ => h label⟩

theorem readField_eq_error_iff {label : Label} {rows : List (List Char)} {e : Error} :
    readField label rows = .error e ↔ Lacks label rows ∧ e = .missingField label := by
  cases rows with
  | nil => simp [readField, Lacks, eq_comm]
  | cons row rows =>
      have hlacks : Lacks label (row :: rows) ↔ label.value? row = none := by
        simp [Lacks, Label.value?, isPrefixOf?_eq_none_iff]
      rw [readField, hlacks]
      cases label.value? row <;> simp [eq_comm]

theorem Label.value?_eq_some_iff {label : Label} {row value : List Char} :
    label.value? row = some value ↔
      ∃ text, row = label.text.toList ++ text ∧ value = trim text := by
  rw [Label.value?, Option.map_eq_some_iff]
  simp only [List.isPrefixOf?_eq_some_iff_append_eq]
  refine ⟨fun h => ?_, fun h => ?_⟩
  · obtain ⟨text, rfl, rfl⟩ := h
    exact ⟨text, rfl, rfl⟩
  · obtain ⟨text, rfl, rfl⟩ := h
    exact ⟨text, rfl, rfl⟩

theorem readField_eq_ok_iff {label : Label} {rows rest : List (List Char)} {value : List Char} :
    readField label rows = .ok (value, rest) ↔
      ∃ text, rows = (label.text.toList ++ text) :: rest ∧ value = trim text := by
  cases rows with
  | nil => simp [readField]
  | cons row rows =>
      rw [readField]
      refine ⟨fun h => ?_, fun h => ?_⟩
      · split at h
        next value' hvalue =>
          obtain ⟨rfl, rfl⟩ : value' = value ∧ rows = rest := by simpa using h
          obtain ⟨text, rfl, rfl⟩ := Label.value?_eq_some_iff.mp hvalue
          exact ⟨text, rfl, rfl⟩
        next => cases h
      · obtain ⟨text, hrows, rfl⟩ := h
        obtain ⟨rfl, rfl⟩ := List.cons.inj hrows
        rw [Label.value?_eq_some_iff.mpr ⟨text, rfl, rfl⟩]

theorem readListField_eq_error_iff {α : Type} {label : Label} {readItems : List Char → List α}
    {rows : List (List Char)} {e : Error} :
    readListField label readItems rows = .error e ↔ Lacks label rows ∧ e = .missingField label := by
  rw [← readField_eq_error_iff, readListField]
  cases readField label rows <;> simp

theorem readListField_eq_ok_iff {α : Type} {label : Label} {readItems : List Char → List α}
    {rows rest : List (List Char)} {items : List α} :
    readListField label readItems rows = .ok (items, rest) ↔
      ∃ values, IsSection label rows values rest ∧ items = values.flatMap readItems := by
  rw [readListField]
  refine ⟨fun h => ?_, fun h => ?_⟩
  · split at h
    next => cases h
    next value others hfield =>
      obtain ⟨rfl, rfl⟩ := Prod.mk.inj (Except.ok.inj h)
      obtain ⟨text, rfl, rfl⟩ := readField_eq_ok_iff.mp hfield
      exact ⟨_, .intro (longestRun_takeWhile (fun _ => isContinuation_iff) others), rfl⟩
  · obtain ⟨_, ⟨run⟩, rfl⟩ := h
    obtain ⟨hmore, hrest⟩ := (longestRun_iff fun _ => isContinuation_iff).mp run
    rw [readField_eq_ok_iff.mpr ⟨_, rfl, rfl⟩]
    simp only [hmore, hrest]

/-! ### Items -/

/-- The projects of a row: whatever stands between the commas and is not blank. -/
def IsProjectList (value : List Char) (projects : List String) : Prop :=
  ∃ parts, SplitBy ',' value parts ∧
    projects = ((parts.map trim).filter (· ≠ [])).map String.ofList

/-- What is left of a part of a list of contributors without the commas that
separate it from the part before. -/
def IsChunk (part chunk : List Char) : Prop :=
  ∃ commas rest, LongestRun (· = ',') (trim part) commas rest ∧ chunk = trim rest

/-- A contributor is a name, or a name and an address behind a bracket. -/
inductive IsContributor : List Char → Contributor → Prop
  | named {name : List Char} (bare : '<' ∉ name) : IsContributor name ⟨String.ofList name, none⟩
  | addressed {name url : List Char} (bare : '<' ∉ name) :
      IsContributor (name ++ '<' :: url)
        ⟨String.ofList (trim name), some (String.ofList (trim url))⟩

/-- The contributors of a row: whatever stands between the closing brackets and
is not blank. -/
def IsContributorList (value : List Char) (contributors : List Contributor) : Prop :=
  ∃ parts chunks, SplitBy '>' value parts ∧ List.Forall₂ IsChunk parts chunks ∧
    List.Forall₂ IsContributor (chunks.filter (· ≠ [])) contributors

/-- The two labels of a version of the compiler. -/
def versionLabels : List Label :=
  [.typescriptVersion, .minimumTypescriptVersion]

def IsVersionRow (row : List Char) : Prop :=
  ∃ label ∈ versionLabels, label.text.toList <+: row

/-- The version of the compiler is what the first row with a label for it says. -/
inductive IsTypescriptVersion : List (List Char) → Option String → Prop
  | none {rows : List (List Char)} (silent : ∀ row ∈ rows, ¬ IsVersionRow row) :
      IsTypescriptVersion rows .none
  | some {before after : List (List Char)} {label : Label} {value : List Char}
      (silent : ∀ row ∈ before, ¬ IsVersionRow row) (versionLabel : label ∈ versionLabels) :
      IsTypescriptVersion (before ++ (label.text.toList ++ value) :: after)
        (.some (String.ofList (trim value)))

theorem forall₂_iff_map_eq {α β : Type} {R : α → β → Prop} {f : α → β}
    (h : ∀ a b, f a = b ↔ R a b) {as : List α} {bs : List β} :
    List.Forall₂ R as bs ↔ as.map f = bs := by
  have hR : R = fun a b => f a = b := by
    funext a b
    exact propext (h a b).symm
  rw [hR, ← List.forall₂_map_left_iff (R := Eq), List.forall₂_eq_eq_eq]

theorem readProjects_eq_iff (value : List Char) (projects : List String) :
    readProjects value = projects ↔ IsProjectList value projects := by
  refine ⟨fun h => ⟨_, splitOn_eq_iff.mp rfl, h.symm⟩, fun h => ?_⟩
  obtain ⟨parts, hsplit, rfl⟩ := h
  rw [readProjects, splitOn_eq_iff.mpr hsplit]

theorem readContributor_eq_iff (chunk : List Char) (contributor : Contributor) :
    readContributor chunk = contributor ↔ IsContributor chunk contributor := by
  rw [readContributor]
  refine ⟨fun h => ?_, fun h => ?_⟩
  · subst h
    split
    next name url hcut =>
      obtain ⟨rfl, hbare⟩ := cutAtFirst_eq_some_iff.mp hcut
      exact .addressed hbare
    next hcut =>
      apply IsContributor.named
      intro hmem
      obtain ⟨name, url, rfl, hname⟩ := List.eq_append_cons_of_mem hmem
      rw [cutAtFirst_eq_some_iff.mpr ⟨rfl, hname⟩] at hcut
      cases hcut
  · cases h with
    | addressed hbare => rw [cutAtFirst_eq_some_iff.mpr ⟨rfl, hbare⟩]
    | named hbare =>
        split
        next name url hcut =>
          obtain ⟨rfl, -⟩ := cutAtFirst_eq_some_iff.mp hcut
          simp at hbare
        next => rfl

/-- The part of a list of contributors without what separates it from the part
before. -/
def chunkOf (part : List Char) : List Char :=
  trim ((trim part).dropWhile (· = ','))

theorem readContributors_eq_map (value : List Char) :
    readContributors value =
      (((value.splitOn '>').map chunkOf).filter (· ≠ [])).map readContributor :=
  rfl

theorem chunkOf_eq_iff (part chunk : List Char) : chunkOf part = chunk ↔ IsChunk part chunk := by
  have hcomma : ∀ c : Char, decide (c = ',') = true ↔ c = ',' := fun c => decide_eq_true_iff
  refine ⟨fun h => ?_, fun h => ?_⟩
  · exact ⟨_, _, longestRun_takeWhile hcomma _, h.symm⟩
  · obtain ⟨commas, rest, hrun, rfl⟩ := h
    rw [chunkOf, ((longestRun_iff hcomma).mp hrun).2]

theorem readContributors_eq_iff (value : List Char) (contributors : List Contributor) :
    readContributors value = contributors ↔ IsContributorList value contributors := by
  simp only [readContributors_eq_map, IsContributorList, ← splitOn_eq_iff, exists_eq_left',
    exists_and_left, forall₂_iff_map_eq chunkOf_eq_iff, forall₂_iff_map_eq readContributor_eq_iff]

/-- The version that a row gives, if it has a label for it. -/
def versionIn? (row : List Char) : Option (List Char) :=
  (Label.typescriptVersion.value? row).or (Label.minimumTypescriptVersion.value? row)

theorem versionIn?_eq_some_iff {row value : List Char} :
    versionIn? row = some value ↔
      ∃ label ∈ versionLabels, ∃ text, row = label.text.toList ++ text ∧ value = trim text := by
  simp only [versionIn?, Option.or_eq_some_iff, Label.value?_eq_some_iff, versionLabels,
    List.mem_cons, List.not_mem_nil, or_false, exists_eq_or_imp, exists_eq_left]
  refine or_congr_right (and_iff_right_of_imp fun h => ?_)
  -- a row with the second label does not begin like the first one
  obtain ⟨text, rfl, -⟩ := h
  rfl

theorem versionIn?_eq_none_iff {row : List Char} : versionIn? row = none ↔ ¬ IsVersionRow row := by
  simp only [Option.eq_none_iff_forall_ne_some, ne_eq, versionIn?_eq_some_iff, IsVersionRow,
    List.IsPrefix]
  refine ⟨fun h hrow => ?_, fun h value hrow => ?_⟩
  · obtain ⟨label, hlabel, text, rfl⟩ := hrow
    exact h (trim text) ⟨label, hlabel, text, rfl, rfl⟩
  · obtain ⟨label, hlabel, text, rfl, -⟩ := hrow
    exact h ⟨label, hlabel, text, rfl⟩

theorem readTypescriptVersion_eq_iff {rows : List (List Char)} {version : Option String} :
    readTypescriptVersion rows = version ↔ IsTypescriptVersion rows version := by
  have hdef : readTypescriptVersion rows =
      rows.findSome? fun row => (versionIn? row).map String.ofList := rfl
  rw [hdef]
  refine ⟨fun h => ?_, fun h => ?_⟩
  · cases version with
    | none =>
        rw [List.findSome?_eq_none_iff] at h
        exact .none fun row hrow =>
          versionIn?_eq_none_iff.mp (Option.map_eq_none_iff.mp (h row hrow))
    | some version =>
        obtain ⟨before, row, after, rfl, hrow, hbefore⟩ := List.findSome?_eq_some_iff.mp h
        obtain ⟨value, hvalue, rfl⟩ := Option.map_eq_some_iff.mp hrow
        obtain ⟨label, hlabel, text, rfl, rfl⟩ := versionIn?_eq_some_iff.mp hvalue
        exact .some (fun row hrow => versionIn?_eq_none_iff.mp
          (Option.map_eq_none_iff.mp (hbefore row hrow))) hlabel
  · cases h with
    | none silent =>
        rw [List.findSome?_eq_none_iff]
        exact fun row hrow =>
          Option.map_eq_none_iff.mpr (versionIn?_eq_none_iff.mpr (silent row hrow))
    | some silent versionLabel =>
        rw [List.findSome?_eq_some_iff]
        refine ⟨_, _, _, rfl, ?_, fun row hrow =>
          Option.map_eq_none_iff.mpr (versionIn?_eq_none_iff.mpr (silent row hrow))⟩
        rw [versionIn?_eq_some_iff.mpr ⟨_, versionLabel, _, rfl, rfl⟩, Option.map_some]

/-! ### Verdicts -/

/-- What there is to say of a block: the first stage that fails, or the header. -/
inductive Verdict : List (List Char) → Except Error Header → Prop
  | empty : Verdict [] (.error .missing)
  | badTitle {title : List Char} {rows : List (List Char)} {e : Error}
      (rejected : TitleVerdict title (.error e)) : Verdict (title :: rows) (.error e)
  | noProject {title : List Char} {rows : List (List Char)} {accepted : Title}
      (titled : TitleVerdict title (.ok accepted)) (lacks : Lacks .project rows) :
      Verdict (title :: rows) (.error (.missingField .project))
  | noDefinitionsBy {title : List Char} {rows rows₁ projectValues : List (List Char)}
      {accepted : Title} (titled : TitleVerdict title (.ok accepted))
      (projects : IsSection .project rows projectValues rows₁)
      (lacks : Lacks .definitionsBy rows₁) :
      Verdict (title :: rows) (.error (.missingField .definitionsBy))
  | noDefinitions {title : List Char}
      {rows rows₁ rows₂ projectValues contributorValues : List (List Char)} {accepted : Title}
      (titled : TitleVerdict title (.ok accepted))
      (projects : IsSection .project rows projectValues rows₁)
      (contributors : IsSection .definitionsBy rows₁ contributorValues rows₂)
      (lacks : Lacks .definitions rows₂) :
      Verdict (title :: rows) (.error (.missingField .definitions))
  | header {title definitions : List Char}
      {rows rows₁ rows₂ rows₃ projectValues contributorValues : List (List Char)}
      {accepted : Title} {projects : List (List String)} {contributors : List (List Contributor)}
      {version : Option String} (titled : TitleVerdict title (.ok accepted))
      (projectRows : IsSection .project rows projectValues rows₁)
      (contributorRows : IsSection .definitionsBy rows₁ contributorValues rows₂)
      (definitionsRow : rows₂ = (Label.definitions.text.toList ++ definitions) :: rows₃)
      (projectLists : List.Forall₂ IsProjectList projectValues projects)
      (contributorLists : List.Forall₂ IsContributorList contributorValues contributors)
      (versionRow : IsTypescriptVersion rows₃ version) :
      Verdict (title :: rows)
        (.ok {
          library := accepted.library
          major := accepted.major
          minor := accepted.minor
          nonNpm := accepted.nonNpm
          projects := projects.flatten
          contributors := contributors.flatten
          typescriptVersion := version })

theorem forall₂_iff_flatten_eq {α β : Type} {R : α → List β → Prop} {f : α → List β}
    (h : ∀ a bs, f a = bs ↔ R a bs) {as : List α} {items : List β} :
    as.flatMap f = items ↔ ∃ lists, List.Forall₂ R as lists ∧ lists.flatten = items := by
  simp only [forall₂_iff_map_eq h, exists_eq_left', List.flatMap_def]

theorem ofBlock_cons (title : List Char) (rows : List (List Char)) :
    ofBlock (title :: rows) =
      match readTitle title with
      | .error e => .error e
      | .ok title =>
        match readListField .project readProjects rows with
        | .error e => .error e
        | .ok (projects, rows) =>
          match readListField .definitionsBy readContributors rows with
          | .error e => .error e
          | .ok (contributors, rows) =>
            match readField .definitions rows with
            | .error e => .error e
            | .ok (_, rows) => .ok {
                library := title.library
                major := title.major
                minor := title.minor
                nonNpm := title.nonNpm
                projects
                contributors
                typescriptVersion := readTypescriptVersion rows } := by
  rw [ofBlock]
  cases readTitle title with
  | error e => rfl
  | ok title =>
      cases readListField .project readProjects rows with
      | error e => rfl
      | ok projects =>
          simp only [bind, Except.bind]
          cases readListField .definitionsBy readContributors projects.2 with
          | error e => rfl
          | ok contributors =>
              simp only
              cases readField .definitions contributors.2 <;> rfl

theorem readListField_cases {α : Type} {readItems : List Char → List α}
    {R : List Char → List α → Prop} (h : ∀ value items, readItems value = items ↔ R value items)
    (label : Label) (rows : List (List Char)) :
    (Lacks label rows ∧ readListField label readItems rows = .error (.missingField label)) ∨
      ∃ values lists rest, IsSection label rows values rest ∧ List.Forall₂ R values lists ∧
        readListField label readItems rows = .ok (lists.flatten, rest) := by
  cases hread : readListField label readItems rows with
  | error e =>
      obtain ⟨hlacks, rfl⟩ := readListField_eq_error_iff.mp hread
      exact .inl ⟨hlacks, rfl⟩
  | ok found =>
      obtain ⟨items, rest⟩ := found
      obtain ⟨values, hsection, hitems⟩ := readListField_eq_ok_iff.mp hread
      obtain ⟨lists, hlists, rfl⟩ := (forall₂_iff_flatten_eq h).mp hitems.symm
      exact .inr ⟨values, lists, rest, hsection, hlists, rfl⟩

theorem verdict_ofBlock (block : List (List Char)) : Verdict block (ofBlock block) := by
  cases block with
  | nil => exact .empty
  | cons title rows =>
      rw [ofBlock_cons]
      cases htitle : readTitle title with
      | error e => exact .badTitle (readTitle_eq_iff.mp htitle)
      | ok accepted =>
          have htitled := readTitle_eq_iff.mp htitle
          rcases readListField_cases readProjects_eq_iff .project rows with
            ⟨hlacks, hprojects⟩ | ⟨values, projects, rows₁, hrows, hlists, hprojects⟩
          · simp only [hprojects]
            exact .noProject htitled hlacks
          rcases readListField_cases readContributors_eq_iff .definitionsBy rows₁ with
            ⟨hlacks, hcontributors⟩ | ⟨values', contributors, rows₂, hrows', hlists', hcontributors⟩
          · simp only [hprojects, hcontributors]
            exact .noDefinitionsBy htitled hrows hlacks
          simp only [hprojects, hcontributors]
          cases hdefinitions : readField .definitions rows₂ with
          | error e =>
              obtain ⟨hlacks, rfl⟩ := readField_eq_error_iff.mp hdefinitions
              exact .noDefinitions htitled hrows hrows' hlacks
          | ok found =>
              obtain ⟨value, rows₃⟩ := found
              obtain ⟨text, hrow, -⟩ := readField_eq_ok_iff.mp hdefinitions
              exact .header htitled hrows hrows' hrow hlists hlists'
                (readTypescriptVersion_eq_iff.mp rfl)

theorem ofBlock_eq_iff {block : List (List Char)} {result : Except Error Header} :
    ofBlock block = result ↔ Verdict block result := by
  refine ⟨fun h => h ▸ verdict_ofBlock block, fun h => ?_⟩
  cases h with
  | empty => rfl
  | badTitle rejected => rw [ofBlock_cons, readTitle_eq_iff.mpr rejected]
  | noProject titled lacks =>
      rw [ofBlock_cons, readTitle_eq_iff.mpr titled]
      simp only [readListField_eq_error_iff.mpr ⟨lacks, rfl⟩]
  | noDefinitionsBy titled projects lacks =>
      rw [ofBlock_cons, readTitle_eq_iff.mpr titled]
      simp only [readListField_eq_ok_iff.mpr ⟨_, projects, rfl⟩,
        readListField_eq_error_iff.mpr ⟨lacks, rfl⟩]
  | noDefinitions titled projects contributors lacks =>
      rw [ofBlock_cons, readTitle_eq_iff.mpr titled]
      simp only [readListField_eq_ok_iff.mpr ⟨_, projects, rfl⟩,
        readListField_eq_ok_iff.mpr ⟨_, contributors, rfl⟩, readField_eq_error_iff.mpr ⟨lacks, rfl⟩]
  | header titled projectRows contributorRows definitionsRow projectLists contributorLists
      versionRow =>
      have hprojects := (forall₂_iff_flatten_eq readProjects_eq_iff).mpr ⟨_, projectLists, rfl⟩
      have hcontributors :=
        (forall₂_iff_flatten_eq readContributors_eq_iff).mpr ⟨_, contributorLists, rfl⟩
      rw [ofBlock_cons, readTitle_eq_iff.mpr titled]
      simp only [readListField_eq_ok_iff.mpr ⟨_, projectRows, hprojects.symm⟩,
        readListField_eq_ok_iff.mpr ⟨_, contributorRows, hcontributors.symm⟩,
        readField_eq_ok_iff.mpr ⟨_, definitionsRow, rfl⟩,
        readTypescriptVersion_eq_iff.mpr versionRow]

/-- Every text has exactly one verdict, that of its comment block, and reading
gives it: the header if the block has the form of one, and otherwise the first
stage that fails. -/
theorem ofText_eq_iff_verdict {text : String} {result : Except Error Header} :
    ofText text = result ↔ ∃ block, IsBlock text.toList block ∧ Verdict block result := by
  simp only [ofText, ofBlock_eq_iff, ← commentBlock_eq_iff, exists_eq_left']

end DependencyAudit.Header
