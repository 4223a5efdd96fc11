import DependencyAudit.Json.Printer
import DependencyAudit.Json.Reader
import DependencyAudit.Report
import Mathlib.Data.List.Nodup

/-!
What is printed is read back. Each escape stands for the character that it was
written for, a string ends at the first quote that no backslash precedes, and the
white space that the printer puts between two tokens is skipped before the second
one. So a value comes back whole, whatever stands behind it, and a report for
programs loses nothing of the findings. Numbers are left out, since no findings hold
any.
-/

namespace DependencyAudit.Json

/-! ### Strings -/

theorem hexDigit?_hexChar : ∀ n < 16, hexDigit? (hexChar n) = some n := by decide

theorem readHex?_hexChar {n : Nat} (h : n < 256) (rest : List Char) :
    readHex? ('0' :: '0' :: hexChar (n / 16) :: hexChar (n % 16) :: rest) = some (n, rest) := by
  have hzero : hexDigit? '0' = some 0 := by decide
  have hhigh := hexDigit?_hexChar (n / 16) (by omega)
  have hlow := hexDigit?_hexChar (n % 16) (by omega)
  have hsum : 16 * (n / 16) + n % 16 = n := Nat.div_add_mod n 16
  simp [readHex?, hzero, hhigh, hlow, hsum]

theorem readCodePoint?_control {c : Char} (h : c.toNat < 0x20) (rest : List Char) :
    readCodePoint? ('0' :: '0' :: hexChar (c.toNat / 16) :: hexChar (c.toNat % 16) :: rest) =
      some (c, rest) := by
  rw [readCodePoint?, readHex?_hexChar (by omega)]
  simp only
  rw [if_neg (by omega), if_neg (by omega), Char.ofNat_toNat]

/-- The characters that an escape of one letter stands for. -/
def lettered : List Char := ['"', '\\', '\x08', '\t', '\n', '\x0c', '\r']

theorem escape_of_not_mem {c : Char} (h : c ∉ lettered) :
    escape c = if c.toNat < 0x20 then
      ['\\', 'u', '0', '0', hexChar (c.toNat / 16), hexChar (c.toNat % 16)] else [c] := by
  simp only [lettered, List.mem_cons, List.not_mem_nil, or_false, not_or] at h
  simp [escape, h]

/-- A character is read back from its written form. -/
theorem readStringItem?_escape (c : Char) (rest : List Char) :
    readStringItem? (escape c ++ rest) = some (some c, rest) := by
  by_cases hlettered : c ∈ lettered
  · simp only [lettered, List.mem_cons, List.not_mem_nil, or_false] at hlettered
    rcases hlettered with rfl | rfl | rfl | rfl | rfl | rfl | rfl <;> rfl
  · rw [escape_of_not_mem hlettered]
    split
    next hcontrol =>
      have hread := readCodePoint?_control hcontrol rest
      simp only [List.cons_append, List.nil_append, readStringItem?, readEscape?, hread,
        Option.map_some]
    next hcontrol =>
      have hquote : c ≠ '"' := fun h => hlettered (by simp [lettered, h])
      have hbackslash : c ≠ '\\' := fun h => hlettered (by simp [lettered, h])
      rw [List.singleton_append, readStringItem?, if_neg hcontrol]
      · exact hquote
      · exact hbackslash

/-- A string is read back behind its opening quote. -/
theorem readString?_escaped (text rest : List Char) :
    readString? (text.flatMap escape ++ '"' :: rest) = some (text, rest) := by
  induction text with
  | nil => rw [readString?]; rfl
  | cons c text ih =>
      rw [List.flatMap_cons, List.append_assoc, readString?, readStringItem?_escape]
      simp [ih]

theorem writeString_append (text rest : List Char) :
    writeString text ++ rest = '"' :: (text.flatMap escape ++ '"' :: rest) := by
  simp [writeString]

/-! ### White space -/

def Spaces (cs : List Char) : Prop := ∀ c ∈ cs, isSpace c = true

theorem spaces_newline (level : Nat) : Spaces (newline level) := by
  intro c hc
  rcases List.mem_cons.mp hc with rfl | hc
  · rfl
  · rw [List.eq_of_mem_replicate hc]
    rfl

theorem skipSpace_append {gap : List Char} (h : Spaces gap) (cs : List Char) :
    skipSpace (gap ++ cs) = skipSpace cs :=
  List.dropWhile_append_of_pos h

theorem skipSpace_cons {c : Char} (h : isSpace c = false) (cs : List Char) :
    skipSpace (c :: cs) = c :: cs :=
  List.dropWhile_cons_of_neg (by simp [h])

theorem readValue?_append {gap : List Char} (h : Spaces gap) (depth : Nat) (cs : List Char) :
    readValue? depth (gap ++ cs) = readValue? depth cs := by
  cases depth with
  | zero => rw [readValue?, readValue?, skipSpace_append h]
  | succ depth => rw [readValue?, readValue?, skipSpace_append h]

theorem readMember?_append {gap : List Char} (h : Spaces gap)
    (value : List Char → Option (Json × List Char)) (cs : List Char) :
    readMember? value (gap ++ cs) = readMember? value cs := by
  rw [readMember?, readMember?, skipSpace_append h]

/-! ### Groups -/

section Groups

variable {α : Type} {item : List Char → Option (α × List Char)} {text : α → List Char}
  {close : Char}

/-- An item that is read back from its text, with white space in front of it or not. -/
def ReadsBack (item : List Char → Option (α × List Char)) (text : α → List Char) (a : α) : Prop :=
  ∀ gap rest, Spaces gap → item (gap ++ text a ++ rest) = some (a, rest)

theorem readItems?_written (hclose : isSpace close = false) (hcomma : close ≠ ',')
    {between back : List Char} (hbetween : Spaces between) (hback : Spaces back)
    {a : α} {as : List α} (hitems : ∀ b ∈ a :: as, ReadsBack item text b) {gap : List Char}
    (hgap : Spaces gap) (rest : List Char) :
    readItems? item close (gap ++ text a ++
      (as.flatMap (fun b => ',' :: between ++ text b) ++ back ++ close :: rest)) =
        some (a :: as, rest) := by
  induction as generalizing a gap with
  | nil =>
      rw [readItems?, hitems a (by simp) _ _ hgap]
      simp only [List.flatMap_nil, List.nil_append, skipSpace_append hback, skipSpace_cons hclose,
        if_true]
  | cons b as ih =>
      have hothers := ih (fun c hc => hitems c (List.mem_cons_of_mem a hc)) hbetween
      have htail : (b :: as).flatMap (fun b => ',' :: between ++ text b) ++ back ++ close :: rest =
          ',' :: (between ++ text b ++
            (as.flatMap (fun b => ',' :: between ++ text b) ++ back ++ close :: rest)) := by
        simp
      rw [htail, readItems?, hitems a (by simp) _ _ hgap]
      simp only [skipSpace_cons (show isSpace ',' = false by decide), if_neg hcomma.symm, hothers,
        Option.map_some]
      rw [if_pos]
      refine ⟨trivial, ?_⟩
      simp only [List.length_append, List.length_cons]
      omega

theorem readGroup?_empty (hclose : isSpace close = false) (rest : List Char) :
    readGroup? item close (close :: rest) = some ([], rest) := by
  simp only [readGroup?, skipSpace_cons hclose, if_true]

/-- What stands between two brackets is read back if no item begins like the closing one. -/
theorem readGroup?_written (hclose : isSpace close = false) (hcomma : close ≠ ',')
    {between back : List Char} (hbetween : Spaces between) (hback : Spaces back)
    {a : α} {as : List α} (hitems : ∀ b ∈ a :: as, ReadsBack item text b)
    (hbegins : ∃ c cs, text a = c :: cs ∧ isSpace c = false ∧ c ≠ close) (rest : List Char) :
    readGroup? item close (between ++ text a ++
      (as.flatMap (fun b => ',' :: between ++ text b) ++ back ++ close :: rest)) =
        some (a :: as, rest) := by
  have hread := readItems?_written hclose hcomma hbetween hback hitems
    (show Spaces [] from fun _ hc => absurd hc List.not_mem_nil) rest
  obtain ⟨c, cs, htext, hspace, hne⟩ := hbegins
  rw [readGroup?, List.append_assoc, skipSpace_append hbetween]
  rw [List.nil_append, htext, List.cons_append] at hread
  rw [htext, List.cons_append, skipSpace_cons hspace]
  simp only [if_neg hne, hread]

end Groups

/-! ### Objects -/

theorem put_of_not_mem {members : List (String × Json)} {key : String} {value : Json}
    (h : key ∉ members.map Prod.fst) : put members key value = members ++ [(key, value)] := by
  induction members with
  | nil => rfl
  | cons member members ih =>
      obtain ⟨k, v⟩ := member
      rw [List.map_cons, List.mem_cons, not_or] at h
      rw [put, if_neg (Ne.symm h.1), ih h.2, List.cons_append]

theorem ofMembers_of_nodup {members : List (String × Json)}
    (h : (members.map Prod.fst).Nodup) : ofMembers members = .object members := by
  -- each member finds its key new among those taken in before
  have hfold : ∀ taken : List (String × Json), ((taken ++ members).map Prod.fst).Nodup →
      members.foldl (fun acc m => put acc m.1 m.2) taken = taken ++ members := by
    induction members with
    | nil => simp
    | cons member members ih =>
        intro taken hnodup
        have hnew : member.1 ∉ taken.map Prod.fst := by
          rw [List.map_append, List.map_cons, List.nodup_append'] at hnodup
          exact fun hmem => hnodup.2.2 hmem (by simp)
        have hsplit : taken ++ member :: members = taken ++ [member] ++ members := by simp
        rw [hsplit] at hnodup ⊢
        rw [List.foldl_cons, put_of_not_mem hnew]
        exact ih (List.nodup_cons.mp h).2 _ hnodup
  rw [ofMembers, hfold [] h, List.nil_append]

/-! ### Values -/

/-- A value without numbers, with each key once in each object, that is nested at most so
deep. -/
inductive Printable : Nat → Json → Prop
  | null {depth : Nat} : Printable depth .null
  | bool {depth : Nat} {value : Bool} : Printable depth (.bool value)
  | string {depth : Nat} {value : String} : Printable depth (.string value)
  | array {depth : Nat} {items : List Json} (inside : ∀ item ∈ items, Printable depth item) :
      Printable (depth + 1) (.array items)
  | object {depth : Nat} {members : List (String × Json)} (nodup : (members.map Prod.fst).Nodup)
      (inside : ∀ member ∈ members, Printable depth member.2) :
      Printable (depth + 1) (.object members)

theorem writeItems_eq_flatMap (level : Nat) (items : List Json) :
    writeItems level items =
      items.flatMap fun item => ',' :: newline level ++ write level item := by
  induction items with
  | nil => rw [writeItems, List.flatMap_nil]
  | cons item items ih => rw [writeItems, List.flatMap_cons, ih]

/-- A member inside a written object. -/
def writeMember (level : Nat) (member : String × Json) : List Char :=
  writeString member.1.toList ++ [':', ' '] ++ write level member.2

theorem writeMembers_eq_flatMap (level : Nat) (members : List (String × Json)) :
    writeMembers level members =
      members.flatMap fun member => ',' :: newline level ++ writeMember level member := by
  induction members with
  | nil => rw [writeMembers, List.flatMap_nil]
  | cons member members ih =>
      obtain ⟨key, value⟩ := member
      rw [writeMembers, List.flatMap_cons, ih, writeMember]
      simp

theorem readsBack_member {depth level : Nat} {member : String × Json}
    (h : ReadsBack (readValue? depth) (write level) member.2) :
    ReadsBack (readMember? (readValue? depth)) (writeMember level) member := by
  intro gap rest hgap
  have hvalue := h [' '] rest (by simp [Spaces, isSpace])
  have htext : writeMember level member ++ rest =
      '"' :: (member.1.toList.flatMap escape ++ '"' :: ':' ::
        ([' '] ++ write level member.2 ++ rest)) := by
    simp [writeMember, writeString]
  rw [List.append_assoc, readMember?_append hgap, htext, readMember?,
    skipSpace_cons (by decide)]
  simp only [readString?_escaped, skipSpace_cons (show isSpace ':' = false by decide), hvalue,
    Option.map_some, String.ofList_toList]

theorem Printable.begins {depth : Nat} {value : Json} (h : Printable depth value) (level : Nat) :
    ∃ c cs, write level value = c :: cs ∧ isSpace c = false ∧ c ≠ ']' := by
  cases h with
  | null => exact ⟨_, _, rfl, by decide, by decide⟩
  | @bool _ value => cases value <;> exact ⟨_, _, rfl, by decide, by decide⟩
  | string => exact ⟨_, _, rfl, by decide, by decide⟩
  | @array _ items => cases items <;> exact ⟨_, _, rfl, by decide, by decide⟩
  | @object _ members => cases members <;> exact ⟨_, _, rfl, by decide, by decide⟩

theorem readValue?_scalar {c : Char} (hspace : isSpace c = false) (hbracket : c ≠ '[')
    (hbrace : c ≠ '\x7b') (depth : Nat) (cs : List Char) :
    readValue? depth (c :: cs) = readScalar? (c :: cs) := by
  cases depth with
  | zero => rw [readValue?, skipSpace_cons hspace]
  | succ depth =>
      rw [readValue?, skipSpace_cons hspace]
      split
      next h => exact absurd (List.cons.inj h).1 hbracket
      next h => exact absurd (List.cons.inj h).1 hbrace
      next => rfl

theorem readValue?_bracket (depth : Nat) (cs : List Char) :
    readValue? (depth + 1) ('[' :: cs) =
      (readGroup? (readValue? depth) ']' cs).map fun (items, cs) => (.array items, cs) := by
  rw [readValue?, skipSpace_cons (by decide)]
  rfl

theorem readValue?_brace (depth : Nat) (cs : List Char) :
    readValue? (depth + 1) ('\x7b' :: cs) =
      (readGroup? (readMember? (readValue? depth)) '\x7d' cs).map fun (members, cs) =>
        (ofMembers members, cs) := by
  rw [readValue?, skipSpace_cons (by decide)]
  rfl

theorem write_array_append (level : Nat) (item : Json) (items : List Json) (rest : List Char) :
    write level (.array (item :: items)) ++ rest =
      '[' :: (newline (level + 1) ++ write (level + 1) item ++
        (items.flatMap (fun item => ',' :: newline (level + 1) ++ write (level + 1) item) ++
          newline level ++ ']' :: rest)) := by
  rw [write, writeItems_eq_flatMap]
  simp

theorem write_object_append (level : Nat) (member : String × Json)
    (members : List (String × Json)) (rest : List Char) :
    write level (.object (member :: members)) ++ rest =
      '\x7b' :: (newline (level + 1) ++ writeMember (level + 1) member ++
        (members.flatMap (fun member => ',' :: newline (level + 1) ++
          writeMember (level + 1) member) ++ newline level ++ '\x7d' :: rest)) := by
  rw [write, writeMembers_eq_flatMap, writeMember]
  simp

/-- A printed value is read back, whatever stands behind it. -/
theorem readsBack_value {depth : Nat} {value : Json} (h : Printable depth value) (level : Nat) :
    ReadsBack (readValue? depth) (write level) value := by
  induction h generalizing level with
  | null =>
      intro gap rest hgap
      rw [List.append_assoc, readValue?_append hgap]
      exact readValue?_scalar (by decide) (by decide) (by decide) _ _
  | @bool _ value =>
      intro gap rest hgap
      rw [List.append_assoc, readValue?_append hgap]
      cases value <;> exact readValue?_scalar (by decide) (by decide) (by decide) _ _
  | @string depth value =>
      intro gap rest hgap
      rw [List.append_assoc, readValue?_append hgap, write, writeString_append,
        readValue?_scalar (by decide) (by decide) (by decide), readScalar?, readString?_escaped]
      simp
  | @array depth items inside ih =>
      intro gap rest hgap
      rw [List.append_assoc, readValue?_append hgap]
      cases items with
      | nil =>
          rw [write, List.cons_append, List.cons_append, List.nil_append, readValue?_bracket,
            readGroup?_empty (by decide), Option.map_some]
      | cons item items =>
          have hbegins := (inside item (by simp)).begins (level + 1)
          have hread := readGroup?_written (by decide) (by decide) (spaces_newline (level + 1))
            (spaces_newline level) (fun item hitem => ih item hitem (level + 1)) hbegins rest
          rw [write_array_append, readValue?_bracket, hread, Option.map_some]
  | @object depth members nodup inside ih =>
      intro gap rest hgap
      rw [List.append_assoc, readValue?_append hgap]
      cases members with
      | nil =>
          rw [write, List.cons_append, List.cons_append, List.nil_append, readValue?_brace,
            readGroup?_empty (by decide), Option.map_some]
          rfl
      | cons member members =>
          have hbegins : ∃ c cs, writeMember (level + 1) member = c :: cs ∧ isSpace c = false ∧
              c ≠ '\x7d' := ⟨_, _, rfl, by decide, by decide⟩
          have hread := readGroup?_written (by decide) (by decide) (spaces_newline (level + 1))
            (spaces_newline level)
            (fun member hmember => readsBack_member (ih member hmember (level + 1))) hbegins rest
          rw [write_object_append, readValue?_brace, hread, ← ofMembers_of_nodup nodup]
          rfl

/-- A printed document is read back, with white space behind it or not. -/
theorem ofText?_pretty_append {value : Json} (h : Printable maxDepth value) {tail : String}
    (htail : Spaces tail.toList) : ofText? (pretty value ++ tail) = some value := by
  have hread := readsBack_value h 0 [] tail.toList (fun _ hc => absurd hc List.not_mem_nil)
  have hskip : skipSpace tail.toList = [] := by
    rw [← List.append_nil tail.toList, skipSpace_append htail]
    rfl
  rw [List.nil_append] at hread
  rw [ofText?, pretty, String.toList_append, String.toList_ofList, hread]
  simp only [hskip, List.isEmpty_nil, if_true]

end DependencyAudit.Json

namespace DependencyAudit.Report

open DependencyAudit.Json

theorem printable_names {depth : Nat} (list : List String) :
    Printable (depth + 1) (names list) := by
  apply Printable.array
  intro item hitem
  obtain ⟨name, -, rfl⟩ := List.mem_map.mp hitem
  exact .string

theorem printable_document (findings : Findings) : Printable maxDepth (document findings) := by
  have hkeys : ["detectedDependencies", "missingDependencies", "unusedDependencies"].Nodup := by
    decide
  exact .object hkeys (by simp [printable_names])

theorem document_injective : Function.Injective document := by
  rintro ⟨detected, missing, unused⟩ ⟨detected', missing', unused'⟩ h
  have hstring : Function.Injective Json.string := fun _ _ => Json.string.inj
  simpa [document, names, (List.map_injective_iff.mpr hstring).eq_iff] using h

theorem ofText?_json_eq (findings : Findings) :
    Json.ofText? (json findings) = some (document findings) :=
  ofText?_pretty_append (printable_document findings) (by simp [Spaces, isSpace])

/-- The report for programs is read back as the lists of the findings, name by name, and so
findings with the same report are the same. -/
theorem ofText?_json (findings : Findings) :
    Json.ofText? (json findings) = some (.object
        [("detectedDependencies", .array (findings.detected.map .string)),
          ("missingDependencies", .array (findings.missing.map .string)),
          ("unusedDependencies", .array (findings.unused.map .string))]) ∧
      ∀ other, json other = json findings ↔ other = findings := by
  refine ⟨ofText?_json_eq findings, fun other => ⟨fun h => ?_, fun h => by rw [h]⟩⟩
  have hdocument := ofText?_json_eq other
  rw [h, ofText?_json_eq, Option.some.injEq] at hdocument
  exact (document_injective hdocument).symm

end DependencyAudit.Report
