import DependencyAudit.Json.Basic
import DependencyAudit.Json.Numeral

/-!
A strict reader of JSON.  There are no comments, no commas before a closing
bracket, no byte order mark and nothing behind the value.  Arrays and objects
nest at most `maxDepth` deep, and that allowance is what the recursion of
`readValue` runs on.
-/

namespace DependencyAudit.Json

/-- How deep arrays and objects may nest. -/
def maxDepth : Nat := 127

def isSpace (c : Char) : Bool :=
  c = ' ' || c = '\n' || c = '\t' || c = '\r'

def skipSpace (cs : List Char) : List Char :=
  cs.dropWhile isSpace

/-! ### Strings -/

def hexDigit? (c : Char) : Option Nat :=
  if '0' ≤ c ∧ c ≤ '9' then some (c.toNat - '0'.toNat)
  else if 'a' ≤ c ∧ c ≤ 'f' then some (c.toNat - 'a'.toNat + 10)
  else if 'A' ≤ c ∧ c ≤ 'F' then some (c.toNat - 'A'.toNat + 10)
  else none

/-- Four hexadecimal digits. -/
def readHex? : List Char → Option (Nat × List Char)
  | a :: b :: c :: d :: cs => do
    let value := 4096 * (← hexDigit? a) + 256 * (← hexDigit? b) +
      16 * (← hexDigit? c) + (← hexDigit? d)
    return (value, cs)
  | _ => none

/-- The character that an escape after `u` stands for.  A character beyond
U+FFFF is written as two escapes, and neither of the two stands alone. -/
def readCodePoint? (cs : List Char) : Option (Char × List Char) :=
  match readHex? cs with
  | none => none
  | some (high, cs) =>
    if 0xDC00 ≤ high ∧ high ≤ 0xDFFF then none
    else if 0xD800 ≤ high ∧ high ≤ 0xDBFF then
      match cs with
      | '\\' :: 'u' :: cs =>
        match readHex? cs with
        | none => none
        | some (low, cs) =>
          if 0xDC00 ≤ low ∧ low ≤ 0xDFFF then
            some (.ofNat (0x10000 + 0x400 * (high - 0xD800) + (low - 0xDC00)), cs)
          else none
      | _ => none
    else some (.ofNat high, cs)

/-- The escape behind a backslash. -/
def readEscape? : List Char → Option (Char × List Char)
  | '"' :: cs => some ('"', cs)
  | '\\' :: cs => some ('\\', cs)
  | '/' :: cs => some ('/', cs)
  | 'b' :: cs => some ('\x08', cs)
  | 'f' :: cs => some ('\x0c', cs)
  | 'n' :: cs => some ('\n', cs)
  | 'r' :: cs => some ('\r', cs)
  | 't' :: cs => some ('\t', cs)
  | 'u' :: cs => readCodePoint? cs
  | _ => none

/-- One character of a string, or `none` for the quote that closes it. -/
def readStringItem? : List Char → Option (Option Char × List Char)
  | '"' :: cs => some (none, cs)
  | '\\' :: cs => (readEscape? cs).map fun (c, cs) => (some c, cs)
  | c :: cs => if c.toNat < 0x20 then none else some (some c, cs)
  | [] => none

theorem length_of_readHex? {cs rest : List Char} {n : Nat}
    (h : readHex? cs = some (n, rest)) : rest.length < cs.length := by
  unfold readHex? at h
  split at h
  · simp only [Option.pure_def, Option.bind_eq_bind, Option.bind_eq_some_iff,
      Option.some.injEq, Prod.mk.injEq] at h
    obtain ⟨_, -, _, -, _, -, _, -, -, rfl⟩ := h
    simp only [List.length_cons]
    omega
  · simp at h

theorem length_of_readCodePoint? {cs rest : List Char} {c : Char}
    (h : readCodePoint? cs = some (c, rest)) : rest.length < cs.length := by
  unfold readCodePoint? at h
  split at h
  · simp at h
  next high cs' hhigh =>
    have h1 := length_of_readHex? hhigh
    split at h
    · simp at h
    · split at h
      · split at h
        · split at h
          · simp at h
          next low cs'' hlow =>
            have h2 := length_of_readHex? hlow
            simp only [Option.ite_none_right_eq_some, Option.some.injEq, Prod.mk.injEq] at h
            obtain ⟨-, -, rfl⟩ := h
            simp only [List.length_cons] at h1
            omega
        · simp at h
      · simp only [Option.some.injEq, Prod.mk.injEq] at h
        rw [← h.2]
        exact h1

theorem length_of_readEscape? {cs rest : List Char} {c : Char}
    (h : readEscape? cs = some (c, rest)) : rest.length < cs.length := by
  unfold readEscape? at h
  split at h
  case h_9 =>
    have := length_of_readCodePoint? h
    simp only [List.length_cons]
    omega
  case h_10 => simp at h
  all_goals
    simp only [Option.some.injEq, Prod.mk.injEq] at h
    simp [← h.2]

theorem length_of_readStringItem? {cs rest : List Char} {item : Option Char}
    (h : readStringItem? cs = some (item, rest)) : rest.length < cs.length := by
  unfold readStringItem? at h
  split at h
  · simp only [Option.some.injEq, Prod.mk.injEq] at h
    simp [← h.2]
  · simp only [Option.map_eq_some_iff, Prod.exists, Prod.mk.injEq] at h
    obtain ⟨_, _, he, -, rfl⟩ := h
    have := length_of_readEscape? he
    simp only [List.length_cons]
    omega
  · simp only [Option.ite_none_left_eq_some, Option.some.injEq, Prod.mk.injEq] at h
    simp [← h.2.2]
  · simp at h

/-- A string behind its opening quote. -/
def readString? (cs : List Char) : Option (List Char × List Char) :=
  match _item : readStringItem? cs with
  | none => none
  | some (none, rest) => some ([], rest)
  | some (some c, rest) => (readString? rest).map fun (text, rest) => (c :: text, rest)
termination_by cs.length
decreasing_by exact length_of_readStringItem? _item

/-! ### Numbers -/

def digits (cs : List Char) : List Nat :=
  cs.map fun c => c.toNat - '0'.toNat

/-- A whole part has no zero in front of other digits. -/
def readWhole? (cs : List Char) : Option (List Char × List Char) :=
  match cs.takeWhile Char.isDigit, cs.dropWhile Char.isDigit with
  | [], _ => none
  | '0' :: _ :: _, _ => none
  | whole, rest => some (whole, rest)

/-- A fraction has at least one digit. -/
def readFraction? : List Char → Option (List Char × List Char)
  | '.' :: cs =>
    match cs.takeWhile Char.isDigit, cs.dropWhile Char.isDigit with
    | [], _ => none
    | fraction, rest => some (fraction, rest)
  | cs => some ([], cs)

/-- An exponent has an optional sign and at least one digit. -/
def readExponent? : List Char → Option (Int × List Char)
  | [] => some (0, [])
  | e :: cs =>
    if e = 'e' ∨ e = 'E' then
      let (negative, cs) := match cs with
        | '-' :: cs => (true, cs)
        | '+' :: cs => (false, cs)
        | cs => (false, cs)
      match cs.takeWhile Char.isDigit, cs.dropWhile Char.isDigit with
      | [], _ => none
      | exponent, rest =>
        let value : Nat := (digits exponent).foldl (fun n d => 10 * n + d) 0
        some (if negative then -value else value, rest)
    else some (0, e :: cs)

/-- A number that some double can stand for. -/
def readNumber? (cs : List Char) : Option (Json × List Char) := do
  let unsigned := match cs with
    | '-' :: cs => cs
    | cs => cs
  let (whole, rest) ← readWhole? unsigned
  let (fraction, rest) ← readFraction? rest
  let (exponent, rest) ← readExponent? rest
  if Numeral.inRange ⟨digits whole, digits fraction, exponent⟩ then
    return (.number (String.ofList (cs.take (cs.length - rest.length))), rest)
  else none

/-! ### Values -/

/-- A value that holds no other. -/
def readScalar? : List Char → Option (Json × List Char)
  | '"' :: cs => (readString? cs).map fun (text, cs) => (.string (String.ofList text), cs)
  | 'n' :: 'u' :: 'l' :: 'l' :: cs => some (.null, cs)
  | 't' :: 'r' :: 'u' :: 'e' :: cs => some (.bool true, cs)
  | 'f' :: 'a' :: 'l' :: 's' :: 'e' :: cs => some (.bool false, cs)
  | cs => readNumber? cs

/-- One or more items between commas, and the closing bracket.  An item takes at
least one character, so the text gets shorter from item to item. -/
def readItems? {α : Type} (item : List Char → Option (α × List Char)) (close : Char)
    (cs : List Char) : Option (List α × List Char) :=
  match item cs with
  | none => none
  | some (a, rest) =>
    match skipSpace rest with
    | [] => none
    | c :: rest =>
      if c = close then some ([a], rest)
      else if c = ',' ∧ rest.length < cs.length then
        (readItems? item close rest).map fun (as, rest) => (a :: as, rest)
      else none
termination_by cs.length

/-- What stands between two brackets, of which the first has been read. -/
def readGroup? {α : Type} (item : List Char → Option (α × List Char)) (close : Char)
    (cs : List Char) : Option (List α × List Char) :=
  match skipSpace cs with
  | [] => none
  | c :: rest => if c = close then some ([], rest) else readItems? item close (c :: rest)

/-- A key, a colon and a value. -/
def readMember? (value : List Char → Option (Json × List Char)) (cs : List Char) :
    Option ((String × Json) × List Char) :=
  match skipSpace cs with
  | '"' :: cs =>
    match readString? cs with
    | none => none
    | some (key, cs) =>
      match skipSpace cs with
      | ':' :: cs => (value cs).map fun (v, cs) => ((String.ofList key, v), cs)
      | _ => none
  | _ => none

/-- A value with at most `depth` arrays and objects inside one another. -/
def readValue? : Nat → List Char → Option (Json × List Char)
  | 0, cs => readScalar? (skipSpace cs)
  | depth + 1, cs =>
    match skipSpace cs with
    | '[' :: cs =>
      (readGroup? (readValue? depth) ']' cs).map fun (items, cs) => (.array items, cs)
    | '\x7b' :: cs =>
      (readGroup? (readMember? (readValue? depth)) '\x7d' cs).map fun (members, cs) =>
        (ofMembers members, cs)
    | cs => readScalar? cs

/-- Reads a text that holds one value and nothing else. -/
def ofText? (text : String) : Option Json :=
  match readValue? maxDepth text.toList with
  | some (value, rest) => if (skipSpace rest).isEmpty then some value else none
  | none => none

end DependencyAudit.Json
