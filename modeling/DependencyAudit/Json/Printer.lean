import DependencyAudit.Json.Basic

/-!
The indented written form of JSON values: one item or member to a line, two
spaces for each level, and brackets that close at once when nothing stands
between them.  In strings only the quote, the backslash and the control
characters below U+0020 are escaped.
-/

namespace DependencyAudit.Json

def hexChar (n : Nat) : Char :=
  if n < 10 then .ofNat ('0'.toNat + n) else .ofNat ('a'.toNat + (n - 10))

/-- A character inside a written string. -/
def escape (c : Char) : List Char :=
  if c = '"' then ['\\', '"']
  else if c = '\\' then ['\\', '\\']
  else if c = '\x08' then ['\\', 'b']
  else if c = '\t' then ['\\', 't']
  else if c = '\n' then ['\\', 'n']
  else if c = '\x0c' then ['\\', 'f']
  else if c = '\r' then ['\\', 'r']
  else if c.toNat < 0x20 then
    ['\\', 'u', '0', '0', hexChar (c.toNat / 16), hexChar (c.toNat % 16)]
  else [c]

def writeString (text : List Char) : List Char :=
  '"' :: text.flatMap escape ++ ['"']

/-- A line end and the indentation of a level. -/
def newline (level : Nat) : List Char :=
  '\n' :: List.replicate (2 * level) ' '

mutual

/-- The written form of a value whose first line is already indented. -/
def write (level : Nat) : Json → List Char
  | .null => ['n', 'u', 'l', 'l']
  | .bool true => ['t', 'r', 'u', 'e']
  | .bool false => ['f', 'a', 'l', 's', 'e']
  | .number spelling => spelling.toList
  | .string value => writeString value.toList
  | .array [] => ['[', ']']
  | .array (item :: items) =>
    '[' :: newline (level + 1) ++ write (level + 1) item ++ writeItems (level + 1) items ++
      newline level ++ [']']
  | .object [] => ['\x7b', '\x7d']
  | .object ((key, value) :: members) =>
    '\x7b' :: newline (level + 1) ++ writeString key.toList ++ [':', ' '] ++
      write (level + 1) value ++ writeMembers (level + 1) members ++ newline level ++ ['\x7d']

/-- The items behind the first one. -/
def writeItems (level : Nat) : List Json → List Char
  | [] => []
  | item :: items =>
    ',' :: newline level ++ write level item ++ writeItems level items

/-- The members behind the first one. -/
def writeMembers (level : Nat) : List (String × Json) → List Char
  | [] => []
  | (key, value) :: members =>
    ',' :: newline level ++ writeString key.toList ++ [':', ' '] ++ write level value ++
      writeMembers level members

end

/-- The written form of a document. -/
def pretty (value : Json) : String :=
  String.ofList (write 0 value)

end DependencyAudit.Json
