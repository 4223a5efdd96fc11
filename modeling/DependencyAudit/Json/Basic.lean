/-!
JSON values.  An object keeps its members in the order of their first
appearance; a number keeps its spelling, since nothing is ever computed with
it.
-/

namespace DependencyAudit

inductive Json where
  | null
  | bool (value : Bool)
  | number (spelling : String)
  | string (value : String)
  | array (items : List Json)
  | object (members : List (String × Json))

namespace Json

/-- Gives `key` a value, in its old place if it has one. -/
def put {α : Type} (members : List (String × α)) (key : String) (value : α) :
    List (String × α) :=
  match members with
  | [] => [(key, value)]
  | (k, v) :: members =>
    if k = key then (k, value) :: members else (k, v) :: put members key value

theorem mem_keys_put {α : Type} {members : List (String × α)} {key k : String} {value : α} :
    k ∈ (put members key value).map Prod.fst ↔ k = key ∨ k ∈ members.map Prod.fst := by
  induction members with
  | nil => simp [put]
  | cons m members ih =>
    obtain ⟨j, v⟩ := m
    by_cases h : j = key
    · subst h; simp [put]
    · simp only [put, if_neg h, List.map_cons, List.mem_cons, ih]
      constructor <;> rintro (h | h | h) <;> simp [h]

/-- An object in which no key comes twice: a repeated key keeps its first place
and takes its last value. -/
def ofMembers (members : List (String × Json)) : Json :=
  .object (members.foldl (fun acc m => put acc m.1 m.2) [])

/-- The value under a key; only objects have any. -/
def get? : Json → String → Option Json
  | .object members, key => members.lookup key
  | _, _ => none

/-- The keys of an object in order; other values have none. -/
def keys : Json → List String
  | .object members => members.map Prod.fst
  | _ => []

def string? : Json → Option String
  | .string value => some value
  | _ => none

def isTrue : Json → Bool
  | .bool value => value
  | _ => false

end Json

end DependencyAudit
