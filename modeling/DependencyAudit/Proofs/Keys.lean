import DependencyAudit.Json.Reader
import DependencyAudit.Manifest
import Mathlib.Data.List.Basic

/-!
Keys of the values that are read. A text may give a key twice, but a value
never does, at whatever depth: an object is built member by member, and a key
that is already there only takes the new value. For a manifest this means that
no section declares a name twice.
-/

namespace DependencyAudit

namespace Json

/-- No object in the value has a key twice, nor has any value inside it. -/
inductive Distinct : Json → Prop
  | null : Distinct .null
  | bool {value : Bool} : Distinct (.bool value)
  | number {spelling : String} : Distinct (.number spelling)
  | string {value : String} : Distinct (.string value)
  | array {items : List Json} (inside : ∀ item ∈ items, Distinct item) : Distinct (.array items)
  | object {members : List (String × Json)} (nodup : (members.map Prod.fst).Nodup)
      (inside : ∀ member ∈ members, Distinct member.2) : Distinct (.object members)

/-! ### Objects -/

theorem nodup_keys_put {α : Type} {members : List (String × α)} {key : String} {value : α}
    (h : (members.map Prod.fst).Nodup) : ((put members key value).map Prod.fst).Nodup := by
  induction members with
  | nil => simp [put]
  | cons member members ih =>
      obtain ⟨k, v⟩ := member
      obtain ⟨hk, hmembers⟩ := List.nodup_cons.mp h
      by_cases hkey : k = key
      · subst hkey
        simpa [put] using h
      · rw [put, if_neg hkey, List.map_cons, List.nodup_cons, mem_keys_put, not_or]
        exact ⟨⟨hkey, hk⟩, ih hmembers⟩

theorem mem_of_mem_put {α : Type} {members : List (String × α)} {key : String} {value : α}
    {member : String × α} (h : member ∈ put members key value) :
    member = (key, value) ∨ member ∈ members := by
  induction members with
  | nil => exact .inl (by simpa [put] using h)
  | cons first members ih =>
      obtain ⟨k, v⟩ := first
      by_cases hkey : k = key
      · subst hkey
        rw [put, if_pos rfl] at h
        exact (List.mem_cons.mp h).imp_right (List.mem_cons_of_mem _)
      · rw [put, if_neg hkey] at h
        rcases List.mem_cons.mp h with rfl | h
        · exact .inr (by simp)
        · exact (ih h).imp_right (List.mem_cons_of_mem _)

theorem distinct_ofMembers {members : List (String × Json)}
    (h : ∀ member ∈ members, member.2.Distinct) : (ofMembers members).Distinct := by
  -- the members taken in so far are distinct, and each further one keeps them so
  have hfold : ∀ taken : List (String × Json), (taken.map Prod.fst).Nodup →
      (∀ member ∈ taken, member.2.Distinct) →
      (Json.object (members.foldl (fun acc m => put acc m.1 m.2) taken)).Distinct := by
    induction members with
    | nil => exact fun taken hnodup hinside => .object hnodup hinside
    | cons member members ih =>
        intro taken hnodup hinside
        have hmember : member.2.Distinct := h member (by simp)
        rw [List.foldl_cons]
        refine ih (fun m hm => h m (List.mem_cons_of_mem _ hm)) _ (nodup_keys_put hnodup) ?_
        intro m hm
        rcases mem_of_mem_put hm with rfl | hm
        · exact hmember
        · exact hinside m hm
  exact hfold [] List.nodup_nil (by simp)

/-! ### Reading -/

theorem forall_of_readItems? {α : Type} {item : List Char → Option (α × List Char)}
    {P : α → Prop} (hitem : ∀ cs a rest, item cs = some (a, rest) → P a) {close : Char}
    {cs rest : List Char} {as : List α} (h : readItems? item close cs = some (as, rest)) :
    ∀ a ∈ as, P a := by
  induction cs using readItems?.induct item close generalizing as rest with
  | case1 cs hnone =>
      rw [readItems?, hnone] at h
      cases h
  | case2 cs first mid hfirst hskip =>
      rw [readItems?, hfirst] at h
      simp [hskip] at h
  | case3 cs first mid hfirst tail hskip =>
      rw [readItems?, hfirst] at h
      simp only [hskip, if_true, Option.some.injEq, Prod.mk.injEq] at h
      obtain ⟨rfl, -⟩ := h
      simpa using hitem _ _ _ hfirst
  | case4 cs first mid hfirst c tail hskip hclose hcomma ih =>
      rw [readItems?, hfirst] at h
      simp only [hskip, if_neg hclose, if_pos hcomma, Option.map_eq_some_iff, Prod.exists,
        Prod.mk.injEq] at h
      obtain ⟨others, rest', hothers, rfl, rfl⟩ := h
      intro a ha
      rcases List.mem_cons.mp ha with rfl | ha
      · exact hitem _ _ _ hfirst
      · exact ih hothers a ha
  | case5 cs first mid hfirst c tail hskip hclose hcomma =>
      rw [readItems?, hfirst] at h
      simp only [hskip, if_neg hclose, if_neg hcomma] at h
      cases h

theorem forall_of_readGroup? {α : Type} {item : List Char → Option (α × List Char)}
    {P : α → Prop} (hitem : ∀ cs a rest, item cs = some (a, rest) → P a) {close : Char}
    {cs rest : List Char} {as : List α} (h : readGroup? item close cs = some (as, rest)) :
    ∀ a ∈ as, P a := by
  rw [readGroup?] at h
  split at h
  · cases h
  · split at h
    · obtain ⟨rfl, -⟩ : [] = as ∧ _ := by simpa using h
      simp
    · exact forall_of_readItems? hitem h

theorem distinct_of_readScalar? {cs rest : List Char} {value : Json}
    (h : readScalar? cs = some (value, rest)) : value.Distinct := by
  unfold readScalar? at h
  split at h
  next =>
    simp only [Option.map_eq_some_iff, Prod.exists, Prod.mk.injEq] at h
    obtain ⟨text, rest', -, rfl, -⟩ := h
    exact .string
  next =>
    obtain ⟨rfl, -⟩ : Json.null = value ∧ _ := by simpa using h
    exact .null
  next =>
    obtain ⟨rfl, -⟩ : Json.bool true = value ∧ _ := by simpa using h
    exact .bool
  next =>
    obtain ⟨rfl, -⟩ : Json.bool false = value ∧ _ := by simpa using h
    exact .bool
  next =>
    simp only [readNumber?, bind, Option.bind_eq_some_iff, Prod.exists] at h
    obtain ⟨whole, rest₁, -, fraction, rest₂, -, exponent, rest₃, -, h⟩ := h
    obtain ⟨-, rfl, -⟩ : _ ∧ Json.number _ = value ∧ _ := by simpa using h
    exact .number

theorem distinct_of_readMember? {value : List Char → Option (Json × List Char)}
    (hvalue : ∀ cs v rest, value cs = some (v, rest) → v.Distinct) {cs rest : List Char}
    {member : String × Json} (h : readMember? value cs = some (member, rest)) :
    member.2.Distinct := by
  unfold readMember? at h
  split at h
  next =>
    split at h
    · cases h
    · split at h
      · simp only [Option.map_eq_some_iff, Prod.exists, Prod.mk.injEq] at h
        obtain ⟨v, rest', hread, rfl, -⟩ := h
        exact hvalue _ _ _ hread
      · cases h
  next => cases h

theorem distinct_of_readValue? {depth : Nat} {cs rest : List Char} {value : Json}
    (h : readValue? depth cs = some (value, rest)) : value.Distinct := by
  -- an array or an object holds values that one level less was left for
  induction depth generalizing cs rest value with
  | zero => exact distinct_of_readScalar? h
  | succ depth ih =>
      rw [readValue?] at h
      split at h
      · simp only [Option.map_eq_some_iff, Prod.exists, Prod.mk.injEq] at h
        obtain ⟨items, rest', hitems, rfl, -⟩ := h
        exact .array (forall_of_readGroup? (fun _ _ _ => ih) hitems)
      · simp only [Option.map_eq_some_iff, Prod.exists, Prod.mk.injEq] at h
        obtain ⟨members, rest', hmembers, rfl, -⟩ := h
        have hmember : ∀ cs member rest, readMember? (readValue? depth) cs = some (member, rest) →
            member.2.Distinct := fun _ _ _ => distinct_of_readMember? fun _ _ _ => ih
        exact distinct_ofMembers (forall_of_readGroup? hmember hmembers)
      · exact distinct_of_readScalar? h

theorem distinct_of_ofText? {text : String} {value : Json} (h : ofText? text = some value) :
    value.Distinct := by
  rw [ofText?] at h
  split at h
  next hread =>
    obtain ⟨-, rfl⟩ := Option.ite_none_right_eq_some.mp h |>.imp_right Option.some.inj
    exact distinct_of_readValue? hread
  next => cases h

/-! ### Parts of a value -/

theorem Distinct.get? {json value : Json} {key : String} (h : json.Distinct)
    (hget : json.get? key = some value) : value.Distinct := by
  cases h with
  | object nodup inside =>
      rw [Json.get?, List.lookup_eq_some_iff] at hget
      obtain ⟨front, back, rfl, -⟩ := hget
      exact inside (key, value) (by simp)
  | _ => cases hget

theorem Distinct.nodup_keys {json : Json} (h : json.Distinct) : json.keys.Nodup := by
  cases h with
  | object nodup inside => exact nodup
  | _ => exact List.nodup_nil

end Json

namespace Manifest

/-- No section declares a name twice. -/
structure Distinct (manifest : Manifest) : Prop where
  dependencies : manifest.dependencies.Nodup
  devDependencies : manifest.devDependencies.Nodup

theorem nodup_sectionNames {json : Json} (h : json.Distinct) (key : String) :
    (sectionNames json key).Nodup := by
  rw [sectionNames]
  split
  next members hget => exact (h.get? hget).nodup_keys
  next => exact List.nodup_nil

theorem distinct_getD_ofText? (text : String) : ((ofText? text).getD .empty).Distinct := by
  cases hjson : Json.ofText? text with
  | none =>
      rw [ofText?, hjson]
      exact ⟨List.nodup_nil, List.nodup_nil⟩
  | some json =>
      have hdistinct := Json.distinct_of_ofText? hjson
      rw [ofText?, hjson]
      exact ⟨nodup_sectionNames hdistinct _, nodup_sectionNames hdistinct _⟩

end Manifest

end DependencyAudit
