import DependencyAudit.Package.Detected
import Mathlib.Data.List.Pairwise
import Mathlib.Data.List.Perm.Subperm
import Mathlib.Data.List.Sort

/-!
Ascending lists read as sets. What was put in can be found again, up to the
comparison; where only equal elements compare equal, membership says all there
is to know, so two sets with the same elements are the same list and a smaller
set is a subsequence of a larger one.
-/

namespace DependencyAudit.Ascending

variable {α : Type} {cmp : α → α → Ordering} [Std.TransCmp cmp]

/-! ### Elements up to the comparison -/

theorem mem_of_mem_insertAll {s : Ascending cmp} {xs : List α} {a : α}
    (h : a ∈ (s.insertAll xs).toList) : a ∈ s.toList ∨ a ∈ xs := by
  induction xs generalizing s with
  | nil => exact .inl h
  | cons x xs ih =>
      rcases ih h with h | h
      · rcases mem_of_mem_place h with rfl | h
        · exact .inr (by simp)
        · exact .inl h
      · exact .inr (List.mem_cons_of_mem x h)

theorem mem_insertAll_of_mem {s : Ascending cmp} {xs : List α} {a : α}
    (h : a ∈ s.toList) : a ∈ (s.insertAll xs).toList := by
  induction xs generalizing s with
  | nil => exact h
  | cons x xs ih => exact ih (mem_place_of_mem h)

theorem mem_of_mem_ofList {xs : List α} {a : α}
    (h : a ∈ (ofList xs : Ascending cmp).toList) : a ∈ xs := by
  rcases mem_of_mem_insertAll h with h | h
  · cases h
  · exact h

theorem exists_eq_mem_place (x : α) (xs : List α) :
    ∃ y ∈ place cmp x xs, cmp x y = .eq := by
  induction xs with
  | nil => exact ⟨x, by simp [place], Std.ReflCmp.compare_self⟩
  | cons y ys ih =>
      simp only [place]
      split
      next => exact ⟨x, by simp, Std.ReflCmp.compare_self⟩
      next hxy => exact ⟨y, by simp, hxy⟩
      next =>
        obtain ⟨z, hz, hxz⟩ := ih
        exact ⟨z, by simp [hz], hxz⟩

theorem exists_eq_mem_insertAll {s : Ascending cmp} {xs : List α} {x : α} (h : x ∈ xs) :
    ∃ y ∈ (s.insertAll xs).toList, cmp x y = .eq := by
  induction xs generalizing s with
  | nil => cases h
  | cons x' xs ih =>
      rcases List.mem_cons.mp h with rfl | h
      · obtain ⟨y, hy, hxy⟩ := @exists_eq_mem_place α cmp _ x s.toList
        exact ⟨y, mem_insertAll_of_mem (s := s.insert x) hy, hxy⟩
      · exact ih h

theorem exists_eq_mem_ofList {xs : List α} {x : α} (h : x ∈ xs) :
    ∃ y ∈ (ofList xs : Ascending cmp).toList, cmp x y = .eq :=
  exists_eq_mem_insertAll h

omit [Std.TransCmp cmp] in
theorem nodup [Std.ReflCmp cmp] (s : Ascending cmp) : s.toList.Nodup := by
  apply s.ascends.imp
  rintro a _ hab rfl
  rw [@Std.ReflCmp.compare_self α cmp] at hab
  cases hab

/-- Two elements of a set compare equal only if they are the same. -/
theorem eq_of_mem_of_compare_eq {s : Ascending cmp} {a b : α} (ha : a ∈ s.toList)
    (hb : b ∈ s.toList) (h : cmp a b = .eq) : a = b := by
  have hsymm : Std.Symm fun a b => cmp a b = .eq → a = b :=
    ⟨fun a b hab hba => (hab (Std.OrientedCmp.eq_symm hba)).symm⟩
  have hpairs : s.toList.Pairwise fun a b => cmp a b = .eq → a = b := by
    apply s.ascends.imp
    intro a b hlt heq
    rw [hlt] at heq
    cases heq
  exact hpairs.forall_of_forall (fun _ _ _ => rfl) ha hb h

/-- A set is at most as long as one in which each of its elements has an equal. -/
theorem length_le_of_forall_exists_eq {s t : Ascending cmp}
    (h : ∀ a ∈ s.toList, ∃ b ∈ t.toList, cmp a b = .eq) :
    s.toList.length ≤ t.toList.length := by
  choose f hmem heq using h
  -- elements that share an equal are equal themselves, so `f` chooses none twice
  have hnodup : (s.toList.attach.map fun a => f a.1 a.2).Nodup := by
    refine List.Nodup.map_on ?_ (List.nodup_attach.mpr s.nodup)
    rintro ⟨a, ha⟩ - ⟨b, hb⟩ - hab
    have haf : cmp a (f a ha) = .eq := heq a ha
    have hbf : cmp b (f a ha) = .eq := by
      rw [show f a ha = f b hb from hab]
      exact heq b hb
    exact Subtype.ext
      (eq_of_mem_of_compare_eq ha hb (Std.TransCmp.eq_trans haf (Std.OrientedCmp.eq_symm hbf)))
  have hsubset : (s.toList.attach.map fun a => f a.1 a.2) ⊆ t.toList := by
    intro b hb
    obtain ⟨a, -, rfl⟩ := List.mem_map.mp hb
    exact hmem a.1 a.2
  simpa using (hnodup.subperm hsubset).length_le

/-! ### The first of equal elements -/

theorem mem_place_iff {x a : α} {xs : List α} (h : xs.Pairwise (cmp · · = .lt)) :
    a ∈ place cmp x xs ↔ a ∈ xs ∨ a = x ∧ ∀ y ∈ xs, cmp y x ≠ .eq := by
  induction xs with
  | nil => simp [place]
  | cons y ys ih =>
      obtain ⟨hy, hys⟩ := List.pairwise_cons.mp h
      simp only [place]
      split
      next hxy =>
        -- everything from `y` on lies behind `x`
        have hfree : ∀ z ∈ y :: ys, cmp z x ≠ .eq := by
          intro z hz heq
          have hxz : cmp x z = .lt := by
            rcases List.mem_cons.mp hz with rfl | hz
            · exact hxy
            · exact Std.TransCmp.lt_trans hxy (hy z hz)
          rw [Std.OrientedCmp.eq_symm heq] at hxz
          cases hxz
        rw [List.mem_cons, or_comm, and_iff_left hfree]
      next hxy =>
        refine ⟨.inl, fun ha => ha.resolve_right fun hx => ?_⟩
        exact hx.2 y (by simp) (Std.OrientedCmp.eq_symm hxy)
      next hxy =>
        have hne : cmp y x ≠ .eq := by
          rw [Std.OrientedCmp.lt_of_gt hxy]
          decide
        rw [List.mem_cons, ih hys, List.mem_cons, List.forall_mem_cons, and_iff_right hne, or_assoc]

theorem mem_insert {s : Ascending cmp} {x a : α} :
    a ∈ (s.insert x).toList ↔ a ∈ s.toList ∨ a = x ∧ ∀ y ∈ s.toList, cmp y x ≠ .eq :=
  mem_place_iff s.ascends

/-- Of a list in which only equal elements compare equal, all elements are taken in
that compare equal to nothing in the set. -/
theorem mem_insertAll_of_apart {s : Ascending cmp} {xs : List α} {a : α}
    (h : ∀ x ∈ xs, ∀ y ∈ xs, cmp x y = .eq → x = y) :
    a ∈ (s.insertAll xs).toList ↔
      a ∈ s.toList ∨ a ∈ xs ∧ ∀ y ∈ s.toList, cmp y a ≠ .eq := by
  induction xs generalizing s with
  | nil => simp [insertAll]
  | cons x xs ih =>
      have hxs : ∀ y ∈ xs, ∀ z ∈ xs, cmp y z = .eq → y = z := fun y hy z hz =>
        h y (List.mem_cons_of_mem x hy) z (List.mem_cons_of_mem x hz)
      have hcons : s.insertAll (x :: xs) = (s.insert x).insertAll xs := rfl
      rw [hcons, ih hxs, mem_insert, or_assoc]
      refine or_congr_right ⟨fun ha => ?_, fun ha => ?_⟩
      · rcases ha with ⟨rfl, hfree⟩ | ⟨ha, hfree⟩
        · exact ⟨by simp, hfree⟩
        · exact ⟨List.mem_cons_of_mem x ha, fun y hy => hfree y (mem_insert.mpr (.inl hy))⟩
      · obtain ⟨ha, hfree⟩ := ha
        by_cases hax : a = x
        · subst hax
          exact .inl ⟨rfl, hfree⟩
        · have hmem := (List.mem_cons.mp ha).resolve_left hax
          refine .inr ⟨hmem, fun y hy heq => ?_⟩
          rcases mem_insert.mp hy with hy | ⟨rfl, -⟩
          · exact hfree y hy heq
          · exact hax (h y (by simp) a ha heq).symm

theorem forall_mem_insertAll_ne {s : Ascending cmp} {xs : List α} {a : α} :
    (∀ y ∈ (s.insertAll xs).toList, cmp y a ≠ .eq) ↔
      (∀ y ∈ s.toList, cmp y a ≠ .eq) ∧ ∀ y ∈ xs, cmp y a ≠ .eq := by
  refine ⟨fun h => ⟨fun y hy => h y (mem_insertAll_of_mem hy), fun y hy heq => ?_⟩,
    fun h y hy => ?_⟩
  · obtain ⟨z, hz, hyz⟩ := exists_eq_mem_insertAll (s := s) hy
    exact h z hz (Std.TransCmp.eq_trans (Std.OrientedCmp.eq_symm hyz) heq)
  · exact (mem_of_mem_insertAll hy).elim (h.1 y) (h.2 y)

/-- Of several lists taken in one after the other, an element stays if nothing in an
earlier list compares equal to it. -/
theorem mem_insertAll_flatten {s : Ascending cmp} {lists : List (List α)} {a : α}
    (h : ∀ list ∈ lists, ∀ x ∈ list, ∀ y ∈ list, cmp x y = .eq → x = y) :
    a ∈ (s.insertAll lists.flatten).toList ↔
      a ∈ s.toList ∨ (∀ y ∈ s.toList, cmp y a ≠ .eq) ∧
        ∃ earlier list later, lists = earlier ++ list :: later ∧ a ∈ list ∧
          ∀ before ∈ earlier, ∀ y ∈ before, cmp y a ≠ .eq := by
  induction lists generalizing s with
  | nil => simp [insertAll]
  | cons list lists ih =>
      have happend : s.insertAll (list :: lists).flatten =
          (s.insertAll list).insertAll lists.flatten := by
        rw [List.flatten_cons, insertAll, List.foldl_append]
        rfl
      rw [happend, ih fun l hl => h l (List.mem_cons_of_mem _ hl),
        mem_insertAll_of_apart (h list (by simp)), forall_mem_insertAll_ne, or_assoc]
      refine or_congr_right ⟨fun ha => ?_, fun ha => ?_⟩
      · rcases ha with ⟨ha, hfree⟩ | ⟨⟨hfree, hlist⟩, earlier, found, later, rfl, ha, hearlier⟩
        · exact ⟨hfree, [], list, lists, rfl, ha, by simp⟩
        · exact ⟨hfree, list :: earlier, found, later, rfl, ha,
            List.forall_mem_cons.mpr ⟨hlist, hearlier⟩⟩
      · obtain ⟨hfree, earlier, found, later, hsplit, ha, hearlier⟩ := ha
        cases earlier with
        | nil =>
            obtain ⟨rfl, rfl⟩ := List.cons.inj hsplit
            exact .inl ⟨ha, hfree⟩
        | cons first earlier =>
            obtain ⟨rfl, rfl⟩ := List.cons.inj hsplit
            obtain ⟨hlist, hearlier⟩ := List.forall_mem_cons.mp hearlier
            exact .inr ⟨⟨hfree, hlist⟩, earlier, found, later, rfl, ha, hearlier⟩

theorem mem_ofList_flatten {lists : List (List α)} {a : α}
    (h : ∀ list ∈ lists, ∀ x ∈ list, ∀ y ∈ list, cmp x y = .eq → x = y) :
    a ∈ (ofList lists.flatten : Ascending cmp).toList ↔
      ∃ earlier list later, lists = earlier ++ list :: later ∧ a ∈ list ∧
        ∀ before ∈ earlier, ∀ y ∈ before, cmp y a ≠ .eq := by
  rw [ofList, mem_insertAll_flatten h]
  simp [empty]

/-! ### Elements themselves -/

omit [Std.TransCmp cmp] in
private theorem compare_lt_antisymm [Std.OrientedCmp cmp] {a b : α} (hab : cmp a b = .lt)
    (hba : cmp b a = .lt) : a = b := by
  rw [Std.OrientedCmp.gt_of_lt hba] at hab
  cases hab

/-- A set whose elements are all in another one is a subsequence of it. -/
theorem sublist_of_subset {s t : Ascending cmp} (h : s.toList ⊆ t.toList) :
    s.toList.Sublist t.toList := by
  have : Std.Antisymm fun a b => cmp a b = .lt := ⟨fun _ _ => compare_lt_antisymm⟩
  exact List.sublist_of_subperm_of_pairwise (s.nodup.subperm h) s.ascends t.ascends

/-- Sets with the same elements are the same list. -/
theorem toList_eq_of_mem_iff {s t : Ascending cmp} (h : ∀ a, a ∈ s.toList ↔ a ∈ t.toList) :
    s.toList = t.toList :=
  ((List.perm_ext_iff_of_nodup s.nodup t.nodup).mpr h).eq_of_pairwise
    (fun _ _ _ _ => compare_lt_antisymm) s.ascends t.ascends

variable [Std.LawfulEqCmp cmp]

@[simp] theorem mem_insertAll {s : Ascending cmp} {xs : List α} {a : α} :
    a ∈ (s.insertAll xs).toList ↔ a ∈ s.toList ∨ a ∈ xs := by
  refine ⟨mem_of_mem_insertAll, fun h => ?_⟩
  rcases h with h | h
  · exact mem_insertAll_of_mem h
  · obtain ⟨b, hb, hab⟩ := exists_eq_mem_insertAll (s := s) h
    rwa [Std.LawfulEqCmp.eq_of_compare hab]

@[simp] theorem mem_ofList {xs : List α} {a : α} :
    a ∈ (ofList xs : Ascending cmp).toList ↔ a ∈ xs := by
  simp [ofList, empty]

@[simp] theorem mem_union {s t : Ascending cmp} {a : α} :
    a ∈ (s.union t).toList ↔ a ∈ s.toList ∨ a ∈ t.toList := by
  simp [union]

end DependencyAudit.Ascending
