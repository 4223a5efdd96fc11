import DependencyAudit.Proofs.Cutting
import DependencyAudit.Text.Blank
import DependencyAudit.Text.Lines
import Mathlib.Data.List.DropRight

/-!
Trimming. Blank characters around a text do not count, a character that is not
blank holds everything between it and its neighbours in place, and cutting at
such a character gives the same trimmed parts whether or not the text has been
trimmed before.
-/

namespace DependencyAudit.Text

def Blank (cs : List Char) : Prop :=
  ∀ c ∈ cs, isBlank c = true

variable {cs blanks front back : List Char} {c : Char}

theorem blank_nil : Blank [] :=
  fun _ hc => absurd hc List.not_mem_nil

theorem blank_singleton (hc : isBlank c = true) : Blank [c] := by
  simpa [Blank] using hc

theorem Blank.not_mem (h : Blank blanks) (hc : isBlank c = false) : c ∉ blanks := by
  intro hmem
  rw [h c hmem] at hc
  cases hc

theorem eq_nil_of_append_blanks {last : Char} (hblanks : Blank blanks)
    (hlast : isBlank last = false) (h : front ++ blanks = back ++ [last]) : blanks = [] := by
  rcases List.eq_nil_or_concat' blanks with rfl | ⟨blanks, blank, rfl⟩
  · rfl
  · rw [← List.append_assoc] at h
    obtain ⟨-, hend⟩ := List.append_inj' h rfl
    obtain rfl : blank = last := List.singleton_inj.mp hend
    rw [hblanks blank (by simp)] at hlast
    cases hlast

theorem isBlank_of_isDigit (hc : c.isDigit = true) : isBlank c = false := by
  rw [Char.isDigit, Bool.and_eq_true, decide_eq_true_iff, decide_eq_true_iff, ge_iff_le,
    UInt32.le_iff_toNat_le, UInt32.le_iff_toNat_le] at hc
  obtain ⟨hlower, hupper⟩ : 48 ≤ c.toNat ∧ c.toNat ≤ 57 := hc
  simp only [isBlank, blankRanges, List.any_cons, List.any_nil, Bool.or_eq_false_iff,
    Bool.and_eq_false_iff, decide_eq_false_iff_not, and_true]
  omega

/-! ### Blanks at the ends -/

theorem trimStart_blanks_append (hblanks : Blank blanks) (cs : List Char) :
    trimStart (blanks ++ cs) = trimStart cs :=
  List.dropWhile_append_of_pos hblanks

theorem trimEnd_append_blanks (hblanks : Blank blanks) (cs : List Char) :
    trimEnd (cs ++ blanks) = trimEnd cs := by
  have hreverse : ∀ c ∈ blanks.reverse, isBlank c = true := fun c hc =>
    hblanks c (List.mem_reverse.mp hc)
  rw [trimEnd, List.reverse_append, List.dropWhile_append_of_pos hreverse]
  rfl

theorem Blank.trimStart_eq (hblanks : Blank blanks) : trimStart blanks = [] := by
  rw [trimStart, List.dropWhile_eq_nil_iff]
  exact hblanks

theorem Blank.trim_eq (hblanks : Blank blanks) : trim blanks = [] := by
  rw [trim, hblanks.trimStart_eq]
  rfl

/-! ### Around a character that stays -/

theorem trimStart_append_cons (hc : isBlank c = false) (front back : List Char) :
    trimStart (front ++ c :: back) = trimStart front ++ c :: back := by
  rw [trimStart, List.dropWhile_append]
  split
  next hempty =>
    rw [List.dropWhile_cons_of_neg (by simp [hc]), trimStart, List.isEmpty_iff.mp hempty]
    rfl
  next => rfl

theorem trimEnd_append_cons (hc : isBlank c = false) (front back : List Char) :
    trimEnd (front ++ c :: back) = front ++ c :: trimEnd back := by
  have hreverse : (front ++ c :: back).reverse = back.reverse ++ c :: front.reverse := by simp
  have hstart := trimStart_append_cons hc back.reverse front.reverse
  rw [trimStart] at hstart
  rw [trimEnd, hreverse, hstart]
  simp [trimEnd, trimStart]

theorem trim_append_cons (hc : isBlank c = false) (front back : List Char) :
    trim (front ++ c :: back) = trimStart front ++ c :: trimEnd back := by
  rw [trim, trimStart_append_cons hc, trimEnd_append_cons hc]

theorem blank_or_exists (cs : List Char) :
    Blank cs ∨ ∃ front c back, isBlank c = false ∧ cs = front ++ c :: back := by
  by_cases hblank : Blank cs
  · exact .inl hblank
  · simp only [Blank, not_forall, Bool.not_eq_true] at hblank
    obtain ⟨c, hmem, hc⟩ := hblank
    obtain ⟨front, back, rfl⟩ := List.append_of_mem hmem
    exact .inr ⟨front, c, back, hc, rfl⟩

theorem trim_blanks_append (hblanks : Blank blanks) (cs : List Char) :
    trim (blanks ++ cs) = trim cs := by
  rw [trim, trimStart_blanks_append hblanks]
  rfl

theorem trim_append_blanks (hblanks : Blank blanks) (cs : List Char) :
    trim (cs ++ blanks) = trim cs := by
  rcases blank_or_exists cs with hcs | ⟨front, c, back, hc, rfl⟩
  · rw [trim_blanks_append hcs, hblanks.trim_eq, hcs.trim_eq]
  · rw [List.append_assoc, List.cons_append, trim_append_cons hc, trim_append_cons hc,
      trimEnd_append_blanks hblanks]

/-! ### Trimming twice -/

theorem exists_trimStart (cs : List Char) : ∃ blanks, Blank blanks ∧ cs = blanks ++ trimStart cs :=
  ⟨cs.takeWhile isBlank, fun _ hc => List.mem_takeWhile_imp hc,
    List.takeWhile_append_dropWhile.symm⟩

theorem exists_trimEnd (cs : List Char) : ∃ blanks, Blank blanks ∧ cs = trimEnd cs ++ blanks := by
  obtain ⟨blanks, hblanks, hcs⟩ := exists_trimStart cs.reverse
  refine ⟨blanks.reverse, fun c hc => hblanks c (List.mem_reverse.mp hc), ?_⟩
  simpa [trimEnd, trimStart] using congrArg List.reverse hcs

theorem exists_trim (cs : List Char) :
    ∃ blanks blanks', Blank blanks ∧ Blank blanks' ∧ cs = blanks ++ trim cs ++ blanks' := by
  obtain ⟨blanks, hblanks, hcs⟩ := exists_trimStart cs
  obtain ⟨blanks', hblanks', hrest⟩ := exists_trimEnd (trimStart cs)
  refine ⟨blanks, blanks', hblanks, hblanks', ?_⟩
  rw [trim, List.append_assoc, ← hrest, ← hcs]

theorem trim_trimStart (cs : List Char) : trim (trimStart cs) = trim cs := by
  obtain ⟨blanks, hblanks, hcs⟩ := exists_trimStart cs
  rw [← trim_blanks_append hblanks (trimStart cs), ← hcs]

theorem trim_trimEnd (cs : List Char) : trim (trimEnd cs) = trim cs := by
  obtain ⟨blanks, hblanks, hcs⟩ := exists_trimEnd cs
  rw [← trim_append_blanks hblanks (trimEnd cs), ← hcs]

theorem trim_trim (cs : List Char) : trim (trim cs) = trim cs := by
  have htwice := trim_trimEnd (trimStart cs)
  rwa [trim_trimStart] at htwice

theorem trim_dropReturn (row : List Char) : trim (dropReturn row) = trim row := by
  rw [dropReturn]
  split
  next hreturn =>
    have hblank : Blank ['\r'] := blank_singleton (by decide)
    rw [← trim_append_blanks hblank row.dropLast, List.dropLast_append_getLast? _ hreturn]
  next => rfl

/-! ### Trimmed texts -/

theorem trimStart_eq_self (h : trim cs = cs) : trimStart cs = cs := by
  have hsuffix : trimStart cs <:+ cs := List.dropWhile_suffix _
  have hprefix : trim cs <+: trimStart cs := List.rdropWhile_prefix _ _
  apply hsuffix.eq_of_length_le
  simpa only [h] using hprefix.length_le

theorem trimEnd_eq_self (h : trim cs = cs) : trimEnd cs = cs := by
  rw [trim, trimStart_eq_self h] at h
  exact h

theorem isBlank_head (h : trim (c :: cs) = c :: cs) : isBlank c = false := by
  have hstart := trimStart_eq_self h
  by_contra hc
  rw [trimStart, List.dropWhile_cons_of_pos (by simpa using hc)] at hstart
  have hlength := (List.dropWhile_suffix isBlank (l := cs)).length_le
  rw [hstart, List.length_cons] at hlength
  omega

theorem trimStart_append_of_trim (h : trim cs = cs) (hne : cs ≠ []) (back : List Char) :
    trimStart (cs ++ back) = cs ++ back := by
  cases cs with
  | nil => exact absurd rfl hne
  | cons c cs => exact trimStart_append_cons (isBlank_head h) [] (cs ++ back)

/-! ### Trimmed parts -/

theorem map_trim_splitOn_append_blanks {sep : Char} (hsep : isBlank sep = false)
    (hblanks : Blank blanks) (cs : List Char) :
    ((cs ++ blanks).splitOn sep).map trim = (cs.splitOn sep).map trim := by
  have hfree : sep ∉ blanks := hblanks.not_mem hsep
  -- only the last part changes
  generalize hparts : cs.splitOn sep = parts
  rw [splitOn_eq_iff] at hparts
  induction hparts with
  | @last part hpart =>
      rw [List.splitOn_eq_singleton (by simp [hpart, hfree])]
      simp only [List.map_cons, List.map_nil, trim_append_blanks hblanks]
  | @cons part rest parts hpart _ ih =>
      rw [List.append_assoc, List.cons_append, List.splitOn_append_cons_self_of_not_mem hpart,
        List.map_cons, List.map_cons, ih]

theorem map_trim_splitOn_blanks_append {sep : Char} (hsep : isBlank sep = false)
    (hblanks : Blank blanks) (cs : List Char) :
    ((blanks ++ cs).splitOn sep).map trim = (cs.splitOn sep).map trim := by
  have hfree : sep ∉ blanks := hblanks.not_mem hsep
  -- only the first part changes
  by_cases hmem : sep ∈ cs
  · obtain ⟨part, rest, rfl, hpart⟩ := List.eq_append_cons_of_mem hmem
    have hfirst : sep ∉ blanks ++ part := by simp [hpart, hfree]
    rw [← List.append_assoc, List.splitOn_append_cons_self, List.splitOn_append_cons_self,
      List.splitOn_eq_singleton hpart, List.splitOn_eq_singleton hfirst]
    simp only [List.map_append, List.map_cons, List.map_nil, trim_blanks_append hblanks]
  · have hnone : sep ∉ blanks ++ cs := by simp [hmem, hfree]
    rw [List.splitOn_eq_singleton hnone, List.splitOn_eq_singleton hmem]
    simp only [List.map_cons, List.map_nil, trim_blanks_append hblanks]

/-- Trimming first changes no part but by blanks at its ends. -/
theorem map_trim_splitOn_trim {sep : Char} (hsep : isBlank sep = false) (cs : List Char) :
    ((trim cs).splitOn sep).map trim = (cs.splitOn sep).map trim := by
  obtain ⟨blanks, blanks', hblanks, hblanks', hcs⟩ := exists_trim cs
  have hback := map_trim_splitOn_append_blanks hsep hblanks' (blanks ++ trim cs)
  rw [← hcs, map_trim_splitOn_blanks_append hsep hblanks] at hback
  exact hback.symm

end DependencyAudit.Text
