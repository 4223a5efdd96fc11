import DependencyAudit.Import.Occurrence
import Mathlib.Data.List.Basic
import Mathlib.Data.List.TakeWhile

/-!
Reading a form and spelling it are the same thing. Reading never goes back on
a choice, so it could miss a spelling if a room for blanks were followed by
something that may itself begin with a blank; `isSettled` says that this never
happens in a list of pieces. With it, reading a rule's form finds the request of
any spelling at the front of the text.
-/

namespace DependencyAudit.Import

open DependencyAudit.Text

/-! ### Pieces -/

/-- Whether the first piece is a text that begins with no blank. -/
def startsInked : List Piece → Bool
  | .text (c :: _) :: _ => !isBlank c
  | _ => false

/-- Whether an inked text follows each room for blanks. -/
def isSettled : List Piece → Bool
  | [] => true
  | .text _ :: pieces => isSettled pieces
  | _ :: pieces => startsInked pieces && isSettled pieces

theorem Spells.append {first second : List Piece} {front back : List Char}
    (h : Spells first front) (h' : Spells second back) :
    Spells (first ++ second) (front ++ back) := by
  induction h with
  | nil => exact h'
  | text _ ih =>
      rw [List.append_assoc]
      exact .text ih
  | gap blank _ ih =>
      rw [List.append_assoc]
      exact .gap blank ih
  | wideGap nonempty blank _ ih =>
      rw [List.append_assoc]
      exact .wideGap nonempty blank ih

theorem Spells.exists_cons_of_startsInked {pieces : List Piece} {cs : List Char}
    (hs : startsInked pieces = true) (h : Spells pieces cs) :
    ∃ d ds, cs = d :: ds ∧ isBlank d = false := by
  cases h with
  | nil => cases hs
  | @text chars cs pieces rest =>
      cases chars with
      | nil => cases hs
      | cons d ds => exact ⟨d, ds ++ cs, rfl, by simpa [startsInked] using hs⟩
  | gap => cases hs
  | wideGap => cases hs

theorem dropWhile_blanks_append {blanks cs : List Char} {d : Char}
    (hblank : ∀ c ∈ blanks, isBlank c = true) (hd : isBlank d = false) :
    (blanks ++ d :: cs).dropWhile isBlank = d :: cs := by
  rw [List.dropWhile_append_of_pos hblank, List.dropWhile_cons_of_neg (by simp [hd])]

theorem takeWhile_isBlank_blank {cs : List Char} :
    ∀ c ∈ cs.takeWhile isBlank, isBlank c = true :=
  fun _ hc => List.mem_takeWhile_imp hc

/-- What reading takes off the front is a spelling. -/
theorem exists_spells_of_readPieces? {pieces : List Piece} {cs rest : List Char}
    (h : readPieces? pieces cs = some rest) :
    ∃ front, Spells pieces front ∧ cs = front ++ rest := by
  induction pieces generalizing cs with
  | nil =>
      obtain rfl : cs = rest := by simpa [readPieces?] using h
      exact ⟨[], .nil, rfl⟩
  | cons piece pieces ih =>
      obtain ⟨mid, hmid, hrest⟩ := Option.bind_eq_some_iff.mp h
      obtain ⟨front, hfront, rfl⟩ := ih hrest
      cases piece with
      | text chars =>
          obtain rfl := List.append_eq_of_isPrefixOf?_eq_some hmid
          exact ⟨chars ++ front, .text hfront, by simp⟩
      | gap =>
          have hdrop : cs.dropWhile isBlank = front ++ rest := by
            simpa [Piece.read?] using hmid
          refine ⟨cs.takeWhile isBlank ++ front, .gap takeWhile_isBlank_blank hfront, ?_⟩
          rw [List.append_assoc, ← hdrop, List.takeWhile_append_dropWhile]
      | wideGap =>
          cases cs with
          | nil => cases hmid
          | cons c cs =>
              obtain ⟨hc, hdrop⟩ : isBlank c = true ∧ cs.dropWhile isBlank = front ++ rest := by
                simpa [Piece.read?] using hmid
              refine ⟨(c :: cs).takeWhile isBlank ++ front,
                .wideGap (by simp [hc]) takeWhile_isBlank_blank hfront, ?_⟩
              rw [List.append_assoc, ← hdrop, List.takeWhile_cons_of_pos hc, List.cons_append,
                List.takeWhile_append_dropWhile]

/-- Reading finds every spelling of settled pieces, whatever follows it. -/
theorem readPieces?_append {pieces : List Piece} {front : List Char} (rest : List Char)
    (hs : isSettled pieces = true) (h : Spells pieces front) :
    readPieces? pieces (front ++ rest) = some rest := by
  induction h with
  | nil => rfl
  | @text chars cs pieces _ ih =>
      have hread : (Piece.text chars).read? (chars ++ cs ++ rest) = some (cs ++ rest) := by
        simp [Piece.read?]
      rw [readPieces?, hread]
      exact ih hs
  | @gap blanks cs pieces blank h ih =>
      obtain ⟨hinked, hs⟩ : startsInked pieces = true ∧ isSettled pieces = true := by
        simpa [isSettled] using hs
      obtain ⟨d, ds, rfl, hd⟩ := h.exists_cons_of_startsInked hinked
      have hread : Piece.gap.read? (blanks ++ d :: ds ++ rest) = some (d :: ds ++ rest) := by
        rw [List.append_assoc, List.cons_append, Piece.read?, dropWhile_blanks_append blank hd]
      rw [readPieces?, hread]
      exact ih hs
  | @wideGap blanks cs pieces nonempty blank h ih =>
      obtain ⟨hinked, hs⟩ : startsInked pieces = true ∧ isSettled pieces = true := by
        simpa [isSettled] using hs
      obtain ⟨d, ds, rfl, hd⟩ := h.exists_cons_of_startsInked hinked
      obtain ⟨b, blanks, rfl⟩ := List.exists_cons_of_ne_nil nonempty
      have hread : Piece.wideGap.read? (b :: blanks ++ d :: ds ++ rest) =
          some (d :: ds ++ rest) := by
        rw [List.append_assoc, List.cons_append, List.cons_append, Piece.read?,
          if_pos (blank b (by simp)),
          dropWhile_blanks_append (fun c hc => blank c (List.mem_cons_of_mem b hc)) hd]
      rw [readPieces?, hread]
      exact ih hs

theorem readPieces?_pieces_append (first second : List Piece) (cs : List Char) :
    readPieces? (first ++ second) cs = (readPieces? first cs).bind (readPieces? second) := by
  induction first generalizing cs with
  | nil => rfl
  | cons piece first ih =>
      simp only [List.cons_append, readPieces?, Option.bind_assoc]
      congr 1
      funext mid
      exact ih mid

/-! ### Rules -/

/-- The pieces in front of the request, the opening quote among them. -/
def Rule.opening (rule : Rule) : List Piece :=
  rule.form.before ++ [.text [rule.quote.char]]

theorem Rule.isSettled_opening (rule : Rule) : isSettled rule.opening = true := by
  obtain ⟨kind, quote⟩ := rule
  cases kind <;> cases quote <;> decide

theorem Rule.isSettled_after (rule : Rule) : isSettled rule.form.after = true := by
  obtain ⟨kind, quote⟩ := rule
  cases kind <;> cases quote <;> decide

theorem Rule.readPieces?_before {rule : Rule} {front : List Char} (rest : List Char)
    (h : Import.Spells rule.form.before front) :
    readPieces? rule.form.before (front ++ rule.quote.char :: rest) =
      some (rule.quote.char :: rest) := by
  have hspell : Import.Spells rule.opening (front ++ [rule.quote.char]) :=
    h.append (.text .nil)
  have hread := readPieces?_append rest rule.isSettled_opening hspell
  rw [Rule.opening, readPieces?_pieces_append, List.append_assoc, List.singleton_append]
    at hread
  obtain ⟨mid, hmid, hquote⟩ := Option.bind_eq_some_iff.mp hread
  obtain ⟨front', hfront', rfl⟩ := exists_spells_of_readPieces? hquote
  obtain rfl : front' = [rule.quote.char] := by
    cases hfront' with
    | text h => cases h; rfl
  exact hmid

theorem Quote.read?_eq_some_iff {quote : Quote} {cs request rest : List Char} :
    quote.read? cs = some (request, rest) ↔
      cs = quote.char :: request ++ quote.char :: rest ∧ quote.Encloses request := by
  cases cs with
  | nil => simp [Quote.read?]
  | cons c cs =>
      by_cases hc : c = quote.char
      · subst hc
        rw [Quote.read?, if_pos rfl]
        refine ⟨fun h => ?_, fun h => ?_⟩
        · split at h
          next r request' rest' hcut =>
            obtain ⟨rfl, rfl⟩ : r :: request' = request ∧ rest' = rest := by simpa using h
            obtain ⟨rfl, hfree⟩ := cutAtFirst_eq_some_iff.mp hcut
            exact ⟨by simp, by simp, hfree⟩
          next => cases h
        · obtain ⟨hcs, hne, hfree⟩ := h
          obtain ⟨r, request, rfl⟩ := List.exists_cons_of_ne_nil hne
          have hcut : cutAtFirst quote.char cs = some (r :: request, rest) :=
            cutAtFirst_eq_some_iff.mpr ⟨by simpa using hcs, hfree⟩
          rw [hcut]
      · rw [Quote.read?, if_neg hc]
        simp [hc]

theorem Rule.requestOf?_eq_some_iff {rule : Rule} {cs request : List Char} :
    rule.requestOf? cs = some request ↔
      ∃ form rest, cs = form ++ rest ∧ rule.Spells request form := by
  refine ⟨fun h => ?_, fun h => ?_⟩
  · obtain ⟨mid, hbefore, h⟩ := Option.bind_eq_some_iff.mp h
    obtain ⟨⟨request', back⟩, hquote, h⟩ := Option.bind_eq_some_iff.mp h
    obtain ⟨rest, hafter, h⟩ := Option.bind_eq_some_iff.mp h
    obtain rfl : request' = request := by simpa using h
    obtain ⟨front, hfront, rfl⟩ := exists_spells_of_readPieces? hbefore
    obtain ⟨rfl, henc⟩ := Quote.read?_eq_some_iff.mp hquote
    obtain ⟨tail, htail, rfl⟩ := exists_spells_of_readPieces? hafter
    exact ⟨_, rest, by simp, .intro hfront henc htail⟩
  · obtain ⟨_, rest, rfl, ⟨hfront, henc, hback⟩⟩ := h
    rename_i front back
    have hbefore := Rule.readPieces?_before (request ++ rule.quote.char :: (back ++ rest)) hfront
    have hquote : rule.quote.read?
        (rule.quote.char :: (request ++ rule.quote.char :: (back ++ rest))) =
          some (request, back ++ rest) :=
      Quote.read?_eq_some_iff.mpr ⟨by simp, henc⟩
    have hafter := readPieces?_append rest rule.isSettled_after hback
    rw [show front ++ rule.quote.char :: request ++ rule.quote.char :: back ++ rest =
        front ++ rule.quote.char :: (request ++ rule.quote.char :: (back ++ rest)) by simp]
    exact Option.bind_eq_some_iff.mpr ⟨_, hbefore, Option.bind_eq_some_iff.mpr
      ⟨_, hquote, Option.bind_eq_some_iff.mpr ⟨_, hafter, rfl⟩⟩⟩

end DependencyAudit.Import
