import Mathlib.Data.List.TakeWhile
import Mathlib.Tactic.Common

/-!
# `Lib.Pieces` — what is between the separators of a list

`List.splitOnP` gives one part more than there are separators, and some parts may be empty. The pieces are the other
ones.

## Main results
* `pieces_cases` — a list starts with separators, and then has a piece, or ends;
* `pieces_first` — the first piece is taken off;
* `length_pieces_eq_iff` — when there is one piece more than there are separators.
-/

namespace Workbench

variable {α : Type} {p : α → Bool} {xs seps piece rest : List α} {sep : α}

/-- The parts that are not empty. -/
def pieces (p : α → Bool) (xs : List α) : List (List α) := (xs.splitOnP p).filter fun piece => !piece.isEmpty

theorem length_splitOnP (p : α → Bool) (xs : List α) : (xs.splitOnP p).length = xs.countP p + 1 := by
  induction xs with
  | nil => rfl
  | cons x xs ih =>
      rw [List.splitOnP_cons_eq_if_modifyHead]
      by_cases hx : p x = true
      · rw [if_pos hx, List.length_cons, ih, List.countP_cons_of_pos hx]
      · rw [if_neg hx, List.length_modifyHead, ih, List.countP_cons_of_neg hx]

theorem not_of_dropWhile_eq {x : α} (h : xs.dropWhile p = x :: rest) : p x = false := by
  have hhead := List.head?_dropWhile_not p xs
  rwa [h] at hhead

/-- What starts a list. -/
theorem pieces_cases (p : α → Bool) (xs : List α) :
    (∀ x ∈ xs, p x = true) ∨ ∃ seps piece rest, xs = seps ++ (piece ++ rest) ∧ (∀ x ∈ seps, p x = true) ∧ piece ≠ [] ∧
      (∀ x ∈ piece, p x = false) ∧ (rest = [] ∨ ∃ sep rest', rest = sep :: rest' ∧ p sep = true) := by
  have hxs : xs = xs.takeWhile p ++ xs.dropWhile p := (List.takeWhile_append_dropWhile).symm
  have hseps : ∀ x ∈ xs.takeWhile p, p x = true := fun x hx => List.mem_takeWhile_imp hx
  cases htail : xs.dropWhile p with
  | nil =>
      rw [htail, List.append_nil] at hxs
      exact .inl (hxs ▸ hseps)
  | cons y tail =>
      have hy : p y = false := not_of_dropWhile_eq htail
      have hpiece : ∀ x ∈ (y :: tail).takeWhile (!p ·), p x = false := fun x hx => by
        simpa only [Bool.not_eq_true'] using List.mem_takeWhile_imp hx
      refine .inr ⟨xs.takeWhile p, (y :: tail).takeWhile (!p ·), (y :: tail).dropWhile (!p ·), ?_, hseps, ?_, hpiece,
        ?_⟩
      · rw [List.takeWhile_append_dropWhile, ← htail]
        exact hxs
      · rw [List.takeWhile_cons_of_pos (by rw [hy]; rfl)]
        exact List.cons_ne_nil _ _
      · cases hrest : (y :: tail).dropWhile (!p ·) with
        | nil => exact .inl rfl
        | cons sep rest' =>
            have hsep : (!p sep) = false := not_of_dropWhile_eq (p := (!p ·)) hrest
            exact .inr ⟨sep, rest', rfl, by rwa [Bool.not_eq_false'] at hsep⟩

/-- Separators in front give no pieces. -/
theorem pieces_append (hseps : ∀ x ∈ seps, p x = true) (xs : List α) : pieces p (seps ++ xs) = pieces p xs := by
  induction seps with
  | nil => rfl
  | cons sep seps ih =>
      rw [pieces, List.cons_append, List.splitOnP_cons_eq_if_modifyHead, if_pos (hseps sep List.mem_cons_self)]
      exact ih fun x hx => hseps x (List.mem_cons_of_mem sep hx)

theorem pieces_eq_nil (hxs : ∀ x ∈ xs, p x = true) : pieces p xs = [] := by
  rw [← List.append_nil xs, pieces_append hxs]
  rfl

theorem pieces_last (hpiece : ∀ x ∈ piece, p x = false) (hne : piece ≠ []) : pieces p piece = [piece] := by
  rw [pieces, List.splitOnP_eq_singleton hpiece]
  exact List.filter_cons_of_pos (by simpa using hne)

/-- **The first piece** in front of a separator. -/
theorem pieces_first (hpiece : ∀ x ∈ piece, p x = false) (hne : piece ≠ []) (hsep : p sep = true) (rest : List α) :
    pieces p (piece ++ sep :: rest) = piece :: pieces p rest := by
  rw [pieces, List.splitOnP_append_cons_of_forall_mem hpiece sep hsep]
  exact List.filter_cons_of_pos (by simpa using hne)

theorem length_pieces_le (p : α → Bool) (xs : List α) : (pieces p xs).length ≤ xs.countP p + 1 := by
  rw [← length_splitOnP]
  exact List.length_filter_le _ _

/-- **One piece more than separators**: no part is empty. -/
theorem length_pieces_eq_iff (p : α → Bool) (xs : List α) :
    (pieces p xs).length = xs.countP p + 1 ↔ [] ∉ xs.splitOnP p := by
  rw [← length_splitOnP, pieces, List.length_filter_eq_length_iff]
  constructor
  · intro hall hmem
    exact absurd (hall [] hmem) Bool.false_ne_true
  · intro hnot piece hmem
    have hne : piece ≠ [] := fun hnil => hnot (hnil ▸ hmem)
    simpa using hne

end Workbench
