import Mathlib.Tactic.Common

/-!
# `Lib.Merge` — what a merge keeps of its lists

`List.merge` takes from the first list as long as its head may come first. The elements of each list stay in their
order, and those of the first one come before those of the second one that may come after them.

## Main results
* `merge_cons_left` — the elements of the second list that the head of the first one lets through;
* `sublist_merge_left`, `sublist_merge_right` — the order of each list;
* `pair_sublist_merge` — across the two.
-/

namespace Workbench

variable {α : Type} {le : α → α → Bool} {x y : α}

theorem merge_cons_left (y : α) (ys xs : List α) : List.merge (y :: ys) xs le =
    xs.takeWhile (fun x => !le y x) ++ y :: List.merge ys (xs.dropWhile fun x => !le y x) le := by
  induction xs with
  | nil => simp
  | cons x xs ih =>
      by_cases hle : le y x = true
      · simp [hle]
      · simp [hle, ih]

theorem sublist_merge (xs ys : List α) : xs.Sublist (List.merge xs ys le) ∧ ys.Sublist (List.merge xs ys le) := by
  induction xs generalizing ys with
  | nil => simp
  | cons x xs ihx =>
      induction ys with
      | nil => simp
      | cons y ys ihy =>
          by_cases hle : le x y = true
          · rw [List.cons_merge_cons_pos le xs ys hle]
            obtain ⟨hxs, hys⟩ := ihx (y :: ys)
            exact ⟨hxs.cons_cons x, hys.cons x⟩
          · rw [List.cons_merge_cons_neg le xs ys hle]
            exact ⟨ihy.1.cons y, ihy.2.cons_cons y⟩

theorem sublist_merge_left (xs ys : List α) : xs.Sublist (List.merge xs ys le) := (sublist_merge xs ys).1

theorem sublist_merge_right (xs ys : List α) : ys.Sublist (List.merge xs ys le) := (sublist_merge xs ys).2

/-- **Of two elements** that may come in the order of the lists, the one of the first list does come first. -/
theorem pair_sublist_merge (htrans : ∀ x y z, le x y = true → le y z = true → le x z = true) {xs ys : List α}
    (hsorted : xs.Pairwise fun x y => le x y = true) (hx : x ∈ xs) (hy : y ∈ ys) (hle : le x y = true) :
    [x, y].Sublist (List.merge xs ys le) := by
  induction xs generalizing ys with
  | nil => cases hx
  | cons a xs ihx =>
      obtain ⟨ha, hsorted'⟩ := List.pairwise_cons.mp hsorted
      induction ys with
      | nil => cases hy
      | cons b ys ihy =>
          by_cases hab : le a b = true
          · rw [List.cons_merge_cons_pos le xs ys hab]
            rcases List.mem_cons.mp hx with rfl | hx
            · exact (List.singleton_sublist.mpr ((sublist_merge_right xs (b :: ys)).subset hy)).cons_cons x
            · exact (ihx hsorted' hx hy).cons a
          · rw [List.cons_merge_cons_neg le xs ys hab]
            rcases List.mem_cons.mp hy with rfl | hy
            · -- `y` goes before `a`, so `x` cannot come before `y`
              rcases List.mem_cons.mp hx with rfl | hx
              · exact absurd hle hab
              · exact absurd (htrans a x y (ha x hx) hle) hab
            · exact (ihy hy).cons b

end Workbench
