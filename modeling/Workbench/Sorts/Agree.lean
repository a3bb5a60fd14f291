import Mathlib.Data.Int.Order.Basic
import Workbench.Sorts.Merge

/-!
# `Sorts.Agree` — the four sorts give the same array

A sorted permutation is unique, so that the sorts agree where each one of them ends with one.

## Main results
* `sortsAgree_iff` — they do so for every array but the empty one.
-/

namespace Workbench.Sorts

variable {α : Type} [LinearOrder α] {arr ys : List α} {run : Nat → Option (List α)}

/-- The call ends with the array `ys`, as soon as there is enough fuel. -/
def Yields (run : Nat → Option (List α)) (ys : List α) : Prop := ∃ least, ∀ fuel, least ≤ fuel → run fuel = some ys

/-- **All four sorts end**, with the same sorted permutation. -/
def SortsAgree (grants : Nat → Bool) (arr : List α) : Prop :=
  ∃ ys, SortOf arr ys ∧ Yields (fun fuel => bubbleSort fuel arr arr.length) ys ∧
    Yields (fun fuel => selectionSort fuel arr arr.length) ys ∧
    Yields (fun fuel => insertionSort fuel arr arr.length) ys ∧
    Yields (fun fuel => mergeSort grants fuel arr 0 arr.length) ys

theorem yields_of_sorts (least : Nat) (h : ∀ fuel, least ≤ fuel → ∃ zs, run fuel = some zs ∧ SortOf arr zs)
    (hys : SortOf arr ys) : Yields run ys := by
  refine ⟨least, fun fuel hfuel => ?_⟩
  obtain ⟨zs, hrun, hzs⟩ := h fuel hfuel
  rw [hrun, hzs.unique hys]

theorem mergeSort_sortOf {grants : Nat → Bool} {fuel : Nat} (hgrants : ∀ n, grants n = true) (hpos : 0 < arr.length)
    (hfuel : arr.length + 2 ≤ fuel) :
    ∃ zs, mergeSort grants fuel arr 0 arr.length = some zs ∧ SortOf arr zs := by
  obtain ⟨zs, hrun, hrest, hsorted⟩ := mergeSort_sorts hgrants hpos (Nat.le_of_eq (Nat.zero_add arr.length)) hfuel
  rw [Nat.zero_add, ← hrest.length] at hsorted
  exact ⟨zs, hrun, hrest.perm, hsorted.pairwise⟩

/-- **The four sorts agree on every array that is not empty, and on no other one.** -/
theorem sortsAgree_iff {grants : Nat → Bool} (hgrants : ∀ n, grants n = true) : SortsAgree grants arr ↔ arr ≠ [] := by
  constructor
  · rintro ⟨ys, -, ⟨least, hbubble⟩, -⟩ rfl
    have hnone : bubbleSort least ([] : List α) 0 = some ys := hbubble least (Nat.le_refl least)
    rw [bubbleSort_nil] at hnone
    cases hnone
  · intro hne
    have hpos : 0 < arr.length := List.length_pos_iff.mpr hne
    obtain ⟨ys, -, hys⟩ := mergeSort_sortOf hgrants hpos (Nat.le_refl _)
    refine ⟨ys, hys, yields_of_sorts arr.length (fun fuel hfuel => bubbleSort_sorts hpos hfuel) hys,
      yields_of_sorts (arr.length + 1) (fun fuel hfuel => selectionSort_sorts hpos hfuel) hys,
      yields_of_sorts arr.length (fun fuel hfuel => insertionSort_sorts hfuel (hpos.trans_le hfuel)) hys,
      yields_of_sorts (arr.length + 2) (fun fuel hfuel => mergeSort_sortOf hgrants hpos hfuel) hys⟩

theorem sortsAgree_sample : SortsAgree (fun _ => true) [3, 1, -2] :=
  (sortsAgree_iff fun _ => rfl).mpr (List.cons_ne_nil (3 : Int) [1, -2])

/-- On the empty array, two sorts leave the array and one does not end. -/
theorem sortsAgree_empty : ¬ SortsAgree (fun _ => true) ([] : List Int) ∧
    ∀ fuel, bubbleSort fuel ([] : List Int) 0 = none ∧ selectionSort fuel ([] : List Int) 0 = none ∧
      mergeSort (fun _ => true) fuel ([] : List Int) 0 0 = none := by
  refine ⟨?_, fun fuel => ⟨bubbleSort_nil fuel, selectionSort_nil fuel, mergeSort_zero _ fuel [] 0⟩⟩
  rintro ⟨ys, -, -, -, -, least, hmerge⟩
  have hnone : mergeSort (fun _ => true) least ([] : List Int) 0 0 = some ys := hmerge least (Nat.le_refl least)
  rw [mergeSort_zero] at hnone
  cases hnone

end Workbench.Sorts
