import Mathlib.Order.Lattice
import Workbench.Lib.Sorting
import Workbench.Lib.While

/-!
# `Sorts.Exchange` — `BubbleSort`, `SelectionSort`, `InsertionSort`

The three sorts that swap elements of the array. Lengths are unsigned, so that `length - 1` of an empty array is the
largest length. An access outside of the array fails.

## Main results
* `bubbleSort_sorts`, `selectionSort_sorts` — for every array with an element;
* `insertionSort_sorts` — for every array;
* `bubbleSort_nil`, `selectionSort_nil` — the empty array.
-/

namespace Workbench.Sorts

open BinaryHeap (Swapped swapped_set)

/-- Subtraction of `size_t`. -/
def sizeSub (a b : Nat) : Nat := if b ≤ a then a - b else 18446744073709551616 + a - b

section

variable {α : Type} {arr : List α} {i j : Nat}

def swapInt (arr : List α) (first second : Nat) : Option (List α) := do
  let x ← arr[first]?
  let y ← arr[second]?
  return (arr.set first y).set second x

theorem sizeSub_of_le (h : j ≤ i) : sizeSub i j = i - j := if_pos h

theorem swapInt_swapped (hi : i < arr.length) (hj : j < arr.length) :
    ∃ arr', swapInt arr i j = some arr' ∧ Swapped arr i j arr' := by
  have hx : arr[i]? = some arr[i] := List.getElem?_eq_getElem hi
  have hy : arr[j]? = some arr[j] := List.getElem?_eq_getElem hj
  exact ⟨_, by rw [swapInt, hx, hy]; rfl, swapped_set hx hy⟩

end

variable {α : Type} [LinearOrder α]

/-! ## The functions -/

/-- The body of the inner loop of `BubbleSort`, with `sort_index`. -/
def bubbleStep : List α × Nat → Option (List α × Nat)
  | (arr, sortIndex) => do
      let x ← arr[sortIndex]?
      let y ← arr[sortIndex + 1]?
      let arr ← if y < x then swapInt arr sortIndex (sortIndex + 1) else some arr
      return (arr, sortIndex + 1)

/-- The body of the outer loop, with `runner`. -/
def bubbleTurn (fuel length : Nat) : List α × Nat → Option (List α × Nat)
  | (arr, runner) => do
      let (arr, _) ← whileDo (fun s => some (decide (s.2 < sizeSub (sizeSub length runner) 1))) bubbleStep fuel (arr, 0)
      return (arr, runner + 1)

def bubbleSort (fuel : Nat) (arr : List α) (length : Nat) : Option (List α) := do
  let (arr, _) ← whileDo (fun s => some (decide (s.2 < sizeSub length 1))) (bubbleTurn fuel length) fuel (arr, 0)
  return arr

/-- The body of the inner loop of `SelectionSort`, with `runner` and `min_index`. -/
def selectionStep (arr : List α) : Nat × Nat → Option (Nat × Nat)
  | (runner, minIndex) => do
      let x ← arr[runner]?
      let y ← arr[minIndex]?
      return (runner + 1, if x < y then runner else minIndex)

/-- The body of the outer loop, with `sort_index`. -/
def selectionTurn (fuel length : Nat) : List α × Nat → Option (List α × Nat)
  | (arr, sortIndex) => do
      let (_, minIndex) ← whileDo (fun s => some (decide (s.1 < length))) (selectionStep arr) fuel
        (sortIndex, sortIndex)
      let arr ← swapInt arr sortIndex minIndex
      return (arr, sortIndex + 1)

def selectionSort (fuel : Nat) (arr : List α) (length : Nat) : Option (List α) := do
  let (arr, _) ← whileDo (fun s => some (decide (s.2 < sizeSub length 1))) (selectionTurn fuel length) fuel (arr, 0)
  return arr

/-- The condition of the inner loop of `InsertionSort`, with `sort_runner`. -/
def insertionGoes : List α × Nat → Option Bool
  | (arr, sortRunner) =>
      if 0 < sortRunner then do
        let x ← arr[sortRunner - 1]?
        let y ← arr[sortRunner]?
        return decide (y < x)
      else some false

def insertionStep : List α × Nat → Option (List α × Nat)
  | (arr, sortRunner) => do
      let arr ← swapInt arr sortRunner (sortRunner - 1)
      return (arr, sortRunner - 1)

/-- The body of the outer loop, with `runner`. -/
def insertionTurn (fuel : Nat) : List α × Nat → Option (List α × Nat)
  | (arr, runner) => do
      let (arr, _) ← whileDo insertionGoes insertionStep fuel (arr, runner)
      return (arr, runner + 1)

def insertionSort (fuel : Nat) (arr : List α) (length : Nat) : Option (List α) := do
  let (arr, _) ← whileDo (fun s => some (decide (s.2 < length))) (insertionTurn fuel) fuel (arr, 1)
  return arr

/-! ## In order -/

/-- **What a sort gives**: the elements in order. -/
def SortOf (xs ys : List α) : Prop := ys.Perm xs ∧ ys.Pairwise (· ≤ ·)

/-- Two lists of the same elements in order are one. -/
theorem SortOf.unique {xs ys zs : List α} (hy : SortOf xs ys) (hz : SortOf xs zs) : ys = zs :=
  List.Perm.eq_of_pairwise (fun _ _ _ _ h h' => le_antisymm h h') hy.2 hz.2 (hy.1.trans hz.1.symm)

variable {arr arr' xs : List α} {i j k length fuel : Nat} {x y : α}

/-! ## `BubbleSort` -/

/-- The elements from `k` on are in their places. -/
structure Sunk (k : Nat) (arr : List α) : Prop where
  sorted : SortedOn (· ≤ ·) k arr.length arr
  before : Before (· ≤ ·) 0 k arr.length arr

/-- What is before `k` trades places. -/
theorem Sunk.keep (h : Sunk k arr) (hrest : Rearranged 0 k arr arr') : Sunk k arr' := by
  obtain ⟨hsorted, hbefore⟩ := h
  rw [← hrest.length] at hsorted hbefore
  exact ⟨hsorted.keep hrest (by omega), hbefore.keep hrest (by omega) (by omega)⟩

/-- The largest element before `k + 1` is the last one. -/
theorem Sunk.next (h : Sunk (k + 1) arr) (hmax : ∀ i x y, i < k → arr[i]? = some x → arr[k]? = some y → x ≤ y) :
    Sunk k arr := by
  refine ⟨fun i j x y hi hij hj hx hy => ?_, fun i j x y _ hi hj hjl hx hy => ?_⟩
  · rcases Nat.lt_or_ge k i with hk | hk
    · exact h.sorted i j x y hk hij hj hx hy
    · exact h.before i j x y (Nat.zero_le i) (by omega) (by omega) hj hx hy
  · rcases Nat.lt_or_ge k j with hk | hk
    · exact h.before i j x y (Nat.zero_le i) (by omega) hk hjl hx hy
    · obtain rfl : j = k := by omega
      exact hmax i x y hi hx hy

/-- The inner loop at `sort_index`: the largest of the elements so far is there. -/
structure Bubbles (xs : List α) (k : Nat) (arr : List α) (sortIndex : Nat) : Prop where
  rearranged : Rearranged 0 (k + 1) xs arr
  largest : ∀ i x y, i < sortIndex → arr[i]? = some x → arr[sortIndex]? = some y → x ≤ y

theorem bubbleStep_bubbles {sortIndex : Nat} (hk : k < xs.length) (h : Bubbles xs k arr sortIndex)
    (hlt : sortIndex < k) :
    ∃ arr', bubbleStep (arr, sortIndex) = some (arr', sortIndex + 1) ∧ Bubbles xs k arr' (sortIndex + 1) := by
  obtain ⟨hrest, hlargest⟩ := h
  have hlength := hrest.length
  have hi : sortIndex < arr.length := by omega
  have hj : sortIndex + 1 < arr.length := by omega
  have hx : arr[sortIndex]? = some arr[sortIndex] := List.getElem?_eq_getElem hi
  have hy : arr[sortIndex + 1]? = some arr[sortIndex + 1] := List.getElem?_eq_getElem hj
  simp only [bubbleStep, hx, hy, bind, Option.bind_some]
  by_cases hcmp : arr[sortIndex + 1] < arr[sortIndex]
  · obtain ⟨arr', hswap, hswapped⟩ := swapInt_swapped hi hj
    rw [if_pos hcmp, hswap]
    refine ⟨arr', rfl, hrest.trans (.of_swapped hswapped (by omega) (by omega)), fun i x y hilt hix hiy => ?_⟩
    rw [hswapped.right, hx] at hiy
    obtain rfl := Option.some.inj hiy
    rcases Nat.lt_or_ge i sortIndex with hbefore | hat
    · rw [hswapped.others i (by omega) (by omega)] at hix
      exact hlargest i x _ hbefore hix hx
    · obtain rfl : i = sortIndex := by omega
      rw [hswapped.left, hy] at hix
      obtain rfl := Option.some.inj hix
      exact le_of_lt hcmp
  · rw [if_neg hcmp]
    refine ⟨arr, rfl, hrest, fun i x y hilt hix hiy => ?_⟩
    obtain rfl := Option.some.inj (hy.symm.trans hiy)
    rcases Nat.lt_or_ge i sortIndex with hbefore | hat
    · exact (hlargest i x _ hbefore hix hx).trans (le_of_not_gt hcmp)
    · obtain rfl : i = sortIndex := by omega
      obtain rfl := Option.some.inj (hx.symm.trans hix)
      exact le_of_not_gt hcmp

/-- One turn of the outer loop. -/
theorem bubbleTurn_sunk {runner : Nat} (hlength : arr.length = runner + k + 1) (hfuel : k < fuel)
    (h : Sunk (k + 1) arr) :
    ∃ arr', bubbleTurn fuel arr.length (arr, runner) = some (arr', runner + 1) ∧ arr'.Perm arr ∧ Sunk k arr' := by
  have hbound : sizeSub (sizeSub arr.length runner) 1 = k := by
    rw [sizeSub_of_le (show runner ≤ arr.length by omega), sizeSub_of_le (show 1 ≤ arr.length - runner by omega)]
    omega
  have hk : k < arr.length := by omega
  have hstart : Bubbles arr k arr 0 := ⟨.refl 0 (k + 1) arr, fun i _ _ hi => absurd hi (Nat.not_lt_zero i)⟩
  obtain ⟨⟨arr', sortIndex⟩, hloop, hinv, hend⟩ := whileDo_upTo bubbleStep
    (fun s => Bubbles arr k s.1 s.2) Prod.snd k (s := (arr, 0)) (fun s hs hlt => by
      obtain ⟨arr', hstep, hs'⟩ := bubbleStep_bubbles hk hs hlt
      exact ⟨_, hstep, hs', rfl⟩) hstart (Nat.zero_le k) hfuel
  obtain rfl : sortIndex = k := hend
  obtain ⟨hrest, hlargest⟩ : Bubbles arr sortIndex arr' sortIndex := hinv
  refine ⟨arr', ?_, hrest.perm, (h.keep hrest).next hlargest⟩
  simp only [bubbleTurn, hbound, hloop, bind, Option.bind_some]
  rfl

/-- **`BubbleSort` sorts an array with an element.** -/
theorem bubbleSort_sorts (hpos : 0 < arr.length) (hfuel : arr.length ≤ fuel) :
    ∃ ys, bubbleSort fuel arr arr.length = some ys ∧ SortOf arr ys := by
  have hbound : sizeSub arr.length 1 = arr.length - 1 := sizeSub_of_le hpos
  have hstart : arr.Perm arr ∧ Sunk (arr.length - 0) arr :=
    ⟨List.Perm.refl arr, sortedOn_of_le (Nat.le_succ _), fun i j x y _ _ hj hjl => by omega⟩
  obtain ⟨⟨ys, runner⟩, hloop, hinv, hend⟩ := whileDo_upTo (bubbleTurn fuel arr.length)
    (fun s => s.1.Perm arr ∧ Sunk (arr.length - s.2) s.1) Prod.snd (arr.length - 1) (s := (arr, 0)) (fun s hs hlt => by
      obtain ⟨ys, runner⟩ := s
      obtain ⟨hperm, hsunk⟩ : ys.Perm arr ∧ Sunk (arr.length - runner) ys := hs
      have hlt : runner < arr.length - 1 := hlt
      have hlength := hperm.length_eq
      rw [show arr.length - runner = arr.length - (runner + 1) + 1 by omega] at hsunk
      obtain ⟨ys', hbody, hperm', hsunk'⟩ := bubbleTurn_sunk
        (show ys.length = runner + (arr.length - (runner + 1)) + 1 by omega)
        (show arr.length - (runner + 1) < fuel by omega) hsunk
      rw [hlength] at hbody
      exact ⟨_, hbody, ⟨hperm'.trans hperm, hsunk'⟩, rfl⟩) hstart (Nat.zero_le _)
    (show arr.length - 1 - 0 < fuel by omega)
  obtain rfl : runner = arr.length - 1 := hend
  obtain ⟨hperm, hsunk⟩ : ys.Perm arr ∧ Sunk (arr.length - (arr.length - 1)) ys := hinv
  rw [show arr.length - (arr.length - 1) = 1 by omega] at hsunk
  have hall : SortedOn (· ≤ ·) 0 ys.length ys := (sortedOn_of_le (Nat.le_refl 1)).glue hsunk.sorted hsunk.before
  refine ⟨ys, ?_, hperm, hall.pairwise⟩
  simp only [bubbleSort, hbound, hloop, bind, Option.bind_some]
  rfl

/-! ## `SelectionSort` -/

/-- The elements up to `k` are in their places. -/
structure Placed (k : Nat) (arr : List α) : Prop where
  sorted : SortedOn (· ≤ ·) 0 k arr
  before : Before (· ≤ ·) 0 k arr.length arr

theorem Placed.keep (h : Placed k arr) (hrest : Rearranged k arr.length arr arr') : Placed k arr' := by
  obtain ⟨hsorted, hbefore⟩ := h
  refine ⟨hsorted.keep hrest (by omega), ?_⟩
  rw [hrest.length]
  exact hbefore.keep hrest (by omega) (by omega)

/-- The smallest element from `k` on is the first one. -/
theorem Placed.next (h : Placed k arr)
    (hmin : ∀ j x y, k < j → j < arr.length → arr[k]? = some x → arr[j]? = some y → x ≤ y) : Placed (k + 1) arr := by
  refine ⟨fun i j x y _ hij hj hx hy => ?_, fun i j x y _ hi hj hjl hx hy => ?_⟩
  · rcases Nat.lt_or_ge j k with hk | hk
    · exact h.sorted i j x y (Nat.zero_le i) hij hk hx hy
    · exact h.before i j x y (Nat.zero_le i) (by omega) hk (List.getElem?_eq_some_iff.mp hy).1 hx hy
  · rcases Nat.lt_or_ge i k with hk | hk
    · exact h.before i j x y (Nat.zero_le i) hk (by omega) hjl hx hy
    · obtain rfl : i = k := by omega
      exact hmin j x y hj hjl hx hy

/-- The inner loop at `runner`: the smallest of the elements so far is at `min_index`. -/
structure Smallest (arr : List α) (k runner minIndex : Nat) : Prop where
  ge : k ≤ minIndex
  lt : minIndex < arr.length
  smallest : ∀ i x y, k ≤ i → i < runner → arr[i]? = some x → arr[minIndex]? = some y → y ≤ x

theorem selectionStep_smallest {runner minIndex : Nat} (h : Smallest arr k runner minIndex) (hk : k ≤ runner)
    (hlt : runner < arr.length) :
    ∃ minIndex', selectionStep arr (runner, minIndex) = some (runner + 1, minIndex') ∧
      Smallest arr k (runner + 1) minIndex' := by
  obtain ⟨hge, hmin, hsmallest⟩ := h
  have hx : arr[runner]? = some arr[runner] := List.getElem?_eq_getElem hlt
  have hy : arr[minIndex]? = some arr[minIndex] := List.getElem?_eq_getElem hmin
  simp only [selectionStep, hx, hy, bind, Option.bind_some]
  by_cases hcmp : arr[runner] < arr[minIndex]
  · rw [if_pos hcmp]
    refine ⟨runner, rfl, hk, hlt, fun i x y hki hi hix hiy => ?_⟩
    obtain rfl := Option.some.inj (hx.symm.trans hiy)
    rcases Nat.lt_or_ge i runner with hbefore | hat
    · exact (le_of_lt hcmp).trans (hsmallest i x _ hki hbefore hix hy)
    · obtain rfl : i = runner := by omega
      exact le_of_eq (Option.some.inj (hx.symm.trans hix))
  · rw [if_neg hcmp]
    refine ⟨minIndex, rfl, hge, hmin, fun i x y hki hi hix hiy => ?_⟩
    rcases Nat.lt_or_ge i runner with hbefore | hat
    · exact hsmallest i x y hki hbefore hix hiy
    · obtain rfl : i = runner := by omega
      obtain rfl := Option.some.inj (hx.symm.trans hix)
      obtain rfl := Option.some.inj (hy.symm.trans hiy)
      exact le_of_not_gt hcmp

theorem selectionTurn_placed (hk : k < arr.length) (hfuel : arr.length < fuel + k) (h : Placed k arr) :
    ∃ arr', selectionTurn fuel arr.length (arr, k) = some (arr', k + 1) ∧ arr'.Perm arr ∧ Placed (k + 1) arr' := by
  have hstart : k ≤ k ∧ Smallest arr k k k := ⟨Nat.le_refl k, Nat.le_refl k, hk, fun i _ _ hki hi => by omega⟩
  obtain ⟨⟨runner, minIndex⟩, hloop, hinv, hend⟩ := whileDo_upTo (selectionStep arr)
    (fun s => k ≤ s.1 ∧ Smallest arr k s.1 s.2) Prod.fst arr.length (s := (k, k)) (fun s hs hlt => by
      obtain ⟨hks, hs⟩ := hs
      obtain ⟨minIndex', hstep, hs'⟩ := selectionStep_smallest hs hks hlt
      exact ⟨_, hstep, ⟨Nat.le_succ_of_le hks, hs'⟩, rfl⟩) hstart (Nat.le_of_lt hk)
    (show arr.length - k < fuel by omega)
  obtain rfl : runner = arr.length := hend
  obtain ⟨hge, hmin, hsmallest⟩ : Smallest arr k arr.length minIndex := hinv.2
  obtain ⟨arr', hswap, hswapped⟩ := swapInt_swapped hk hmin
  have hrest : Rearranged k arr.length arr arr' := .of_swapped hswapped ⟨Nat.le_refl k, hk⟩ ⟨hge, hmin⟩
  refine ⟨arr', ?_, hswapped.perm, (h.keep hrest).next fun j x y hj hjl hx hy => ?_⟩
  · simp only [selectionTurn, hloop, bind, Option.bind_some, hswap]
    rfl
  · rw [hswapped.left] at hx
    obtain ⟨l, hl, hlt, hget⟩ := hrest.inside (Nat.le_of_lt hj) (hrest.length ▸ hjl)
    exact hsmallest l y x hl hlt (hget ▸ hy) hx

/-- **`SelectionSort` sorts an array with an element.** -/
theorem selectionSort_sorts (hpos : 0 < arr.length) (hfuel : arr.length < fuel) :
    ∃ ys, selectionSort fuel arr arr.length = some ys ∧ SortOf arr ys := by
  have hbound : sizeSub arr.length 1 = arr.length - 1 := sizeSub_of_le hpos
  have hstart : arr.Perm arr ∧ Placed 0 arr :=
    ⟨List.Perm.refl arr, sortedOn_of_le (Nat.zero_le _), fun i j x y _ hi => absurd hi (Nat.not_lt_zero i)⟩
  obtain ⟨⟨ys, sortIndex⟩, hloop, hinv, hend⟩ := whileDo_upTo (selectionTurn fuel arr.length)
    (fun s => s.1.Perm arr ∧ Placed s.2 s.1) Prod.snd (arr.length - 1) (s := (arr, 0)) (fun s hs hlt => by
      obtain ⟨ys, sortIndex⟩ := s
      obtain ⟨hperm, hplaced⟩ : ys.Perm arr ∧ Placed sortIndex ys := hs
      have hlt : sortIndex < arr.length - 1 := hlt
      have hlength := hperm.length_eq
      obtain ⟨ys', hbody, hperm', hplaced'⟩ := selectionTurn_placed (show sortIndex < ys.length by omega)
        (show ys.length < fuel + sortIndex by omega) hplaced
      rw [hlength] at hbody
      exact ⟨_, hbody, ⟨hperm'.trans hperm, hplaced'⟩, rfl⟩) hstart (Nat.zero_le _)
    (show arr.length - 1 - 0 < fuel by omega)
  obtain rfl : sortIndex = arr.length - 1 := hend
  obtain ⟨hperm, hplaced⟩ : ys.Perm arr ∧ Placed (arr.length - 1) ys := hinv
  have hlast : SortedOn (· ≤ ·) (arr.length - 1) ys.length ys := sortedOn_of_le (by rw [hperm.length_eq]; omega)
  have hall : SortedOn (· ≤ ·) 0 ys.length ys := hplaced.sorted.glue hlast hplaced.before
  refine ⟨ys, ?_, hperm, hall.pairwise⟩
  simp only [selectionSort, hbound, hloop, bind, Option.bind_some]
  rfl

/-! ## `InsertionSort` -/

/-- The inner loop at `sort_runner`: the elements up to `runner` are in order but for the one that is moved, and that
    one is not greater than what it has passed. -/
structure Inserts (xs : List α) (runner : Nat) (arr : List α) (sortRunner : Nat) : Prop where
  le : sortRunner ≤ runner
  rearranged : Rearranged 0 (runner + 1) xs arr
  others : ∀ i j x y, i ≠ sortRunner → j ≠ sortRunner → i < j → j ≤ runner → arr[i]? = some x → arr[j]? = some y → x ≤ y
  passed : ∀ j x y, sortRunner < j → j ≤ runner → arr[sortRunner]? = some x → arr[j]? = some y → x ≤ y

theorem insertionStep_inserts {runner sortRunner : Nat} (hrunner : runner < xs.length)
    (h : Inserts xs runner arr (sortRunner + 1)) (hx : arr[sortRunner]? = some x) (hy : arr[sortRunner + 1]? = some y)
    (hcmp : y < x) :
    ∃ arr', insertionStep (arr, sortRunner + 1) = some (arr', sortRunner) ∧ Inserts xs runner arr' sortRunner := by
  obtain ⟨hle, hrest, hothers, hpassed⟩ := h
  have hlength := hrest.length
  obtain ⟨arr', hswap, hswapped⟩ := swapInt_swapped (show sortRunner + 1 < arr.length by omega)
    (show sortRunner < arr.length by omega)
  -- what stands above the moved element is the old one there, or has been passed
  refine ⟨arr', ?_, by omega, hrest.trans (.of_swapped hswapped (by omega) (by omega)), ?_, ?_⟩
  · simp only [insertionStep, Nat.add_sub_cancel, hswap, bind, Option.bind_some]
    rfl
  · intro i j a b hi hj hij hjr ha hb
    by_cases hj' : j = sortRunner + 1
    · subst hj'
      rw [hswapped.left] at hb
      rw [hswapped.others i (by omega) hi] at ha
      exact hothers i sortRunner a b (by omega) (by omega) (by omega) (by omega) ha hb
    · rw [hswapped.others j hj' hj] at hb
      by_cases hi' : i = sortRunner + 1
      · subst hi'
        rw [hswapped.left] at ha
        exact hothers sortRunner j a b (by omega) hj' (by omega) hjr ha hb
      · rw [hswapped.others i hi' hi] at ha
        exact hothers i j a b hi' hj' hij hjr ha hb
  · intro j a b hj hjr ha hb
    rw [hswapped.right, hy] at ha
    obtain rfl := Option.some.inj ha
    by_cases hj' : j = sortRunner + 1
    · subst hj'
      rw [hswapped.left, hx] at hb
      obtain rfl := Option.some.inj hb
      exact le_of_lt hcmp
    · rw [hswapped.others j hj' (by omega)] at hb
      exact hpassed j y b (by omega) hjr hy hb

/-- The element is in its place if it is not less than the one below. -/
theorem Inserts.sorted {runner sortRunner : Nat} (h : Inserts xs runner arr sortRunner) (hrunner : runner < xs.length)
    (hstop : ∀ i x y, i + 1 = sortRunner → arr[i]? = some x → arr[sortRunner]? = some y → x ≤ y) :
    SortedOn (· ≤ ·) 0 (runner + 1) arr := by
  intro i j x y _ hij hj hx hy
  have hlength := h.rearranged.length
  by_cases hi' : i = sortRunner
  · subst hi'
    exact h.passed j x y hij (by omega) hx hy
  by_cases hj' : j = sortRunner
  · subst hj'
    obtain ⟨k, rfl⟩ : ∃ k, j = k + 1 := ⟨j - 1, by omega⟩
    have hz : arr[k]? = some arr[k] := List.getElem?_eq_getElem (by omega)
    have hzy := hstop k _ y rfl hz hy
    by_cases hik : i = k
    · subst hik
      exact Option.some.inj (hz.symm.trans hx) ▸ hzy
    · exact (h.others i k x _ hi' (by omega) (by omega) (by omega) hx hz).trans hzy
  · exact h.others i j x y hi' hj' hij (by omega) hx hy

theorem insertionGoes_succ {sortRunner : Nat} (hx : arr[sortRunner]? = some x) (hy : arr[sortRunner + 1]? = some y) :
    insertionGoes (arr, sortRunner + 1) = some (decide (y < x)) := by
  simp only [insertionGoes, if_pos (Nat.succ_pos sortRunner), Nat.add_sub_cancel, hx, hy, bind, Option.bind_some]
  rfl

theorem insertionLoop_turn {runner sortRunner : Nat} (hrunner : runner < xs.length)
    (h : Inserts xs runner arr sortRunner) : insertionGoes (arr, sortRunner) = some false ∨
      insertionGoes (arr, sortRunner) = some true ∧ ∃ arr' sortRunner', insertionStep (arr, sortRunner) =
        some (arr', sortRunner') ∧ Inserts xs runner arr' sortRunner' ∧ sortRunner' < sortRunner := by
  cases sortRunner with
  | zero => exact .inl rfl
  | succ sortRunner =>
      have hlength := h.rearranged.length
      have hle := h.le
      have hx : arr[sortRunner]? = some arr[sortRunner] := List.getElem?_eq_getElem (by omega)
      have hy : arr[sortRunner + 1]? = some arr[sortRunner + 1] := List.getElem?_eq_getElem (by omega)
      rw [insertionGoes_succ hx hy]
      by_cases hcmp : arr[sortRunner + 1] < arr[sortRunner]
      · obtain ⟨arr', hstep, hs'⟩ := insertionStep_inserts hrunner h hx hy hcmp
        exact .inr ⟨by rw [decide_eq_true hcmp], arr', sortRunner, hstep, hs', Nat.lt_succ_self sortRunner⟩
      · exact .inl (by rw [decide_eq_false hcmp])

/-- One turn of the outer loop. -/
theorem insertionTurn_sorted {runner : Nat} (hrunner : runner < xs.length) (hfuel : runner < fuel)
    (h : SortedOn (· ≤ ·) 0 runner xs) :
    ∃ ys, insertionTurn fuel (xs, runner) = some (ys, runner + 1) ∧ ys.Perm xs ∧
      SortedOn (· ≤ ·) 0 (runner + 1) ys := by
  have hstart : Inserts xs runner xs runner := by
    refine ⟨Nat.le_refl runner, .refl 0 (runner + 1) xs, fun i j x y hi hj hij hjr hx hy => ?_,
      fun j _ _ hj hjr => by omega⟩
    exact h i j x y (Nat.zero_le i) hij (by omega) hx hy
  obtain ⟨⟨ys, sortRunner⟩, hloop, hinv, hend⟩ := whileDo_ends insertionGoes insertionStep
    (fun s => Inserts xs runner s.1 s.2) Prod.snd (s := (xs, runner)) (fun s hs => by
      obtain ⟨arr, sortRunner⟩ := s
      rcases insertionLoop_turn hrunner hs with hstops | ⟨hgoes, arr', sortRunner', hstep, hs', hlt⟩
      · exact .inl hstops
      · exact .inr ⟨hgoes, _, hstep, hs', hlt⟩) hstart hfuel
  have hinv : Inserts xs runner ys sortRunner := hinv
  refine ⟨ys, ?_, hinv.rearranged.perm, hinv.sorted hrunner fun i x y hi hx hy => ?_⟩
  · simp only [insertionTurn, hloop, bind, Option.bind_some]
    rfl
  · subst hi
    rw [insertionGoes_succ hx hy] at hend
    exact le_of_not_gt (of_decide_eq_false (Option.some.inj hend))

/-- **`InsertionSort` sorts every array.** -/
theorem insertionSort_sorts (hfuel : arr.length ≤ fuel) (hpos : 0 < fuel) :
    ∃ ys, insertionSort fuel arr arr.length = some ys ∧ SortOf arr ys := by
  rcases Nat.eq_zero_or_pos arr.length with hzero | hlength
  · obtain rfl := List.eq_nil_of_length_eq_zero hzero
    obtain ⟨fuel, rfl⟩ : ∃ k, fuel = k + 1 := ⟨fuel - 1, by omega⟩
    exact ⟨[], rfl, List.Perm.refl [], List.Pairwise.nil⟩
  obtain ⟨⟨ys, runner⟩, hloop, hinv, hend⟩ := whileDo_upTo (insertionTurn fuel)
    (fun s => s.1.Perm arr ∧ SortedOn (· ≤ ·) 0 s.2 s.1) Prod.snd arr.length (s := (arr, 1)) (fun s hs hlt => by
      obtain ⟨ys, runner⟩ := s
      obtain ⟨hperm, hsorted⟩ : ys.Perm arr ∧ SortedOn (· ≤ ·) 0 runner ys := hs
      have hlt : runner < arr.length := hlt
      have hlength := hperm.length_eq
      obtain ⟨ys', hbody, hperm', hsorted'⟩ := insertionTurn_sorted (show runner < ys.length by omega)
        (show runner < fuel by omega) hsorted
      exact ⟨_, hbody, ⟨hperm'.trans hperm, hsorted'⟩, rfl⟩)
    ⟨List.Perm.refl arr, sortedOn_of_le (Nat.le_refl 1)⟩ hlength (show arr.length - 1 < fuel by omega)
  obtain rfl : runner = arr.length := hend
  obtain ⟨hperm, hsorted⟩ : ys.Perm arr ∧ SortedOn (· ≤ ·) 0 arr.length ys := hinv
  rw [← hperm.length_eq] at hsorted
  refine ⟨ys, ?_, hperm, hsorted.pairwise⟩
  simp only [insertionSort, hloop, bind, Option.bind_some]
  rfl

/-! ## The empty array -/

theorem bubbleSort_nil (fuel : Nat) : bubbleSort fuel ([] : List α) 0 = none := by
  have hstuck : whileDo (fun s : List α × Nat => some (decide (s.2 < sizeSub (sizeSub 0 0) 1))) bubbleStep fuel
      ([], 0) = none := whileDo_stuck (fun s => s = ([], 0)) (by
    rintro s rfl
    exact .inr ⟨rfl, fun s' h => by cases h⟩) rfl
  have hloop : whileDo (fun s : List α × Nat => some (decide (s.2 < sizeSub 0 1))) (bubbleTurn fuel 0) fuel ([], 0) =
      none := whileDo_stuck (fun s => s = ([], 0)) (by
    rintro s rfl
    refine .inr ⟨rfl, fun s' h => ?_⟩
    rw [bubbleTurn, hstuck] at h
    cases h) rfl
  rw [bubbleSort, hloop]
  rfl

theorem selectionSort_nil (fuel : Nat) : selectionSort fuel ([] : List α) 0 = none := by
  have hturn : selectionTurn fuel 0 (([] : List α), 0) = none := by
    cases fuel with
    | zero => rfl
    | succ fuel => rfl
  have hloop : whileDo (fun s : List α × Nat => some (decide (s.2 < sizeSub 0 1))) (selectionTurn fuel 0) fuel
      ([], 0) = none := whileDo_stuck (fun s => s = ([], 0)) (by
    rintro s rfl
    refine .inr ⟨rfl, fun s' h => ?_⟩
    rw [hturn] at h
    cases h) rfl
  rw [selectionSort, hloop]
  rfl

end Workbench.Sorts
