import Workbench.Sorts.Exchange

/-!
# `Sorts.Merge` — `MergeBySize` and `MergeSort`

The two programs that sort by merging have the same two functions, one with ints and one with pointers, and they differ
in what `MergeBySize` returns. Pointers into the array are indices here.

## Main results
* `mergeBySize_sorts` — two parts in order become one;
* `mergeSort_sorts` — the recursion ends for every length but 0;
* `mergeSort_zero` — and for 0 it does not end.
-/

namespace Workbench.Sorts

variable {α : Type} [LinearOrder α]

/-! ## The functions -/

/-- How `MergeBySize` ends: the parts are in order already, `malloc` fails, or they are merged. -/
inductive Merged
  | inOrder
  | noMemory
  | merged
  deriving DecidableEq

/-- A write through `swap_runner`, which goes through a block of `length` elements. -/
def put (length : Nat) (buffer : List α) (x : α) : Option (List α) :=
  if buffer.length < length then some (buffer ++ [x]) else none

/-- The body of the loop over both parts, with the two runners. -/
def mergeStep (arr : List α) (length : Nat) : (Nat × Nat) × List α → Option ((Nat × Nat) × List α)
  | ((runner1, runner2), buffer) => do
      let x ← arr[runner1]?
      let y ← arr[runner2]?
      if x < y then
        let buffer ← put length buffer x
        return ((runner1 + 1, runner2), buffer)
      else
        let buffer ← put length buffer y
        return ((runner1, runner2 + 1), buffer)

/-- The body of the loops over what is left of one part. -/
def copyStep (arr : List α) (length : Nat) : Nat × List α → Option (Nat × List α)
  | (runner, buffer) => do
      let x ← arr[runner]?
      let buffer ← put length buffer x
      return (runner + 1, buffer)

/-- `memcpy` of the whole block to the array. -/
def copyBack (arr : List α) (arr1 length : Nat) (buffer : List α) : Option (List α) :=
  if buffer.length = length ∧ arr1 + length ≤ arr.length then some (splice arr arr1 (arr1 + length) buffer) else none

/-- `grants` says whether `malloc` gives a block for so many elements. -/
def mergeBySize (grants : Nat → Bool) (fuel : Nat) (arr : List α) (arr1 arr2 length : Nat) :
    Option (List α × Merged) := do
  let y ← arr[arr2]?
  let x ← if 0 < arr2 then arr[arr2 - 1]? else none
  if x < y then return (arr, .inOrder)
  if grants length then
    let ((runner1, runner2), buffer) ← whileDo
      (fun s => some (decide (s.1.1 ≠ arr2) && decide (s.1.2 ≠ arr1 + length))) (mergeStep arr length) fuel
      ((arr1, arr2), [])
    let (_, buffer) ← whileDo (fun s => some (decide (s.1 ≠ arr2))) (copyStep arr length) fuel (runner1, buffer)
    let (_, buffer) ← whileDo (fun s => some (decide (s.1 ≠ arr1 + length))) (copyStep arr length) fuel
      (runner2, buffer)
    let arr ← copyBack arr arr1 length buffer
    return (arr, .merged)
  else return (arr, .noMemory)

/-- What `MergeBySize` returns is not looked at. -/
def mergeSort (grants : Nat → Bool) : Nat → List α → Nat → Nat → Option (List α)
  | 0, _, _, _ => none
  | fuel + 1, arr, start, numOfElements =>
      if numOfElements = 1 then some arr else do
        let arr ← mergeSort grants fuel arr start (numOfElements / 2)
        let arr ← mergeSort grants fuel arr (start + numOfElements / 2) (numOfElements / 2 + numOfElements % 2)
        let (arr, _) ← mergeBySize grants fuel arr start (start + numOfElements / 2) numOfElements
        return arr

/-! ## Merging two lists -/

variable {arr buffer left right : List α} {arr1 arr2 n fuel i j : Nat} {x y : α}

/-- So many elements of the two lists are in the block, in order and before what is left of them. -/
structure Merging (left right : List α) (i j : Nat) (buffer : List α) : Prop where
  perm : buffer.Perm (left.take i ++ right.take j)
  sorted : buffer.Pairwise (· ≤ ·)
  before : ∀ x ∈ buffer, ∀ y ∈ left.drop i ++ right.drop j, x ≤ y

theorem merging_start (left right : List α) : Merging left right 0 0 [] :=
  ⟨List.Perm.refl [], List.Pairwise.nil, nofun⟩

theorem Merging.length (h : Merging left right i j buffer) (hi : i ≤ left.length) (hj : j ≤ right.length) :
    buffer.length = i + j := by
  rw [h.perm.length_eq, List.length_append, List.length_take_of_le hi, List.length_take_of_le hj]

theorem Merging.swap (h : Merging left right i j buffer) : Merging right left j i buffer := by
  refine ⟨h.perm.trans List.perm_append_comm, h.sorted, fun x hx y hy => h.before x hx y ?_⟩
  exact List.mem_append.mpr (List.mem_append.mp hy).symm

/-- The next element of the first list. -/
theorem Merging.next (h : Merging left right i j buffer) (hleft : left.Pairwise (· ≤ ·)) (hx : left[i]? = some x)
    (hle : ∀ y ∈ right.drop j, x ≤ y) : Merging left right (i + 1) j (buffer ++ [x]) := by
  obtain ⟨hi, rfl⟩ := List.getElem?_eq_some_iff.mp hx
  have hdrop : left.drop i = left[i] :: left.drop (i + 1) := List.drop_eq_getElem_cons hi
  have htail : ∀ y ∈ left.drop (i + 1), left[i] ≤ y :=
    (List.pairwise_cons.mp (hdrop ▸ hleft.sublist (List.drop_sublist i left))).1
  refine ⟨?_, ?_, fun y hy z hz => ?_⟩
  · rw [List.take_add_one, hx, Option.toList_some, List.append_assoc]
    calc (buffer ++ [left[i]]).Perm (left.take i ++ right.take j ++ [left[i]]) := h.perm.append_right _
      List.Perm _ (left.take i ++ (right.take j ++ [left[i]])) := by rw [List.append_assoc]
      List.Perm _ (left.take i ++ ([left[i]] ++ right.take j)) := List.perm_append_comm.append_left _
  · rw [List.pairwise_append]
    refine ⟨h.sorted, List.pairwise_singleton _ _, fun y hy z hz => ?_⟩
    obtain rfl := List.mem_singleton.mp hz
    exact h.before y hy _ (List.mem_append_left _ (hdrop ▸ List.mem_cons_self))
  · rcases List.mem_append.mp hy with hy | hy
    · refine h.before y hy z ?_
      rcases List.mem_append.mp hz with hz | hz
      · exact List.mem_append_left _ (hdrop ▸ List.mem_cons_of_mem _ hz)
      · exact List.mem_append_right _ hz
    · obtain rfl := List.mem_singleton.mp hy
      rcases List.mem_append.mp hz with hz | hz
      · exact htail z hz
      · exact hle z hz

/-- What is left of a list in order is not less than its next element. -/
theorem le_of_mem_drop (hright : right.Pairwise (· ≤ ·)) (hy : right[j]? = some y) : ∀ z ∈ right.drop j, y ≤ z := by
  obtain ⟨hj, rfl⟩ := List.getElem?_eq_some_iff.mp hy
  intro z hz
  have hdrop : right.drop j = right[j] :: right.drop (j + 1) := List.drop_eq_getElem_cons hj
  rw [hdrop] at hz
  rcases List.mem_cons.mp hz with rfl | hz
  · exact le_refl _
  · exact (List.pairwise_cons.mp (hdrop ▸ hright.sublist (List.drop_sublist j right))).1 z hz

/-! ## The loops -/

/-- The two parts are in order. -/
structure Parts (arr : List α) (arr1 arr2 n : Nat) : Prop where
  lt : arr1 < arr2
  lt_end : arr2 < arr1 + n
  le : arr1 + n ≤ arr.length
  left : SortedOn (· ≤ ·) arr1 arr2 arr
  right : SortedOn (· ≤ ·) arr2 (arr1 + n) arr

/-- The runners are in their parts, and what they have passed is in the block. -/
structure Merges (arr : List α) (arr1 arr2 n runner1 runner2 : Nat) (buffer : List α) : Prop where
  left : arr1 ≤ runner1 ∧ runner1 ≤ arr2
  right : arr2 ≤ runner2 ∧ runner2 ≤ arr1 + n
  merging : Merging (slice arr arr1 arr2) (slice arr arr2 (arr1 + n)) (runner1 - arr1) (runner2 - arr2) buffer

variable {runner1 runner2 : Nat}

theorem Merges.put (hparts : Parts arr arr1 arr2 n) (h : Merges arr arr1 arr2 n runner1 runner2 buffer)
    (hmore : runner1 < arr2 ∨ runner2 < arr1 + n) (x : α) : put n buffer x = some (buffer ++ [x]) := by
  obtain ⟨⟨hleft, hleft'⟩, ⟨hright, hright'⟩, hmerging⟩ := h
  obtain ⟨hlt, hlt', hle, -, -⟩ := hparts
  have hlength := hmerging.length (by rw [slice_length (by omega)]; omega) (by rw [slice_length hle]; omega)
  exact if_pos (by omega)

theorem Merges.getLeft (h : Merges arr arr1 arr2 n runner1 runner2 buffer) (hlt : runner1 < arr2) :
    (slice arr arr1 arr2)[runner1 - arr1]? = arr[runner1]? := by
  obtain ⟨hge, -⟩ := h.left
  rw [getElem?_slice (by omega), Nat.add_sub_cancel' hge]

theorem Merges.getRight (h : Merges arr arr1 arr2 n runner1 runner2 buffer) (hlt : runner2 < arr1 + n) :
    (slice arr arr2 (arr1 + n))[runner2 - arr2]? = arr[runner2]? := by
  obtain ⟨hge, -⟩ := h.right
  rw [getElem?_slice (by omega), Nat.add_sub_cancel' hge]

/-- The next element is one of the first part. -/
theorem Merges.nextLeft (hparts : Parts arr arr1 arr2 n) (h : Merges arr arr1 arr2 n runner1 runner2 buffer)
    (hlt : runner1 < arr2) (hx : arr[runner1]? = some x)
    (hle : ∀ y ∈ (slice arr arr2 (arr1 + n)).drop (runner2 - arr2), x ≤ y) :
    Merges arr arr1 arr2 n (runner1 + 1) runner2 (buffer ++ [x]) := by
  obtain ⟨hge, -⟩ := h.left
  refine ⟨⟨by omega, hlt⟩, h.right, ?_⟩
  rw [Nat.succ_sub hge]
  exact h.merging.next hparts.left.slice ((h.getLeft hlt).trans hx) hle

/-- The next element is one of the second part. -/
theorem Merges.nextRight (hparts : Parts arr arr1 arr2 n) (h : Merges arr arr1 arr2 n runner1 runner2 buffer)
    (hlt : runner2 < arr1 + n) (hy : arr[runner2]? = some y)
    (hle : ∀ x ∈ (slice arr arr1 arr2).drop (runner1 - arr1), y ≤ x) :
    Merges arr arr1 arr2 n runner1 (runner2 + 1) (buffer ++ [y]) := by
  obtain ⟨hge, -⟩ := h.right
  refine ⟨h.left, ⟨by omega, hlt⟩, ?_⟩
  rw [Nat.succ_sub hge]
  exact (h.merging.swap.next hparts.right.slice ((h.getRight hlt).trans hy) hle).swap

theorem mergeStep_merges (hparts : Parts arr arr1 arr2 n) (h : Merges arr arr1 arr2 n runner1 runner2 buffer)
    (hlt : runner1 < arr2) (hlt' : runner2 < arr1 + n) :
    ∃ runner1' runner2' buffer', mergeStep arr n ((runner1, runner2), buffer) = some ((runner1', runner2'), buffer') ∧
      Merges arr arr1 arr2 n runner1' runner2' buffer' ∧ runner1' + runner2' = runner1 + runner2 + 1 := by
  have hle := hparts.le
  have hend := hparts.lt_end
  have hx : arr[runner1]? = some arr[runner1] := List.getElem?_eq_getElem (by omega)
  have hy : arr[runner2]? = some arr[runner2] := List.getElem?_eq_getElem (by omega)
  simp only [mergeStep, hx, hy, bind, Option.bind_some, h.put hparts (.inl hlt)]
  by_cases hcmp : arr[runner1] < arr[runner2]
  · rw [if_pos hcmp]
    refine ⟨runner1 + 1, runner2, _, rfl, h.nextLeft hparts hlt hx fun y hmem => ?_, by omega⟩
    exact (le_of_lt hcmp).trans (le_of_mem_drop hparts.right.slice ((h.getRight hlt').trans hy) y hmem)
  · rw [if_neg hcmp]
    refine ⟨runner1, runner2 + 1, _, rfl, h.nextRight hparts hlt' hy fun x hmem => ?_, by omega⟩
    exact (le_of_not_gt hcmp).trans (le_of_mem_drop hparts.left.slice ((h.getLeft hlt).trans hx) x hmem)

/-- The first loop ends at the end of one part. -/
theorem mergeLoop_merges (hparts : Parts arr arr1 arr2 n) (hfuel : n < fuel) :
    ∃ runner1 runner2 buffer, whileDo
        (fun s : (Nat × Nat) × List α => some (decide (s.1.1 ≠ arr2) && decide (s.1.2 ≠ arr1 + n))) (mergeStep arr n)
        fuel ((arr1, arr2), []) = some ((runner1, runner2), buffer) ∧
      Merges arr arr1 arr2 n runner1 runner2 buffer ∧ (runner1 = arr2 ∨ runner2 = arr1 + n) := by
  have hlt := hparts.lt
  have hlt' := hparts.lt_end
  have hstart : Merges arr arr1 arr2 n arr1 arr2 [] := by
    refine ⟨⟨Nat.le_refl _, by omega⟩, ⟨Nat.le_refl _, by omega⟩, ?_⟩
    rw [Nat.sub_self, Nat.sub_self]
    exact merging_start _ _
  obtain ⟨⟨⟨runner1, runner2⟩, buffer⟩, hloop, hinv, hend⟩ := whileDo_ends
    (fun s => some (decide (s.1.1 ≠ arr2) && decide (s.1.2 ≠ arr1 + n))) (mergeStep arr n)
    (fun s => Merges arr arr1 arr2 n s.1.1 s.1.2 s.2) (fun s => arr2 + (arr1 + n) - (s.1.1 + s.1.2))
    (s := ((arr1, arr2), [])) (fun s hs => by
      obtain ⟨⟨runner1, runner2⟩, buffer⟩ := s
      have hs : Merges arr arr1 arr2 n runner1 runner2 buffer := hs
      have hleft := hs.left
      have hright := hs.right
      by_cases hmore : runner1 < arr2 ∧ runner2 < arr1 + n
      · obtain ⟨runner1', runner2', buffer', hstep, hs', hsum⟩ := mergeStep_merges hparts hs hmore.1 hmore.2
        refine .inr ⟨?_, _, hstep, hs', show _ - (runner1' + runner2') < _ - (runner1 + runner2) by omega⟩
        show some (decide (runner1 ≠ arr2) && decide (runner2 ≠ arr1 + n)) = _
        rw [decide_eq_true (by omega), decide_eq_true (by omega), Bool.true_and]
      · refine .inl ?_
        show some (decide (runner1 ≠ arr2) && decide (runner2 ≠ arr1 + n)) = _
        by_cases heq : runner1 = arr2
        · rw [decide_eq_false (not_not_intro heq), Bool.false_and]
        · rw [decide_eq_false (show ¬ runner2 ≠ arr1 + n by omega), Bool.and_false]) hstart
    (show arr2 + (arr1 + n) - (arr1 + arr2) < fuel by omega)
  refine ⟨runner1, runner2, buffer, hloop, hinv, ?_⟩
  have hend : (decide (runner1 ≠ arr2) && decide (runner2 ≠ arr1 + n)) = false := Option.some.inj hend
  rcases Bool.and_eq_false_iff.mp hend with h | h
  · exact .inl (not_not.mp (of_decide_eq_false h))
  · exact .inr (not_not.mp (of_decide_eq_false h))

omit [LinearOrder α] in
theorem copyStep_eq {runner : Nat} (hx : arr[runner]? = some x) (hput : put n buffer x = some (buffer ++ [x])) :
    copyStep arr n (runner, buffer) = some (runner + 1, buffer ++ [x]) := by
  simp only [copyStep, hx, hput, bind, Option.bind_some]
  rfl

/-- What is left of the first part is copied, if anything, and then the second part is at its end. -/
theorem copyLeft_merges (hparts : Parts arr arr1 arr2 n) (hfuel : n < fuel)
    (h : Merges arr arr1 arr2 n runner1 runner2 buffer) (hend : runner1 = arr2 ∨ runner2 = arr1 + n) :
    ∃ buffer', whileDo (fun s : Nat × List α => some (decide (s.1 ≠ arr2))) (copyStep arr n) fuel (runner1, buffer) =
      some (arr2, buffer') ∧ Merges arr arr1 arr2 n arr2 runner2 buffer' := by
  have hle := hparts.le
  have hlt := hparts.lt_end
  obtain ⟨⟨runner, buffer'⟩, hloop, ⟨hinv, -⟩, hrunner⟩ := whileDo_until (copyStep arr n)
    (fun s => Merges arr arr1 arr2 n s.1 runner2 s.2 ∧ (s.1 = arr2 ∨ runner2 = arr1 + n)) Prod.fst arr2
    (s := (runner1, buffer)) (fun s hs hlt => by
      obtain ⟨runner, buffer⟩ := s
      obtain ⟨hs, hat⟩ : Merges arr arr1 arr2 n runner runner2 buffer ∧ (runner = arr2 ∨ runner2 = arr1 + n) := hs
      have hlt : runner < arr2 := hlt
      have hx : arr[runner]? = some arr[runner] := List.getElem?_eq_getElem (by omega)
      have hat : runner2 = arr1 + n := by omega
      refine ⟨_, copyStep_eq hx (hs.put hparts (.inl hlt) _), ⟨hs.nextLeft hparts hlt hx fun y hy => ?_, .inr hat⟩, rfl⟩
      rw [List.drop_of_length_le (by rw [slice_length hle, hat])] at hy
      exact absurd hy List.not_mem_nil) ⟨h, hend⟩ h.left.2 (show arr2 - runner1 < fuel by have := h.left; omega)
  obtain rfl : runner = arr2 := hrunner
  exact ⟨buffer', hloop, hinv⟩

theorem copyRight_merges (hparts : Parts arr arr1 arr2 n) (hfuel : n < fuel)
    (h : Merges arr arr1 arr2 n arr2 runner2 buffer) :
    ∃ buffer', whileDo (fun s : Nat × List α => some (decide (s.1 ≠ arr1 + n))) (copyStep arr n) fuel
      (runner2, buffer) = some (arr1 + n, buffer') ∧ Merges arr arr1 arr2 n arr2 (arr1 + n) buffer' := by
  have hle := hparts.le
  have hlt := hparts.lt
  have hlt' := hparts.lt_end
  obtain ⟨⟨runner, buffer'⟩, hloop, hinv, hrunner⟩ := whileDo_until (copyStep arr n)
    (fun s => Merges arr arr1 arr2 n arr2 s.1 s.2) Prod.fst (arr1 + n) (s := (runner2, buffer)) (fun s hs hlt => by
      obtain ⟨runner, buffer⟩ := s
      have hs : Merges arr arr1 arr2 n arr2 runner buffer := hs
      have hlt : runner < arr1 + n := hlt
      have hx : arr[runner]? = some arr[runner] := List.getElem?_eq_getElem (by omega)
      refine ⟨_, copyStep_eq hx (hs.put hparts (.inr hlt) _), hs.nextRight hparts hlt hx fun y hy => ?_, rfl⟩
      rw [List.drop_of_length_le (by rw [slice_length (by omega)])] at hy
      exact absurd hy List.not_mem_nil) h h.right.2 (show arr1 + n - runner2 < fuel by have := h.right; omega)
  obtain rfl : runner = arr1 + n := hrunner
  exact ⟨buffer', hloop, hinv⟩

/-! ## `MergeBySize` -/

/-- The first part is less than the second one, if its last element is less than the first element there. -/
theorem Parts.before (hparts : Parts arr arr1 arr2 n) (hx : arr[arr2 - 1]? = some x) (hy : arr[arr2]? = some y)
    (hlt : x < y) : Before (· < ·) arr1 arr2 (arr1 + n) arr := by
  intro i j a b hi hi' hj hj' ha hb
  have hax : a ≤ x := by
    rcases Nat.lt_or_ge i (arr2 - 1) with h | h
    · exact hparts.left i (arr2 - 1) a x hi h (by omega) ha hx
    · obtain rfl : i = arr2 - 1 := by omega
      exact le_of_eq (Option.some.inj (ha.symm.trans hx))
  have hyb : y ≤ b := by
    rcases Nat.lt_or_ge arr2 j with h | h
    · exact hparts.right arr2 j y b (Nat.le_refl _) h hj' hy hb
    · obtain rfl : j = arr2 := by omega
      exact le_of_eq (Option.some.inj (hy.symm.trans hb))
  exact hax.trans_lt (hlt.trans_le hyb)

/-- The two parts are in order already. -/
theorem mergeBySize_inOrder (grants : Nat → Bool) (fuel : Nat) (hparts : Parts arr arr1 arr2 n)
    (hx : arr[arr2 - 1]? = some x) (hy : arr[arr2]? = some y) (hlt : x < y) :
    mergeBySize grants fuel arr arr1 arr2 n = some (arr, .inOrder) ∧ SortedOn (· ≤ ·) arr1 (arr1 + n) arr := by
  have hpos := hparts.lt
  refine ⟨?_, hparts.left.glue hparts.right fun i j a b hi hi' hj hj' ha hb => ?_⟩
  · simp only [mergeBySize, hy, if_pos (show 0 < arr2 by omega), hx, bind, Option.bind_some, if_pos hlt]
    rfl
  · exact le_of_lt (hparts.before hx hy hlt i j a b hi hi' hj hj' ha hb)

/-- The two parts are merged. -/
theorem mergeBySize_merges {grants : Nat → Bool} (hgrants : ∀ n, grants n = true) (hparts : Parts arr arr1 arr2 n)
    (hfuel : n < fuel) (hx : arr[arr2 - 1]? = some x) (hy : arr[arr2]? = some y) (hge : ¬ x < y) :
    ∃ arr', mergeBySize grants fuel arr arr1 arr2 n = some (arr', .merged) ∧
      Rearranged arr1 (arr1 + n) arr arr' ∧ SortedOn (· ≤ ·) arr1 (arr1 + n) arr' := by
  have hlt := hparts.lt
  have hlt' := hparts.lt_end
  have hle := hparts.le
  obtain ⟨runner1, runner2, buffer₁, hloop, hmerges₁, hend⟩ := mergeLoop_merges hparts hfuel
  obtain ⟨buffer₂, hleft, hmerges₂⟩ := copyLeft_merges hparts hfuel hmerges₁ hend
  obtain ⟨buffer₃, hright, hmerges₃⟩ := copyRight_merges hparts hfuel hmerges₂
  have hmerging := hmerges₃.merging
  have hall : buffer₃.Perm (slice arr arr1 (arr1 + n)) := by
    have hperm := hmerging.perm
    rwa [List.take_of_length_le (by rw [slice_length (by omega)]), List.take_of_length_le (by rw [slice_length hle]),
      slice_append (by omega) (by omega)] at hperm
  have hlength : buffer₃.length = n := by
    rw [hall.length_eq, slice_length hle]
    omega
  refine ⟨splice arr arr1 (arr1 + n) buffer₃, ?_, .splice (by omega) hle hall,
    .splice (by omega) hle (by omega) hmerging.sorted⟩
  simp only [mergeBySize, hy, if_pos (show 0 < arr2 by omega), hx, bind, Option.bind_some, if_neg hge, hgrants, if_true,
    hloop, hleft, hright, copyBack, if_pos (show buffer₃.length = n ∧ arr1 + n ≤ arr.length from ⟨hlength, hle⟩)]
  rfl

/-- **Two parts in order become one.** -/
theorem mergeBySize_sorts {grants : Nat → Bool} (hgrants : ∀ n, grants n = true) (hparts : Parts arr arr1 arr2 n)
    (hfuel : n < fuel) :
    ∃ arr' outcome, mergeBySize grants fuel arr arr1 arr2 n = some (arr', outcome) ∧
      Rearranged arr1 (arr1 + n) arr arr' ∧ SortedOn (· ≤ ·) arr1 (arr1 + n) arr' := by
  have hlt := hparts.lt
  have hlt' := hparts.lt_end
  have hle := hparts.le
  have hx : arr[arr2 - 1]? = some arr[arr2 - 1] := List.getElem?_eq_getElem (by omega)
  have hy : arr[arr2]? = some arr[arr2] := List.getElem?_eq_getElem (by omega)
  by_cases hcmp : arr[arr2 - 1] < arr[arr2]
  · obtain ⟨hmerge, hsorted⟩ := mergeBySize_inOrder grants fuel hparts hx hy hcmp
    exact ⟨arr, .inOrder, hmerge, .refl _ _ _, hsorted⟩
  · obtain ⟨arr', hmerge, hrest, hsorted⟩ := mergeBySize_merges hgrants hparts hfuel hx hy hcmp
    exact ⟨arr', .merged, hmerge, hrest, hsorted⟩

/-! ## `MergeSort` -/

/-- **`MergeSort` sorts every part with an element.** -/
theorem mergeSort_sorts {grants : Nat → Bool} (hgrants : ∀ n, grants n = true) {start : Nat} (hpos : 0 < n)
    (hle : start + n ≤ arr.length) (hfuel : n + 1 < fuel) :
    ∃ arr', mergeSort grants fuel arr start n = some arr' ∧ Rearranged start (start + n) arr arr' ∧
      SortedOn (· ≤ ·) start (start + n) arr' := by
  induction fuel generalizing arr start n with
  | zero => omega
  | succ fuel ih =>
      unfold mergeSort
      by_cases hone : n = 1
      · rw [if_pos hone]
        exact ⟨arr, rfl, .refl _ _ _, sortedOn_of_le (by omega)⟩
      · -- both halves have an element, and less than all of them
        obtain ⟨arr₁, hleft, hrest₁, hsorted₁⟩ := ih (show 0 < n / 2 by omega)
          (show start + n / 2 ≤ arr.length by omega) (by omega)
        obtain ⟨arr₂, hright, hrest₂, hsorted₂⟩ := ih (show 0 < n / 2 + n % 2 by omega)
          (show start + n / 2 + (n / 2 + n % 2) ≤ arr₁.length by rw [hrest₁.length]; omega) (by omega)
        have hend : start + n / 2 + (n / 2 + n % 2) = start + n := by omega
        rw [hend] at hrest₂ hsorted₂
        have hparts : Parts arr₂ start (start + n / 2) n :=
          ⟨by omega, by omega, by rw [hrest₂.length, hrest₁.length]; exact hle, hsorted₁.keep hrest₂ (by omega),
            hsorted₂⟩
        obtain ⟨arr₃, outcome, hmerge, hrest₃, hsorted₃⟩ := mergeBySize_sorts hgrants hparts (show n < fuel by omega)
        refine ⟨arr₃, ?_, ?_, hsorted₃⟩
        · rw [if_neg hone]
          simp only [hleft, hright, hmerge, bind, Option.bind_some]
          rfl
        · have hhalf₁ : Rearranged start (start + n) arr arr₁ := hrest₁.mono (Nat.le_refl _) (by omega)
          have hhalf₂ : Rearranged start (start + n) arr₁ arr₂ := hrest₂.mono (by omega) (Nat.le_refl _)
          exact (hhalf₁.trans hhalf₂).trans hrest₃

/-- A part without elements is halved to a part without elements. -/
theorem mergeSort_zero (grants : Nat → Bool) (fuel : Nat) (arr : List α) (start : Nat) :
    mergeSort grants fuel arr start 0 = none := by
  induction fuel generalizing arr start with
  | zero => rfl
  | succ fuel ih =>
      rw [mergeSort, if_neg (by decide), Nat.zero_div, ih]
      rfl

end Workbench.Sorts
