import Mathlib.Order.Nat
import Workbench.Sorts.Merge

/-!
# `Sorts.Dictionary` — five threads sort, and the segments are merged

The array of pointers has four copies of each line. Each thread sorts a segment of its own, and `MergeArr` merges the
segments from the first one on. `MergeBySize` returns 1 also where the two parts are in order already, and `MergeArr`
takes that for a failure.

## Main results
* `mtShuffleSorting_sorts` — the threads end with five sorted segments, in any order;
* `mergeArrLoop_sorts` — when the merges that are left sort the array;
* `sortDictionary_iff` — both together.
-/

namespace Workbench.Sorts

variable {α : Type} [LinearOrder α]

/-! ## The functions -/

/-- `NUM_OF_COPIES` is 4 and `NUM_OF_THREADS` is 5. -/
def threadLength (linesNum : Nat) : Nat := linesNum * 4 / 5

/-- The last thread has the remainder too. -/
def threadRange (linesNum i : Nat) : Nat := threadLength linesNum + if i + 1 = 5 then linesNum * 4 % 5 else 0

def startOfThread (linesNum i : Nat) : Nat := i * threadLength linesNum

def threadSort (grants : Nat → Bool) (fuel linesNum : Nat) (arr : List α) (i : Nat) : Option (List α) :=
  mergeSort grants fuel arr (startOfThread linesNum i) (threadRange linesNum i)

/-- The threads, in the order in which they run. -/
def mtShuffleSorting (grants : Nat → Bool) (fuel linesNum : Nat) (order : List Nat) (arr : List α) : Option (List α) :=
  order.foldlM (threadSort grants fuel linesNum) arr

/-- What `MergeBySize` of this program returns. -/
def Merged.code : Merged → Nat
  | inOrder => 1
  | noMemory => 1
  | merged => 0

/-- The loop of `MergeArr`, with so many turns left, and the last call after it. -/
def mergeArrLoop (grants : Nat → Bool) (fuel linesNum : Nat) : Nat → Nat → List α → Option (List α)
  | 0, i, arr => do
      let (arr, _) ← mergeBySize grants fuel arr 0 (threadLength linesNum * i) (linesNum * 4)
      return arr
  | left + 1, i, arr => do
      let (arr, outcome) ← mergeBySize grants fuel arr 0 (threadLength linesNum * i) (threadLength linesNum * (i + 1))
      if outcome.code = 1 then return arr
      mergeArrLoop grants fuel linesNum left (i + 1) arr

def mergeArr (grants : Nat → Bool) (fuel linesNum : Nat) (arr : List α) : Option (List α) :=
  mergeArrLoop grants fuel linesNum 3 1 arr

def sortDictionary (grants : Nat → Bool) (fuel linesNum : Nat) (order : List Nat) (arr : List α) : Option (List α) := do
  let arr ← mtShuffleSorting grants fuel linesNum order arr
  mergeArr grants fuel linesNum arr

/-! ## The segments -/

variable {grants : Nat → Bool} {fuel linesNum left i j : Nat} {order : List Nat} {arr arr' : List α} {x y : α}

/-- The elements of the segment `i` are greater than all those before. -/
def Above (linesNum i : Nat) (arr : List α) : Prop :=
  Before (· < ·) 0 (threadLength linesNum * i) (threadLength linesNum * (i + 1)) arr

/-- From the segment `i` on, no element is greater than one of a later segment. -/
def InOrderFrom (linesNum i : Nat) (arr : List α) : Prop :=
  ∀ k, i < k → k ≤ 4 → Before (· ≤ ·) (threadLength linesNum * i) (threadLength linesNum * k) (linesNum * 4) arr

/-- **Where `MergeArr` returns early**, the rest has to be in order already. -/
def EarlyInOrder (linesNum i : Nat) (arr : List α) : Prop :=
  ∀ k, i ≤ k → k ≤ 3 → Above linesNum k arr → InOrderFrom linesNum k arr

/-- Where a segment ends. -/
def endOfThread (linesNum i : Nat) : Nat := startOfThread linesNum i + threadRange linesNum i

theorem endOfThread_of_lt (hi : i < 4) : endOfThread linesNum i = threadLength linesNum * (i + 1) := by
  rw [endOfThread, startOfThread, threadRange, if_neg (by omega), Nat.add_zero, Nat.mul_comm, Nat.mul_succ]

theorem endOfThread_four : endOfThread linesNum 4 = linesNum * 4 := by
  rw [endOfThread, startOfThread, threadRange, if_pos rfl, threadLength]
  omega

theorem startOfThread_eq (linesNum i : Nat) : startOfThread linesNum i = threadLength linesNum * i := Nat.mul_comm _ _

theorem threadLength_mul_mono (h : i ≤ j) : threadLength linesNum * i ≤ threadLength linesNum * j :=
  Nat.mul_le_mul_left _ h

theorem threadLength_mul_le (h : i ≤ 5) : threadLength linesNum * i ≤ linesNum * 4 := by
  refine (Nat.mul_le_mul_left _ h).trans ?_
  rw [threadLength]
  omega

/-- A segment ends where the next one starts, or with the array. -/
theorem endOfThread_le (hi : i < j) (hj : j ≤ 4) : endOfThread linesNum i ≤ threadLength linesNum * j := by
  rw [endOfThread_of_lt (by omega)]
  exact threadLength_mul_mono hi

theorem endOfThread_le_length (hi : i ≤ 4) : endOfThread linesNum i ≤ linesNum * 4 := by
  rcases Nat.lt_or_ge i 4 with h | h
  · rw [endOfThread_of_lt h]
    exact threadLength_mul_le (by omega)
  · obtain rfl : i = 4 := by omega
    exact Nat.le_of_eq endOfThread_four

/-- Elements of one segment trade places. -/
theorem EarlyInOrder.keep (h : EarlyInOrder linesNum j arr) (hi : i ≤ 4)
    (hrest : Rearranged (startOfThread linesNum i) (endOfThread linesNum i) arr arr') :
    EarlyInOrder linesNum j arr' := by
  intro k hjk hk habove l hkl hl
  rw [startOfThread_eq] at hrest
  have hstart : ∀ m, m ≤ 4 → endOfThread linesNum i ≤ threadLength linesNum * m ∨
      threadLength linesNum * m ≤ threadLength linesNum * i := by
    intro m hm
    rcases Nat.lt_or_ge i m with him | him
    · exact .inl (endOfThread_le him hm)
    · exact .inr (threadLength_mul_mono him)
  have hend : endOfThread linesNum i ≤ linesNum * 4 := endOfThread_le_length hi
  have habove' : Above linesNum k arr := by
    refine Before.keep habove hrest.symm ?_ ?_
    · have hsegment := hstart k (by omega)
      omega
    · have hsegment := hstart k (by omega)
      have hnext := hstart (k + 1) (by omega)
      omega
  refine (h k hjk hk habove' l hkl hl).keep hrest ?_ ?_
  · have hsegment := hstart k (by omega)
    have hlater := hstart l hl
    omega
  · have hlater := hstart l hl
    omega

/-! ## The threads -/

/-- The segments of two threads have nothing in common. -/
theorem segments_disjoint (hi : i ≤ 4) (hj : j ≤ 4) (hne : i ≠ j) :
    endOfThread linesNum i ≤ startOfThread linesNum j ∨ endOfThread linesNum j ≤ startOfThread linesNum i := by
  rw [startOfThread_eq, startOfThread_eq]
  rcases Nat.lt_or_gt_of_ne hne with h | h
  · exact .inl (endOfThread_le h hj)
  · exact .inr (endOfThread_le h hi)

theorem threadSort_sorts (hgrants : ∀ n, grants n = true) (hlines : 2 ≤ linesNum) (hlength : arr.length = linesNum * 4)
    (hfuel : linesNum * 4 + 1 < fuel) (hi : i ≤ 4) :
    ∃ arr', threadSort grants fuel linesNum arr i = some arr' ∧
      Rearranged (startOfThread linesNum i) (endOfThread linesNum i) arr arr' ∧
      SortedOn (· ≤ ·) (startOfThread linesNum i) (endOfThread linesNum i) arr' := by
  have hend : startOfThread linesNum i + threadRange linesNum i ≤ linesNum * 4 := endOfThread_le_length hi
  have hpos : 0 < threadRange linesNum i := by
    rw [threadRange, threadLength]
    omega
  exact mergeSort_sorts hgrants hpos (hend.trans_eq hlength.symm) (by omega)

/-- **The threads end with sorted segments**, and change nothing about the order of the segments. -/
theorem mtShuffleSorting_sorts (hgrants : ∀ n, grants n = true) (hlines : 2 ≤ linesNum)
    (hlength : arr.length = linesNum * 4) (hfuel : linesNum * 4 + 1 < fuel) (hnodup : order.Nodup)
    (horder : ∀ i ∈ order, i ≤ 4) :
    ∃ arr', mtShuffleSorting grants fuel linesNum order arr = some arr' ∧ arr'.Perm arr ∧
      (∀ i ∈ order, SortedOn (· ≤ ·) (startOfThread linesNum i) (endOfThread linesNum i) arr') ∧
      (∀ i ≤ 4, i ∉ order → ∀ k, startOfThread linesNum i ≤ k → k < endOfThread linesNum i → arr'[k]? = arr[k]?) ∧
      (EarlyInOrder linesNum 1 arr' ↔ EarlyInOrder linesNum 1 arr) := by
  induction order generalizing arr with
  | nil => exact ⟨arr, rfl, List.Perm.refl arr, nofun, fun _ _ _ _ _ _ => rfl, Iff.rfl⟩
  | cons i order ih =>
      obtain ⟨hfirst, hnodup⟩ := List.nodup_cons.mp hnodup
      have hi : i ≤ 4 := horder i List.mem_cons_self
      obtain ⟨arr₁, hsort, hrest, hsorted⟩ := threadSort_sorts hgrants hlines hlength hfuel hi
      obtain ⟨arr', hrun, hperm, hothers, hsame, hearly⟩ := ih (hrest.length.trans hlength) hnodup
        fun j hj => horder j (List.mem_cons_of_mem i hj)
      refine ⟨arr', ?_, hperm.trans hrest.perm, fun j hj => ?_, fun j hj hmem k hk hk' => ?_, hearly.trans ?_⟩
      · rw [mtShuffleSorting, List.foldlM_cons, hsort]
        exact hrun
      · rcases List.mem_cons.mp hj with rfl | hj
        · -- the threads after this one leave its segment alone
          intro k l x y hk hkl hl hx hy
          rw [hsame j hi hfirst k hk (hkl.trans hl)] at hx
          rw [hsame j hi hfirst l (hk.trans (Nat.le_of_lt hkl)) hl] at hy
          exact hsorted k l x y hk hkl hl hx hy
        · exact hothers j hj
      · obtain ⟨hne, hmem⟩ := not_or.mp (mt List.mem_cons.mpr hmem)
        rw [hsame j hj hmem k hk hk']
        have hdisjoint : endOfThread linesNum i ≤ startOfThread linesNum j ∨
            endOfThread linesNum j ≤ startOfThread linesNum i := segments_disjoint hi hj (Ne.symm hne)
        exact hrest.outside k (by omega)
      · exact ⟨fun h => h.keep hi hrest.symm, fun h => h.keep hi hrest⟩

/-! ## The merges -/

/-- The segments before `i` are one part in order, and those from `i` on are parts in order. -/
structure MergedUpTo (linesNum i : Nat) (arr : List α) : Prop where
  length : arr.length = linesNum * 4
  front : SortedOn (· ≤ ·) 0 (threadLength linesNum * i) arr
  segments : ∀ k, i ≤ k → k ≤ 4 → SortedOn (· ≤ ·) (threadLength linesNum * k) (endOfThread linesNum k) arr

/-- The parts of a merge in the loop. -/
theorem MergedUpTo.parts (h : MergedUpTo linesNum i arr) (hlines : 2 ≤ linesNum) (hi : 1 ≤ i) (hi' : i ≤ 4) :
    Parts arr 0 (threadLength linesNum * i) (endOfThread linesNum i) := by
  have hpos : 0 < threadLength linesNum := by
    rw [threadLength]
    omega
  have hend : 0 < threadRange linesNum i := by
    rw [threadRange]
    omega
  refine ⟨Nat.mul_pos hpos hi, ?_, ?_, h.front, ?_⟩
  · rw [Nat.zero_add, endOfThread, startOfThread_eq]
    omega
  · rw [Nat.zero_add, h.length]
    exact endOfThread_le_length hi'
  · rw [Nat.zero_add]
    exact h.segments i (Nat.le_refl i) hi'

theorem MergedUpTo.next (h : MergedUpTo linesNum i arr) (hi : i ≤ 3)
    (hrest : Rearranged 0 (0 + endOfThread linesNum i) arr arr')
    (hsorted : SortedOn (· ≤ ·) 0 (0 + endOfThread linesNum i) arr') : MergedUpTo linesNum (i + 1) arr' := by
  rw [Nat.zero_add, endOfThread_of_lt (by omega)] at hrest hsorted
  refine ⟨hrest.length.trans h.length, hsorted, fun k hk hk' => (h.segments k (by omega) hk').keep hrest ?_⟩
  exact .inl (threadLength_mul_mono hk)

/-- Elements before the segment `i` trade places. -/
theorem EarlyInOrder.keep_front (h : EarlyInOrder linesNum i arr)
    (hrest : Rearranged 0 (threadLength linesNum * i) arr arr') : EarlyInOrder linesNum i arr' := by
  intro k hik hk habove l hkl hl
  have hstart : threadLength linesNum * i ≤ threadLength linesNum * k := threadLength_mul_mono hik
  have hnext : threadLength linesNum * k ≤ threadLength linesNum * l := threadLength_mul_mono (Nat.le_of_lt hkl)
  have habove' : Above linesNum k arr := Before.keep habove hrest.symm (by omega) (by omega)
  exact (h k hik hk habove' l hkl hl).keep hrest (by omega) (by omega)

/-- The segment of an index. -/
theorem exists_segment (hlo : threadLength linesNum * i ≤ j) (hhi : j < linesNum * 4) (hi : i ≤ 4) :
    ∃ k, i ≤ k ∧ k ≤ 4 ∧ threadLength linesNum * k ≤ j ∧ j < endOfThread linesNum k := by
  obtain ⟨left, hleft⟩ := Nat.exists_eq_add_of_le hi
  induction left generalizing i with
  | zero =>
      obtain rfl : i = 4 := by omega
      exact ⟨4, Nat.le_refl 4, Nat.le_refl 4, hlo, by rwa [endOfThread_four]⟩
  | succ left ih =>
      by_cases hin : j < endOfThread linesNum i
      · exact ⟨i, Nat.le_refl i, hi, hlo, hin⟩
      · rw [endOfThread_of_lt (by omega)] at hin
        obtain ⟨k, hk, hk4, hstart, hend⟩ := ih (show threadLength linesNum * (i + 1) ≤ j by omega) (by omega)
          (by omega)
        exact ⟨k, by omega, hk4, hstart, hend⟩

/-- The segment `i` is above the others, and so the array is in order exactly if the rest is. -/
theorem MergedUpTo.sorted_iff (h : MergedUpTo linesNum i arr) (hlines : 2 ≤ linesNum) (hi : 1 ≤ i) (hi' : i ≤ 3)
    (habove : Above linesNum i arr) : SortedOn (· ≤ ·) 0 (linesNum * 4) arr ↔ EarlyInOrder linesNum i arr := by
  constructor
  · intro hsorted k _ _ _ l _ _ a b x y _ ha hb hb' hx hy
    exact hsorted a b x y (Nat.zero_le a) (by omega) hb' hx hy
  · intro hearly
    have hrest := hearly i (Nat.le_refl i) hi' habove
    have hparts := h.parts hlines hi (by omega)
    have hlt := hparts.lt
    have hlt' := hparts.lt_end
    have hle := hparts.le
    have hend : endOfThread linesNum i = threadLength linesNum * (i + 1) := endOfThread_of_lt (by omega)
    have hback : SortedOn (· ≤ ·) (threadLength linesNum * i) (linesNum * 4) arr := by
      intro a b x y ha hab hb hx hy
      obtain ⟨k, hk, hk4, hstart, hkend⟩ := exists_segment ha (hab.trans hb) (show i ≤ 4 by omega)
      rcases Nat.lt_or_ge b (endOfThread linesNum k) with hsame | hlater
      · exact h.segments k hk hk4 a b x y hstart hab hsame hx hy
      · have hk3 : k < 4 := by
          by_contra hnot
          obtain rfl : k = 4 := by omega
          rw [endOfThread_four] at hlater
          omega
        rw [endOfThread_of_lt hk3] at hlater hkend
        exact hrest (k + 1) (by omega) (by omega) a b x y ha hkend hlater hb hx hy
    refine h.front.glue hback fun a b x y _ ha hb hb' hx hy => ?_
    rcases Nat.lt_or_ge b (threadLength linesNum * (i + 1)) with hsame | hlater
    · exact le_of_lt (habove a b x y (Nat.zero_le a) ha hb hsame hx hy)
    · -- with an element of the segment `i` between the two
      have hz : arr[threadLength linesNum * i]? = some arr[threadLength linesNum * i] :=
        List.getElem?_eq_getElem (by omega)
      have hxz := habove a _ x _ (Nat.zero_le a) ha (Nat.le_refl _) (by omega) hx hz
      exact (le_of_lt hxz).trans
        (hrest (i + 1) (by omega) (by omega) _ b _ y (Nat.le_refl _) (by omega) hlater hb' hz hy)

/-- **The merges that are left** sort the array if and only if the rest is in order where they return early. -/
theorem mergeArrLoop_sorts (hgrants : ∀ n, grants n = true) (hlines : 2 ≤ linesNum) (hfuel : linesNum * 4 < fuel)
    (h : MergedUpTo linesNum i arr) (hi : 1 ≤ i) (hleft : left + i = 4) :
    ∃ ys, mergeArrLoop grants fuel linesNum left i arr = some ys ∧ ys.Perm arr ∧
      (SortedOn (· ≤ ·) 0 (linesNum * 4) ys ↔ EarlyInOrder linesNum i arr) := by
  induction left generalizing i arr with
  | zero =>
      obtain rfl : i = 4 := by omega
      have hparts := h.parts hlines hi (Nat.le_refl 4)
      rw [endOfThread_four] at hparts
      obtain ⟨ys, outcome, hmerge, hrest, hsorted⟩ := mergeBySize_sorts hgrants hparts hfuel
      rw [Nat.zero_add] at hsorted
      refine ⟨ys, ?_, hrest.perm, fun _ k hk hk' => by omega, fun _ => hsorted⟩
      rw [mergeArrLoop, hmerge]
      rfl
  | succ left ih =>
      have hparts := h.parts hlines hi (by omega)
      have hpos := hparts.lt
      have hlt' := hparts.lt_end
      have hle := hparts.le
      have hend : endOfThread linesNum i = threadLength linesNum * (i + 1) := endOfThread_of_lt (by omega)
      have hx : arr[threadLength linesNum * i - 1]? = some arr[threadLength linesNum * i - 1] :=
        List.getElem?_eq_getElem (by omega)
      have hy : arr[threadLength linesNum * i]? = some arr[threadLength linesNum * i] :=
        List.getElem?_eq_getElem (by omega)
      by_cases hcmp : arr[threadLength linesNum * i - 1] < arr[threadLength linesNum * i]
      · -- the loop returns
        obtain ⟨hmerge, -⟩ := mergeBySize_inOrder grants fuel hparts hx hy hcmp
        have habove := hparts.before hx hy hcmp
        rw [Nat.zero_add, hend] at habove
        refine ⟨arr, ?_, List.Perm.refl arr, h.sorted_iff hlines hi (by omega) habove⟩
        rw [hend] at hmerge
        rw [mergeArrLoop, hmerge]
        rfl
      · obtain ⟨arr', hmerge, hrest, hsorted⟩ := mergeBySize_merges hgrants hparts
          (show endOfThread linesNum i < fuel by rw [h.length] at hle; omega) hx hy hcmp
        obtain ⟨ys, hloop, hperm, hiff⟩ := ih (h.next (by omega) hrest hsorted) (by omega) (by omega)
        have hnot : ¬ Above linesNum i arr := fun habove =>
          hcmp (habove _ _ _ _ (Nat.zero_le _) (by omega) (Nat.le_refl _) (by omega) hx hy)
        refine ⟨ys, ?_, hperm.trans hrest.perm, hiff.trans ?_⟩
        · rw [hend] at hmerge
          rw [mergeArrLoop, hmerge]
          exact hloop
        · rw [Nat.zero_add, hend] at hrest
          constructor
          · intro hearly k hk hk' habove
            rcases Nat.lt_or_eq_of_le hk with hlt | rfl
            · exact (hearly.keep_front hrest.symm) k hlt hk' habove
            · exact absurd habove hnot
          · intro hearly
            exact EarlyInOrder.keep_front (fun k hk => hearly k (by omega)) hrest

/-! ## The whole program -/

omit [LinearOrder α] in
/-- A call that fails whatever the array is. -/
theorem foldlM_none {f : List α → Nat → Option (List α)} (hf : ∀ arr, f arr i = none) (hmem : i ∈ order) :
    order.foldlM f arr = none := by
  induction order generalizing arr with
  | nil => cases hmem
  | cons j order ih =>
      rw [List.foldlM_cons]
      rcases List.mem_cons.mp hmem with rfl | hmem
      · rw [hf]
        rfl
      · cases hj : f arr j with
        | none => rfl
        | some arr' => exact ih hmem

/-- With one line, the first thread has nothing to sort, and does not end. -/
theorem mtShuffleSorting_one (hlines : linesNum = 1) (hmem : 0 ∈ order) :
    mtShuffleSorting grants fuel linesNum order arr = none := by
  refine foldlM_none (i := 0) (fun arr => ?_) hmem
  subst hlines
  exact mergeSort_zero grants fuel arr 0

/-- **The threads and the merges end**, with a sorted permutation of the array. -/
def SortsDictionary (grants : Nat → Bool) (linesNum : Nat) (order : List Nat) (arr : List α) : Prop :=
  ∃ ys, SortOf arr ys ∧ ∃ least, ∀ fuel, least ≤ fuel → sortDictionary grants fuel linesNum order arr = some ys

theorem sortDictionary_sorts (hgrants : ∀ n, grants n = true) (hlines : 2 ≤ linesNum)
    (hlength : arr.length = linesNum * 4) (hfuel : linesNum * 4 + 1 < fuel) (horder : order.Perm (List.range 5)) :
    ∃ ys, sortDictionary grants fuel linesNum order arr = some ys ∧ ys.Perm arr ∧
      (ys.Pairwise (· ≤ ·) ↔ EarlyInOrder linesNum 1 arr) := by
  have hmem : ∀ i, i ∈ order ↔ i ≤ 4 := fun i => by
    rw [horder.mem_iff, List.mem_range]
    omega
  obtain ⟨arr₁, hthreads, hperm₁, hsegments, -, hearly⟩ := mtShuffleSorting_sorts hgrants hlines hlength hfuel
    (horder.nodup_iff.mpr List.nodup_range) fun i hi => (hmem i).mp hi
  have hlength₁ := hperm₁.length_eq.trans hlength
  have hmerged : MergedUpTo linesNum 1 arr₁ := by
    refine ⟨hlength₁, ?_, fun k hk hk' => startOfThread_eq linesNum k ▸ hsegments k ((hmem k).mpr hk')⟩
    have hfirst := hsegments 0 ((hmem 0).mpr (Nat.zero_le 4))
    rwa [endOfThread_of_lt (by decide), startOfThread, Nat.zero_mul] at hfirst
  obtain ⟨ys, hmerge, hperm, hiff⟩ := mergeArrLoop_sorts hgrants hlines (show linesNum * 4 < fuel by omega) hmerged
    (Nat.le_refl 1) (show 3 + 1 = 4 from rfl)
  rw [← hlength₁, ← hperm.length_eq] at hiff
  refine ⟨ys, ?_, hperm.trans hperm₁, ⟨fun h => ?_, fun h => ?_⟩⟩
  · rw [sortDictionary, hthreads]
    exact hmerge
  · exact hearly.mp (hiff.mp (.of_pairwise h 0 ys.length))
  · exact (hiff.mpr (hearly.mpr h)).pairwise

/-- **The array is sorted if and only if** there are two lines at least, and the rest is in order behind the first
    segment that is above all those before. -/
theorem sortDictionary_iff (hgrants : ∀ n, grants n = true) (hpos : 1 ≤ linesNum) (hlength : arr.length = 4 * linesNum)
    (horder : order.Perm (List.range 5)) :
    SortsDictionary grants linesNum order arr ↔ 2 ≤ linesNum ∧ EarlyInOrder linesNum 1 arr := by
  have hlength : arr.length = linesNum * 4 := hlength.trans (Nat.mul_comm 4 linesNum)
  constructor
  · rintro ⟨ys, hsort, least, hrun⟩
    have hlines : 2 ≤ linesNum := by
      by_contra hnot
      have hnone := hrun least (Nat.le_refl least)
      rw [sortDictionary, mtShuffleSorting_one (by omega) (horder.mem_iff.mpr (by decide))] at hnone
      cases hnone
    have hfuel := hrun (max least (linesNum * 4 + 2)) (Nat.le_max_left _ _)
    obtain ⟨zs, hzs, -, hiff⟩ := sortDictionary_sorts hgrants hlines hlength
      (show linesNum * 4 + 1 < max least (linesNum * 4 + 2) by omega) horder
    obtain rfl := Option.some.inj (hfuel.symm.trans hzs)
    exact ⟨hlines, hiff.mp hsort.2⟩
  · rintro ⟨hlines, hearly⟩
    obtain ⟨ys, -, hperm, hiff⟩ := sortDictionary_sorts hgrants hlines hlength (Nat.le_refl (linesNum * 4 + 2)) horder
    have hys : SortOf arr ys := ⟨hperm, hiff.mpr hearly⟩
    refine ⟨ys, hys, linesNum * 4 + 2, fun fuel hfuel => ?_⟩
    obtain ⟨zs, hzs, hperm', hiff'⟩ := sortDictionary_sorts hgrants hlines hlength hfuel horder
    rw [hzs, hys.unique ⟨hperm', hiff'.mpr hearly⟩]

/-- The two lines of a dictionary, with the first segment above in the last one. -/
theorem sortDictionary_sample :
    SortsDictionary (fun _ => true) 2 (List.range 5) [2, 1, 1, 1, 1, 2, 2, 2] := by
  refine (sortDictionary_iff (fun _ => rfl) (by decide) rfl (List.Perm.refl _)).mpr ⟨by decide, ?_⟩
  intro k hk hk' habove
  have hget : ∀ k ≤ 3, 1 ≤ k → [2, 1, 1, 1, 1, 2, 2, 2][k]? = some 1 := by decide
  -- no segment but the last one is above the first element
  have hlt := habove 0 k 2 1 (Nat.zero_le 0) (Nat.mul_pos (by decide) hk) (Nat.le_of_eq (Nat.one_mul k))
    (Nat.lt_of_lt_of_eq (Nat.lt_succ_self k) (Nat.one_mul _).symm) rfl (hget k hk' hk)
  exact absurd hlt (by decide)

/-- One line; and two lines, where the second segment is above the first one and the third one is not above the
    second. -/
theorem sortDictionary_unsorted :
    ¬ SortsDictionary (fun _ => true) 1 (List.range 5) [1, 1, 1, 1] ∧
      ¬ SortsDictionary (fun _ => true) 2 (List.range 5) [1, 2, 1, 1, 1, 2, 2, 2] := by
  constructor
  · rintro ⟨ys, -, least, hrun⟩
    have hnone := hrun least (Nat.le_refl least)
    rw [sortDictionary, mtShuffleSorting_one rfl (by decide)] at hnone
    cases hnone
  · rintro ⟨ys, hsort, least, hrun⟩
    obtain ⟨zs, hzs, -, hiff⟩ := sortDictionary_sorts (fun _ => rfl) (Nat.le_refl 2)
      (show [1, 2, 1, 1, 1, 2, 2, 2].length = 2 * 4 from rfl) (show 2 * 4 + 1 < max least 10 by omega)
      (List.Perm.refl (List.range 5))
    obtain rfl := Option.some.inj ((hrun _ (Nat.le_max_left least 10)).symm.trans hzs)
    have habove : Above 2 1 [1, 2, 1, 1, 1, 2, 2, 2] := by
      intro i j x y _ hi hj hj' hx hy
      obtain rfl : i = 0 := Nat.lt_one_iff.mp hi
      obtain rfl : j = 1 := Nat.le_antisymm (Nat.le_of_lt_succ hj') hj
      cases hx
      cases hy
      exact Nat.one_lt_two
    have hle := hiff.mp hsort.2 1 (Nat.le_refl 1) (by decide) habove 2 (by decide) (by decide) 1 2 2 1 (by decide)
      (by decide) (by decide) (by decide) rfl rfl
    exact absurd hle (by decide)

end Workbench.Sorts
