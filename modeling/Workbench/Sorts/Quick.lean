import Workbench.Lib.Comparator
import Workbench.Lib.Sorting
import Workbench.Lib.Strided
import Workbench.Lib.While

/-!
# `Sorts.Quick` — `QuickSort`

The elements have so many bytes each, and the runners are pointers to bytes: offsets from the start of the array, which
may be in front of it or behind it. The pivot stays in the first cell until the runners have met.

## Main results
* `partitionStep_splits` — one turn of the outer loop keeps the array split around the pivot;
* `quickSortByIndexes_sorts` — the recursion, over parts without elements too;
* `quickSort_sorts` — every array is sorted.
-/

namespace Workbench.Sorts

open BinaryHeap (Swapped swapped_set)

variable {α : Type}

/-! ## The functions -/

/-- The bytes go through a pointer, which has 8 of them. Both arguments may be the same. -/
def voidSwap (size : Nat) (arr : List α) (first second : Int) : Option (List α) := do
  let x ← elementAt size arr first
  let y ← elementAt size arr second
  if size ≤ 8 then return (arr.set (elementIndex size first) y).set (elementIndex size second) x
  else none

/-- The condition of the first inner loop. -/
def runnerGoes (cmp : Comparator α) (size : Nat) (arr : List α) (pivot backRunner runner : Int) : Option Bool :=
  if runner < backRunner then do
    let x ← elementAt size arr pivot
    let y ← elementAt size arr runner
    return decide (0 ≤ cmp.compare x y)
  else some false

/-- The condition of the second inner loop, which compares before it looks at the bound. -/
def backRunnerGoes (cmp : Comparator α) (size : Nat) (arr : List α) (pivot runner backRunner : Int) : Option Bool := do
  let y ← elementAt size arr backRunner
  let x ← elementAt size arr pivot
  return decide (0 < cmp.compare y x) && decide (runner ≤ backRunner)

/-- The body of the outer loop, with `runner` and `back_runner`. -/
def partitionStep (cmp : Comparator α) (size fuel : Nat) (pivot : Int) :
    List α × Int × Int → Option (List α × Int × Int)
  | (arr, runner, backRunner) => do
      let runner ← whileDo (runnerGoes cmp size arr pivot backRunner) (fun p => some (p + size)) fuel runner
      let backRunner ← whileDo (backRunnerGoes cmp size arr pivot runner) (fun p => some (p - size)) fuel backRunner
      let arr ← if runner < backRunner then voidSwap size arr runner backRunner else some arr
      return (arr, runner, backRunner)

def quickSortByIndexes (cmp : Comparator α) (size : Nat) : Nat → List α → Int → Int → Option (List α)
  | 0, _, _, _ => none
  | fuel + 1, arr, first, last =>
      if first < last then do
        let (arr, _, backRunner) ← whileDo (fun s => some (decide (s.2.1 < s.2.2))) (partitionStep cmp size fuel first)
          fuel (arr, first, last)
        let arr ← voidSwap size arr first backRunner
        let arr ← quickSortByIndexes cmp size fuel arr first (backRunner - size)
        quickSortByIndexes cmp size fuel arr (backRunner + size) last
      else some arr

/-- With no elements, `last` is one element in front of the array. -/
def quickSort (cmp : Comparator α) (size fuel : Nat) (arr : List α) (nmemb : Nat) : Option (List α) :=
  quickSortByIndexes cmp size fuel arr 0 (((nmemb : Int) - 1) * size)

/-! ## The inner loops -/

variable {cmp : Comparator α} {arr arr' : List α} {x y : α} {size fuel lo hi r b : Nat}

theorem voidSwap_swapped (hsize : 0 < size) (hsize' : size ≤ 8) (hr : r < arr.length) (hb : b < arr.length) :
    ∃ arr', voidSwap size arr (r * size) (b * size) = some arr' ∧ Swapped arr r b arr' := by
  have hx : arr[r]? = some arr[r] := List.getElem?_eq_getElem hr
  have hy : arr[b]? = some arr[b] := List.getElem?_eq_getElem hb
  refine ⟨_, ?_, swapped_set hx hy⟩
  rw [voidSwap, elementAt_mul hsize, elementAt_mul hsize, elementIndex_mul hsize, elementIndex_mul hsize, hx, hy]
  exact if_pos hsize'

theorem runnerGoes_mul (hsize : 0 < size) (hx : arr[lo]? = some x) (hy : arr[r]? = some y) (hrb : r < b) :
    runnerGoes cmp size arr (lo * size) (b * size) (r * size) = some (decide (cmp.compare y x ≤ 0)) := by
  rw [runnerGoes, if_pos ((mul_size_lt hsize).mpr (by omega)), elementAt_mul hsize, elementAt_mul hsize, hx, hy]
  exact congrArg some (decide_eq_decide.mpr cmp.nonpos_iff.symm)

theorem backRunnerGoes_mul (hsize : 0 < size) (hx : arr[lo]? = some x) (hy : arr[b]? = some y) :
    backRunnerGoes cmp size arr (lo * size) (r * size) (b * size) = some (decide (0 < cmp.compare y x ∧ r ≤ b)) := by
  rw [backRunnerGoes, elementAt_mul hsize, elementAt_mul hsize, hx, hy]
  show some (decide (0 < cmp.compare y x) && decide ((r * size : Int) ≤ b * size)) = _
  rw [Bool.decide_and, decide_eq_decide.mpr ((mul_size_le hsize).trans Int.ofNat_le)]

/-- **The runner** stops at the other one, or at an element that is greater than the pivot. -/
theorem runner_stops (cmp : Comparator α) (hsize : 0 < size) (hx : arr[lo]? = some x) (hb : b < arr.length)
    (hrb : r ≤ b) (hfuel : b - r < fuel) :
    ∃ k : Nat, whileDo (runnerGoes cmp size arr (lo * size) (b * size)) (fun p => some (p + size)) fuel (r * size) =
        some ((k : Int) * size) ∧ r ≤ k ∧ k ≤ b ∧ (∀ i y, r ≤ i → i < k → arr[i]? = some y → cmp.compare y x ≤ 0) ∧
      (∀ y, k < b → arr[k]? = some y → 0 < cmp.compare y x) := by
  let inv : Int → Prop := fun p => ∃ k : Nat, p = k * size ∧ r ≤ k ∧ k ≤ b ∧
    ∀ i y, r ≤ i → i < k → arr[i]? = some y → cmp.compare y x ≤ 0
  have hturn : ∀ p, inv p → runnerGoes cmp size arr (lo * size) (b * size) p = some false ∨
      runnerGoes cmp size arr (lo * size) (b * size) p = some true ∧
        ∃ p', some (p + size) = some p' ∧ inv p' ∧ b - elementIndex size p' < b - elementIndex size p := by
    rintro p ⟨k, rfl, hrk, hkb, hlow⟩
    rcases Nat.lt_or_eq_of_le hkb with hlt | rfl
    · have hy : arr[k]? = some arr[k] := List.getElem?_eq_getElem (hlt.trans hb)
      rw [runnerGoes_mul hsize hx hy hlt]
      by_cases hcmp : cmp.compare arr[k] x ≤ 0
      · have hnext : (k * size + size : Int) = (k + 1 : Nat) * size := by
          rw [Int.natCast_succ, Int.add_mul, Int.one_mul]
        refine .inr ⟨by rw [decide_eq_true hcmp], _, rfl, ⟨k + 1, hnext, by omega, hlt, fun i y hri hik hget => ?_⟩, ?_⟩
        · rcases Nat.lt_succ_iff_lt_or_eq.mp hik with hik | rfl
          · exact hlow i y hri hik hget
          · rwa [← Option.some.inj (hy.symm.trans hget)]
        · rw [hnext, elementIndex_mul hsize, elementIndex_mul hsize]
          omega
      · exact .inl (by rw [decide_eq_false hcmp])
    · exact .inl (if_neg (lt_irrefl _))
  obtain ⟨p, hloop, ⟨k, rfl, hrk, hkb, hlow⟩, hend⟩ := whileDo_ends _ _ inv _ hturn
    ⟨r, rfl, Nat.le_refl r, hrb, fun i y hri hir => absurd hri (by omega)⟩ (by rwa [elementIndex_mul hsize])
  refine ⟨k, hloop, hrk, hkb, hlow, fun y hlt hy => ?_⟩
  rw [runnerGoes_mul hsize hx hy hlt] at hend
  exact Int.not_le.mp (of_decide_eq_false (Option.some.inj hend))

/-- **The runner at the back** stops at an element that is not greater than the pivot, at the pivot itself at last, or
    right behind the other runner. -/
theorem backRunner_stops (cmp : Comparator α) (hsize : 0 < size) (hx : arr[lo]? = some x) (hb : b < arr.length)
    (hlo : lo ≤ b) (hrb : r ≤ b) (hfuel : b - lo < fuel) :
    ∃ k : Nat, whileDo (backRunnerGoes cmp size arr (lo * size) (r * size)) (fun p => some (p - size)) fuel (b * size) =
        some ((k : Int) * size) ∧ lo ≤ k ∧ k ≤ b ∧ r ≤ k + 1 ∧
      (∀ i y, k < i → i ≤ b → arr[i]? = some y → 0 < cmp.compare y x) ∧
      (∀ y, r ≤ k → arr[k]? = some y → cmp.compare y x ≤ 0) := by
  let inv : Int → Prop := fun p => ∃ k : Nat, p = k * size ∧ lo ≤ k ∧ k ≤ b ∧ r ≤ k + 1 ∧
    ∀ i y, k < i → i ≤ b → arr[i]? = some y → 0 < cmp.compare y x
  have hturn : ∀ p, inv p → backRunnerGoes cmp size arr (lo * size) (r * size) p = some false ∨
      backRunnerGoes cmp size arr (lo * size) (r * size) p = some true ∧
        ∃ p', some (p - size) = some p' ∧ inv p' ∧ elementIndex size p' - lo < elementIndex size p - lo := by
    rintro p ⟨k, rfl, hlok, hkb, hrk, hhigh⟩
    have hy : arr[k]? = some arr[k] := List.getElem?_eq_getElem (Nat.lt_of_le_of_lt hkb hb)
    rw [backRunnerGoes_mul hsize hx hy]
    by_cases hgoes : 0 < cmp.compare arr[k] x ∧ r ≤ k
    · -- the pivot does not compare greater than itself
      have hne : k ≠ lo := by
        rintro rfl
        have hself := cmp.self x
        rw [Option.some.inj (hy.symm.trans hx)] at hgoes
        omega
      have hnext : (k * size - size : Int) = (k - 1 : Nat) * size := by
        rw [Int.natCast_pred_of_pos (by omega), Int.sub_mul, Int.one_mul]
      refine .inr ⟨by rw [decide_eq_true hgoes], _, rfl, ⟨k - 1, hnext, by omega, by omega, by omega, ?_⟩, ?_⟩
      · intro i y hki hib hget
        rcases Nat.lt_or_eq_of_le (Nat.le_of_pred_lt hki) with hki | rfl
        · exact hhigh i y hki hib hget
        · rw [← Option.some.inj (hy.symm.trans hget)]
          exact hgoes.1
      · rw [hnext, elementIndex_mul hsize, elementIndex_mul hsize]
        omega
    · exact .inl (by rw [decide_eq_false hgoes])
  obtain ⟨p, hloop, ⟨k, rfl, hlok, hkb, hrk, hhigh⟩, hend⟩ := whileDo_ends _ _ inv _ hturn
    ⟨b, rfl, hlo, Nat.le_refl b, by omega, fun i y hbi hib => absurd hbi (by omega)⟩ (by rwa [elementIndex_mul hsize])
  refine ⟨k, hloop, hlok, hkb, hrk, hhigh, fun y hrk hy => ?_⟩
  rw [backRunnerGoes_mul hsize hx hy] at hend
  exact Int.not_lt.mp fun hgt => of_decide_eq_false (Option.some.inj hend) ⟨hgt, hrk⟩

/-! ## The partition -/

/-- **The pivot in the first cell**, what is up to the runner not greater, and what is behind the other one greater. -/
structure Split (cmp : Comparator α) (x : α) (lo hi r b : Nat) (arr : List α) : Prop where
  pivot : arr[lo]? = some x
  length : hi ≤ arr.length
  runner : lo ≤ r
  back : lo ≤ b ∧ b < hi
  low (i : Nat) (y : α) : lo ≤ i → i ≤ r → i ≤ b → arr[i]? = some y → cmp.compare y x ≤ 0
  high (i : Nat) (y : α) : b < i → i < hi → arr[i]? = some y → 0 < cmp.compare y x

/-- The two runners stop apart, and their elements trade places. -/
theorem Split.swap (hx : arr[lo]? = some x) (hlength : hi ≤ arr.length) (hlor : lo < r) (hrb : r < b) (hbhi : b < hi)
    (hlow : ∀ i y, lo ≤ i → i < r → arr[i]? = some y → cmp.compare y x ≤ 0)
    (hback : ∀ y, arr[b]? = some y → cmp.compare y x ≤ 0)
    (hhigh : ∀ i y, b < i → i < hi → arr[i]? = some y → 0 < cmp.compare y x) (hswapped : Swapped arr r b arr') :
    Split cmp x lo hi r b arr' := by
  have hx' : arr'[lo]? = some x := by rw [hswapped.others lo (by omega) (by omega), hx]
  refine ⟨hx', hswapped.length ▸ hlength, by omega, by omega, fun i y hlo hi hib hget => ?_, fun i y hbi hi hget => ?_⟩
  · rcases Nat.lt_or_eq_of_le hi with hir | rfl
    · rw [hswapped.others i (by omega) (by omega)] at hget
      exact hlow i y hlo hir hget
    · rw [hswapped.left] at hget
      exact hback y hget
  · rw [hswapped.others i (by omega) (by omega)] at hget
    exact hhigh i y hbi hi hget

/-- The two runners meet. -/
theorem Split.meet (hx : arr[lo]? = some x) (hlength : hi ≤ arr.length) (hlor : lo < r) (hlob : lo ≤ b) (hbr : b ≤ r)
    (hbhi : b < hi) (hlow : ∀ i y, lo ≤ i → i < r → arr[i]? = some y → cmp.compare y x ≤ 0)
    (hback : ∀ y, r ≤ b → arr[b]? = some y → cmp.compare y x ≤ 0)
    (hhigh : ∀ i y, b < i → i < hi → arr[i]? = some y → 0 < cmp.compare y x) : Split cmp x lo hi r b arr := by
  refine ⟨hx, hlength, by omega, by omega, fun i y hlo hi hib hget => ?_, hhigh⟩
  rcases Nat.lt_or_eq_of_le hi with hir | rfl
  · exact hlow i y hlo hir hget
  · obtain rfl : i = b := by omega
    exact hback y (Nat.le_refl i) hget

/-- One turn of the outer loop. -/
theorem partitionStep_splits (hsize : 0 < size) (hsize' : size ≤ 8) (h : Split cmp x lo hi r b arr) (hrb : r < b)
    (hfuel : hi - lo ≤ fuel) :
    ∃ arr', ∃ r' b' : Nat, partitionStep cmp size fuel (lo * size) (arr, r * size, b * size) =
        some (arr', (r' : Int) * size, (b' : Int) * size) ∧ Rearranged lo hi arr arr' ∧ Split cmp x lo hi r' b' arr' ∧
      b' - r' < b - r := by
  have hrunner := h.runner
  have hlength := h.length
  obtain ⟨hlob, hbhi⟩ := h.back
  obtain ⟨r', hfront, hrr', hr'b, hlow, hstop⟩ := runner_stops cmp hsize h.pivot
    (show b < arr.length by omega) (Nat.le_of_lt hrb) (show b - r < fuel by omega)
  obtain ⟨b', hback, hlob', hb'b, hr'b', hhigh, hstop'⟩ := backRunner_stops cmp hsize h.pivot
    (show b < arr.length by omega) hlob hr'b (show b - lo < fuel by omega)
  -- the runner has left its cell
  have hmoved : r < r' := by
    refine Nat.lt_of_le_of_ne hrr' ?_
    rintro rfl
    have hy : arr[r]? = some arr[r] := List.getElem?_eq_getElem (by omega)
    exact absurd (h.low r _ hrunner (Nat.le_refl r) (Nat.le_of_lt hrb) hy) (Int.not_le.mpr (hstop _ hrb hy))
  have hfront' : ∀ i y, lo ≤ i → i < r' → arr[i]? = some y → cmp.compare y x ≤ 0 := by
    intro i y hlo hi hget
    rcases Nat.lt_or_ge i r with hir | hri
    · exact h.low i y hlo (Nat.le_of_lt hir) (by omega) hget
    · exact hlow i y hri hi hget
  have hback' : ∀ i y, b' < i → i < hi → arr[i]? = some y → 0 < cmp.compare y x := by
    intro i y hb' hi hget
    rcases Nat.lt_or_ge b i with hbi | hib
    · exact h.high i y hbi hi hget
    · exact hhigh i y hb' hib hget
  have hstep : partitionStep cmp size fuel (lo * size) (arr, r * size, b * size) =
      if (r' * size : Int) < b' * size then
        (voidSwap size arr (r' * size) (b' * size)).bind fun arr => some (arr, (r' : Int) * size, (b' : Int) * size)
      else some (arr, (r' : Int) * size, (b' : Int) * size) := by
    rw [partitionStep, hfront]
    show (whileDo (backRunnerGoes cmp size arr (lo * size) (r' * size)) _ fuel (b * size)).bind _ = _
    rw [hback]
    rfl
  by_cases hmeet : r' < b'
  · obtain ⟨arr', hswap, hswapped⟩ := voidSwap_swapped hsize hsize' (show r' < arr.length by omega)
      (show b' < arr.length by omega)
    rw [if_pos ((mul_size_lt hsize).mpr (by omega)), hswap] at hstep
    refine ⟨arr', r', b', hstep, .of_swapped hswapped (by omega) (by omega), ?_, by omega⟩
    exact .swap h.pivot hlength (by omega) hmeet (by omega) hfront' (fun y => hstop' y (Nat.le_of_lt hmeet)) hback'
      hswapped
  · rw [if_neg (mt (mul_size_lt hsize).mp (by omega))] at hstep
    refine ⟨arr, r', b', hstep, Rearranged.refl lo hi arr, ?_, by omega⟩
    exact .meet h.pivot hlength (by omega) hlob' (by omega) (by omega) hfront' hstop' hback'

/-- **The outer loop** ends with the runner at the back on the last element that is not greater than the pivot. -/
theorem partition_splits (cmp : Comparator α) (hsize : 0 < size) (hsize' : size ≤ 8) (hx : arr[lo]? = some x)
    (hlt : lo + 1 < hi) (hhi : hi ≤ arr.length) (hfuel : hi - lo ≤ fuel) :
    ∃ arr', ∃ r b : Nat, whileDo (fun s => some (decide (s.2.1 < s.2.2))) (partitionStep cmp size fuel (lo * size)) fuel
        (arr, lo * size, ((hi : Int) - 1) * size) = some (arr', (r : Int) * size, (b : Int) * size) ∧
      Rearranged lo hi arr arr' ∧ Split cmp x lo hi r b arr' ∧ b ≤ r := by
  let inv : List α × Int × Int → Prop := fun s => ∃ r b : Nat, s.2 = ((r : Int) * size, (b : Int) * size) ∧
    Rearranged lo hi arr s.1 ∧ Split cmp x lo hi r b s.1
  have hturn : ∀ s, inv s → some (decide (s.2.1 < s.2.2)) = some false ∨ some (decide (s.2.1 < s.2.2)) = some true ∧
      ∃ s', partitionStep cmp size fuel (lo * size) s = some s' ∧ inv s' ∧
        elementIndex size s'.2.2 - elementIndex size s'.2.1 < elementIndex size s.2.2 - elementIndex size s.2.1 := by
    rintro ⟨arr₁, _⟩ ⟨r, b, rfl, hrest, hsplit⟩
    by_cases hrb : r < b
    · obtain ⟨arr₂, r', b', hstep, hrest', hsplit', hless⟩ := partitionStep_splits hsize hsize' hsplit hrb hfuel
      refine .inr ⟨congrArg some (decide_eq_true ((mul_size_lt hsize).mpr (by omega))), _, hstep,
        ⟨r', b', rfl, hrest.trans hrest', hsplit'⟩, ?_⟩
      simp only [elementIndex_mul hsize]
      exact hless
    · exact .inl (congrArg some (decide_eq_false (mt (mul_size_lt hsize).mp (by omega))))
  have hlast : ((hi : Int) - 1) * size = (hi - 1 : Nat) * size := by rw [Int.natCast_pred_of_pos (by omega)]
  have hstart : Split cmp x lo hi lo (hi - 1) arr := by
    refine ⟨hx, hhi, Nat.le_refl lo, by omega, fun i y hlo hi _ hget => ?_, fun i y hb hi => absurd hb (by omega)⟩
    obtain rfl : i = lo := by omega
    rw [← Option.some.inj (hx.symm.trans hget), cmp.self]
  have hmeasure : elementIndex size ((hi - 1 : Nat) * size) - elementIndex size (lo * size) < fuel := by
    rw [elementIndex_mul hsize, elementIndex_mul hsize]
    omega
  rw [hlast]
  obtain ⟨⟨arr', _⟩, hloop, ⟨r, b, rfl, hrest, hsplit⟩, hend⟩ := whileDo_ends _ _ inv _ hturn
    (s := (arr, (lo : Int) * size, ((hi - 1 : Nat) : Int) * size))
    ⟨lo, hi - 1, rfl, Rearranged.refl lo hi arr, hstart⟩ hmeasure
  refine ⟨arr', r, b, hloop, hrest, hsplit, ?_⟩
  by_contra hrb
  exact of_decide_eq_false (Option.some.inj hend) ((mul_size_lt hsize).mpr (by omega))

/-- The pivot goes between the two parts. -/
theorem Split.before (h : Split cmp x lo hi r b arr) (hbr : b ≤ r) (hswap : Swapped arr lo b arr') :
    arr'[b]? = some x ∧ Before (fun y z => cmp.compare y z ≤ 0) lo b (b + 1) arr' ∧
      Before (fun y z => cmp.compare y z ≤ 0) lo (b + 1) hi arr' := by
  obtain ⟨hlob, -⟩ := h.back
  have hx : arr'[b]? = some x := hswap.right.trans h.pivot
  have hlow : ∀ i y, lo ≤ i → i < b + 1 → arr'[i]? = some y → cmp.compare y x ≤ 0 := by
    intro i y hlo hi hget
    by_cases hib : i = b
    · subst hib
      rw [← Option.some.inj (hx.symm.trans hget), cmp.self]
    by_cases hil : i = lo
    · subst hil
      exact h.low b y hlob hbr (Nat.le_refl b) (hswap.left ▸ hget)
    · exact h.low i y hlo (by omega) (by omega) (hswap.others i hil hib ▸ hget)
  refine ⟨hx, fun i j y z hlo hi hj hj' hy hz => ?_, fun i j y z hlo hi hj hj' hy hz => ?_⟩
  · obtain rfl : j = b := by omega
    rw [← Option.some.inj (hx.symm.trans hz)]
    exact hlow i y hlo (by omega) hy
  · rw [hswap.others j (by omega) (by omega)] at hz
    have hxz : cmp.compare x z ≤ 0 := cmp.nonpos_iff.mpr (Int.le_of_lt (h.high j z hj hj' hz))
    exact cmp.nonpos_trans (hlow i y hlo hi hy) hxz

/-! ## The recursion -/

/-- **The elements from `lo` up to `hi` are sorted**, also where there is none. -/
theorem quickSortByIndexes_sorts (cmp : Comparator α) (hsize : 0 < size) (hsize' : size ≤ 8) (hle : lo ≤ hi)
    (hhi : hi ≤ arr.length) (hfuel : hi - lo < fuel) :
    ∃ ys, quickSortByIndexes cmp size fuel arr (lo * size) (((hi : Int) - 1) * size) = some ys ∧
      Rearranged lo hi arr ys ∧ SortedOn (fun y z => cmp.compare y z ≤ 0) lo hi ys := by
  induction fuel generalizing arr lo hi with
  | zero => omega
  | succ fuel ih =>
      by_cases hlt : lo + 1 < hi
      · have hx : arr[lo]? = some arr[lo] := List.getElem?_eq_getElem (by omega)
        obtain ⟨arr₁, r, b, hloop, hrest₁, hsplit, hbr⟩ := partition_splits cmp hsize hsize' hx hlt hhi
          (show hi - lo ≤ fuel by omega)
        obtain ⟨hlob, hbhi⟩ := hsplit.back
        have hlength₁ := hrest₁.length
        obtain ⟨arr₂, hswap, hswapped⟩ := voidSwap_swapped hsize hsize' (show lo < arr₁.length by omega)
          (show b < arr₁.length by omega)
        have hrest₂ : Rearranged lo hi arr₁ arr₂ := .of_swapped hswapped (by omega) (by omega)
        have hlength₂ := hrest₂.length
        obtain ⟨-, hbefore, hbefore'⟩ := hsplit.before hbr hswapped
        obtain ⟨arr₃, hleft, hrest₃, hsorted₃⟩ := ih hlob (show b ≤ arr₂.length by omega) (by omega)
        have hlength₃ := hrest₃.length
        obtain ⟨arr₄, hright, hrest₄, hsorted₄⟩ := ih (show b + 1 ≤ hi by omega)
          (show hi ≤ arr₃.length by omega) (by omega)
        have hsorted : SortedOn (fun y z => cmp.compare y z ≤ 0) lo (b + 1) arr₃ :=
          hsorted₃.glue (sortedOn_of_le (Nat.le_refl _)) (hbefore.keep hrest₃ (by omega) (by omega))
        refine ⟨arr₄, ?_, ?_, ?_⟩
        · rw [quickSortByIndexes, if_pos ((mul_size_lt hsize).mpr (by omega)), hloop]
          show (voidSwap size arr₁ (lo * size) (b * size)).bind _ = _
          rw [hswap]
          show (quickSortByIndexes cmp size fuel arr₂ (lo * size) (b * size - size)).bind _ = _
          rw [show (b * size - size : Int) = ((b : Int) - 1) * size by rw [Int.sub_mul, Int.one_mul], hleft]
          show quickSortByIndexes cmp size fuel arr₃ (b * size + size) _ = _
          rw [show (b * size + size : Int) = (b + 1 : Nat) * size by rw [Int.natCast_succ, Int.add_mul, Int.one_mul],
            hright]
        · exact ((hrest₁.trans hrest₂).trans (hrest₃.mono (Nat.le_refl lo) (by omega))).trans
            (hrest₄.mono (by omega) (Nat.le_refl hi))
        · exact (hsorted.keep hrest₄ (by omega)).glue hsorted₄
            ((hbefore'.keep hrest₃ (by omega) (by omega)).keep hrest₄ (by omega) (by omega))
      · refine ⟨arr, ?_, Rearranged.refl lo hi arr, sortedOn_of_le (by omega)⟩
        rw [quickSortByIndexes, if_neg (mt (mul_size_lt hsize).mp (by omega))]

/-- **`QuickSort` ends with the elements in order**, for every total preorder and every number of elements. -/
theorem quickSort_sorts (cmp : Comparator α) (hsize : 1 ≤ size) (hsize' : size ≤ 8) (arr : List α)
    (hfuel : arr.length < fuel) :
    ∃ ys, quickSort cmp size fuel arr arr.length = some ys ∧ ys.Perm arr ∧
      ys.Pairwise fun y z => cmp.compare y z ≤ 0 := by
  obtain ⟨ys, hrun, hrest, hsorted⟩ := quickSortByIndexes_sorts cmp hsize hsize' (Nat.zero_le arr.length)
    (Nat.le_refl _) hfuel
  rw [Int.natCast_zero, Int.zero_mul] at hrun
  exact ⟨ys, hrun, hrest.perm, (hrest.length ▸ hsorted).pairwise⟩

theorem quickSort_sample : ∃ ys, quickSort Comparator.byDifference 4 5 [3, 1, -2, 1] [3, 1, -2, 1].length = some ys ∧
    ys.Perm [3, 1, -2, 1] ∧ ys.Pairwise fun y z => Comparator.byDifference.compare y z ≤ 0 :=
  quickSort_sorts Comparator.byDifference (by decide) (by decide) [3, 1, -2, 1] (by decide)

end Workbench.Sorts
