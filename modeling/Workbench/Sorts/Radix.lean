import Mathlib.Data.Nat.Digits.Lemmas
import Workbench.Sorts.Counting
import Workbench.Sorts.Exchange

/-!
# `Sorts.Radix` — `RadixSort`

One pass of `CountingSort1` for each digit, from the last one on. `GetKey` divides by a `size_t`, which makes a negative
number a large one first, so that only the last digit of such a number is its own.

## Main results
* `countingSort1_large` — with too many elements for an `int`, a pass fails;
* `passes_sorts` — the passes sort by all keys, the last pass first;
* `radixSort_iff` — when that is the order of the numbers;
* `radixSorts_of_nonneg` — which it is for numbers that are not negative.
-/

namespace Workbench.Sorts

/-! ## The functions -/

def getNumOfDigit (fuel : Nat) (num : Int) : Option Nat := do
  let (_, count) ← whileDo (fun s => some (decide (0 ≠ s.1))) (fun s => some (s.1.tdiv 10, s.2 + 1)) fuel (num, 0)
  return count

/-- The body of the first loop, with `runner`, `max` and `min`. -/
def extremesStep (arr : List Int) : Nat × Int × Int → Option (Nat × Int × Int)
  | (runner, max, min) => do
      let num ← arr[runner]?
      return (runner + 1, if max > num then max else num, if min < num then min else num)

/-- The body of the loop over the digits, with `digits` and `max_digits`. -/
def radixStep (grants : Nat → Bool) (fuel length : Nat) : List Int × Nat × Nat → Option (List Int × Nat × Nat)
  | (arr, digits, maxDigits) => do
      let arr ← countingSort1 grants fuel arr length getKey digits
      return (arr, digits * 10, maxDigits - 1)

def radixSort (grants : Nat → Bool) (fuel : Nat) (arr : List Int) (length : Nat) : Option (List Int) := do
  let num ← arr[0]?
  let (_, max, min) ← whileDo (fun s => some (decide (s.1 < length))) (extremesStep arr) fuel (0, num, num)
  let maxDigits ← getNumOfDigit fuel max
  let minDigits ← getNumOfDigit fuel min
  let (arr, _, _) ← whileDo (fun s => some (decide (0 < s.2.2))) (radixStep grants fuel length) fuel
    (arr, 1, if maxDigits > minDigits then maxDigits else minDigits)
  return arr

/-! ## The digits -/

variable {grants : Nat → Bool} {fuel d n : Nat} {arr ys : List Int} {x y num : Int}

/-- How many digits a number has. -/
def digitCount (num : Int) : Nat := (Nat.digits 10 num.natAbs).length

/-- How many digits the longest one of the numbers has. -/
def mostDigits (arr : List Int) : Nat := (arr.map digitCount).foldr max 0

/-- What `digits` is after so many passes. -/
def digitsAfter : Nat → Nat
  | 0 => 1
  | d + 1 => digitsAfter d * 10

/-- The keys of the passes, the last pass first. -/
def digitKeys : Nat → Int → List Int
  | 0, _ => []
  | d + 1, num => getKey num (digitsAfter d) :: digitKeys d num

/-- **The keys agree with the order of the numbers**, for each two elements of the array. -/
def DigitsAgree (arr : List Int) : Prop :=
  arr.Pairwise fun x y => (digitKeys (mostDigits arr) x ≤ digitKeys (mostDigits arr) y → x ≤ y) ∧
    (digitKeys (mostDigits arr) y < digitKeys (mostDigits arr) x → y ≤ x)

theorem digitCount_tdiv (h : num ≠ 0) : digitCount num = digitCount (num.tdiv 10) + 1 := by
  have hpos : 0 < num.natAbs := Int.natAbs_pos.mpr h
  rw [digitCount, digitCount, Nat.digits_def' (by decide) hpos, Int.natAbs_tdiv]
  rfl

theorem getNumOfDigit_eq (hfuel : num.natAbs < fuel) : getNumOfDigit fuel num = some (digitCount num) := by
  have hturn : ∀ s : Int × Nat, s.2 + digitCount s.1 = digitCount num →
      some (decide (0 ≠ s.1)) = some false ∨ some (decide (0 ≠ s.1)) = some true ∧
        ∃ s' : Int × Nat, some (s.1.tdiv 10, s.2 + 1) = some s' ∧ s'.2 + digitCount s'.1 = digitCount num ∧
          s'.1.natAbs < s.1.natAbs := by
    rintro ⟨v, count⟩ hcount
    by_cases hv : v = 0
    · exact .inl (congrArg some (decide_eq_false (not_not_intro hv.symm)))
    · refine .inr ⟨congrArg some (decide_eq_true (Ne.symm hv)), _, rfl, ?_, ?_⟩
      · have hdigits := digitCount_tdiv hv
        simp only at hcount ⊢
        omega
      · have hpos : 0 < v.natAbs := Int.natAbs_pos.mpr hv
        rw [Int.natAbs_tdiv]
        exact Nat.div_lt_self hpos (by decide)
  obtain ⟨⟨v, count⟩, hloop, hcount, hend⟩ := whileDo_ends (fun s => some (decide (0 ≠ s.1)))
    (fun s : Int × Nat => some (s.1.tdiv 10, s.2 + 1)) _ (·.1.natAbs) hturn (s := (num, 0)) (Nat.zero_add _) hfuel
  obtain rfl : v = 0 := by
    by_contra hv
    exact of_decide_eq_false (Option.some.inj hend) (Ne.symm hv)
  rw [getNumOfDigit, hloop]
  exact congrArg some hcount

theorem digitCount_le (h : x.natAbs ≤ y.natAbs) : digitCount x ≤ digitCount y := Nat.le_length_digits_le 10 _ _ h

theorem digitCount_eq_zero : digitCount x = 0 ↔ x = 0 := by
  rw [digitCount, List.length_eq_zero_iff, Nat.digits_eq_nil_iff_eq_zero, Int.natAbs_eq_zero]

theorem mostDigits_cons (x : Int) (arr : List Int) : mostDigits (x :: arr) = max (digitCount x) (mostDigits arr) := rfl

theorem digitCount_le_mostDigits (hx : x ∈ arr) : digitCount x ≤ mostDigits arr := by
  induction arr with
  | nil => cases hx
  | cons y arr ih =>
      rw [mostDigits_cons]
      rcases List.mem_cons.mp hx with rfl | hx
      · exact Nat.le_max_left _ _
      · exact (ih hx).trans (Nat.le_max_right _ _)

theorem mostDigits_le (h : ∀ x ∈ arr, digitCount x ≤ d) : mostDigits arr ≤ d := by
  induction arr with
  | nil => exact Nat.zero_le d
  | cons x arr ih =>
      exact Nat.max_le.mpr ⟨h x List.mem_cons_self, ih fun y hy => h y (List.mem_cons_of_mem x hy)⟩

/-- One of the extreme numbers has the most digits. -/
theorem mostDigits_eq {max min : Int} (hmax : max ∈ arr) (hmin : min ∈ arr) (h : ∀ x ∈ arr, x ≤ max ∧ min ≤ x) :
    (if digitCount max > digitCount min then digitCount max else digitCount min) = mostDigits arr := by
  have hle : ∀ d, digitCount max ≤ d → digitCount min ≤ d → mostDigits arr ≤ d := by
    intro d hmaxd hmind
    refine mostDigits_le fun x hx => ?_
    obtain ⟨hupper, hlower⟩ := h x hx
    rcases le_total 0 x with hsign | hsign
    · exact (digitCount_le (by omega)).trans hmaxd
    · exact (digitCount_le (by omega)).trans hmind
  split
  · next hgt => exact le_antisymm (digitCount_le_mostDigits hmax) (hle _ (Nat.le_refl _) (Nat.le_of_lt hgt))
  · next hle' => exact le_antisymm (digitCount_le_mostDigits hmin) (hle _ (Nat.not_lt.mp hle') (Nat.le_refl _))

theorem mostDigits_eq_zero : mostDigits arr = 0 ↔ ∀ x ∈ arr, x = 0 := by
  constructor
  · intro h x hx
    exact digitCount_eq_zero.mp (Nat.le_zero.mp (h ▸ digitCount_le_mostDigits hx))
  · intro h
    exact Nat.le_zero.mp (mostDigits_le fun x hx => Nat.le_of_eq (digitCount_eq_zero.mpr (h x hx)))

/-- The first loop ends with the extreme numbers. -/
theorem extremes_eq (hnum : num ∈ arr) (hfuel : arr.length < fuel) :
    ∃ max min, whileDo (fun s => some (decide (s.1 < arr.length))) (extremesStep arr) fuel (0, num, num) =
        some (arr.length, max, min) ∧ max ∈ arr ∧ min ∈ arr ∧ ∀ x ∈ arr, x ≤ max ∧ min ≤ x := by
  let inv : Nat × Int × Int → Prop := fun s => s.2.1 ∈ arr ∧ s.2.2 ∈ arr ∧
    ∀ i x, i < s.1 → arr[i]? = some x → x ≤ s.2.1 ∧ s.2.2 ≤ x
  have hturn : ∀ s, inv s → s.1 < arr.length → ∃ s', extremesStep arr s = some s' ∧ inv s' ∧ s'.1 = s.1 + 1 := by
    rintro ⟨runner, max, min⟩ ⟨hmax, hmin, hbounds⟩ hlt
    simp only at hmax hmin hbounds hlt
    have hx : arr[runner]? = some arr[runner] := List.getElem?_eq_getElem hlt
    have hmem : arr[runner] ∈ arr := List.getElem_mem hlt
    refine ⟨(runner + 1, if max > arr[runner] then max else arr[runner],
      if min < arr[runner] then min else arr[runner]), ?_, ⟨?_, ?_, fun i x hi hget => ?_⟩, rfl⟩
    · rw [extremesStep, hx]
      rfl
    · show (if max > arr[runner] then max else arr[runner]) ∈ arr
      split
      · exact hmax
      · exact hmem
    · show (if min < arr[runner] then min else arr[runner]) ∈ arr
      split
      · exact hmin
      · exact hmem
    · show x ≤ (if max > arr[runner] then max else arr[runner]) ∧ (if min < arr[runner] then min else arr[runner]) ≤ x
      rcases Nat.lt_succ_iff_lt_or_eq.mp hi with hi | rfl
      · have hle := hbounds i x hi hget
        constructor <;> split <;> omega
      · obtain rfl := Option.some.inj (hx.symm.trans hget)
        constructor <;> split <;> omega
  obtain ⟨⟨runner, max, min⟩, hloop, ⟨hmax, hmin, hbounds⟩, rfl⟩ := whileDo_upTo _ inv (·.1) arr.length hturn
    (s := (0, num, num)) ⟨hnum, hnum, nofun⟩ (Nat.zero_le _) hfuel
  refine ⟨max, min, hloop, hmax, hmin, fun x hx => ?_⟩
  obtain ⟨i, hi, hget⟩ := List.getElem_of_mem hx
  exact hbounds i x hi (List.getElem?_eq_some_iff.mpr ⟨hi, hget⟩)

/-! ## The passes -/

theorem digitsAfter_ne_zero (d : Nat) : digitsAfter d ≠ 0 := by
  induction d with
  | zero => exact Nat.one_ne_zero
  | succ d ih => exact Nat.mul_ne_zero ih (by decide)

/-- The keys of the last pass come first. -/
theorem digitKeys_le (d : Nat) (x y : Int) : digitKeys (d + 1) x ≤ digitKeys (d + 1) y ↔
    getKey x (digitsAfter d) < getKey y (digitsAfter d) ∨
      getKey x (digitsAfter d) = getKey y (digitsAfter d) ∧ digitKeys d x ≤ digitKeys d y := by
  rw [← not_lt, digitKeys, digitKeys, List.cons_lt_cons_iff, not_or, not_and, not_lt]
  constructor
  · rintro ⟨hle, hkeys⟩
    rcases lt_or_eq_of_le hle with hlt | heq
    · exact .inl hlt
    · exact .inr ⟨heq, not_lt.mp (hkeys heq.symm)⟩
  · rintro (hlt | ⟨heq, hkeys⟩)
    · exact ⟨le_of_lt hlt, fun heq => absurd heq.symm (ne_of_lt hlt)⟩
    · exact ⟨le_of_eq heq, fun _ => not_lt.mpr hkeys⟩

/-- One pass. -/
theorem countingSort1_digit (hgrants : ∀ n, grants n = true) (hpos : 0 < ys.length) (hlength : ys.length ≤ 2147483647)
    (hints : ∀ x ∈ ys, -2147483648 ≤ x ∧ x ≤ 2147483647) (hfuel : 2147483648 ≤ fuel) (d : Nat) :
    ∃ zs, countingSort1 grants fuel ys ys.length getKey (digitsAfter d) = some zs ∧
      StableSortBy (getKey · (digitsAfter d)) ys zs := by
  have hdigit := getKey_digit (digitsAfter_ne_zero d)
  refine countingSort1_sorts hgrants hpos hlength hints (fun x _ => ?_) (fun x _ y _ => ?_) hfuel
  · have hx := hdigit x
    omega
  · have hx := hdigit x
    have hy := hdigit y
    omega

/-- **The passes sort by the keys of the digits**, the last pass first. -/
theorem passes_sorts (hgrants : ∀ n, grants n = true) (hpos : 0 < arr.length) (hlength : arr.length ≤ 2147483647)
    (hints : ∀ x ∈ arr, -2147483648 ≤ x ∧ x ≤ 2147483647) (hfuel : 2147483648 ≤ fuel) (hd : d < fuel) :
    ∃ ys k, whileDo (fun s => some (decide (0 < s.2.2))) (radixStep grants fuel arr.length) fuel (arr, 1, d) =
      some (ys, k) ∧ StableSortBy (digitKeys d) arr ys := by
  let inv : List Int × Nat × Nat → Prop := fun s => ∃ ys j left, s = (ys, digitsAfter j, left) ∧ j + left = d ∧
    StableSortBy (digitKeys j) arr ys
  have hturn : ∀ s, inv s → some (decide (0 < s.2.2)) = some false ∨ some (decide (0 < s.2.2)) = some true ∧
      ∃ s', radixStep grants fuel arr.length s = some s' ∧ inv s' ∧ s'.2.2 < s.2.2 := by
    rintro _ ⟨ys, j, left, rfl, hj, hys⟩
    cases left with
    | zero => exact .inl rfl
    | succ left =>
        have hlength' := hys.perm.length_eq
        obtain ⟨zs, hpass, hzs⟩ := countingSort1_digit hgrants (hlength' ▸ hpos) (hlength' ▸ hlength)
          (fun x hx => hints x (hys.perm.mem_iff.mp hx)) hfuel j
        refine .inr ⟨rfl, (zs, digitsAfter (j + 1), left), ?_, ⟨zs, j + 1, left, rfl, by omega, ?_⟩, Nat.lt_succ_self _⟩
        · rw [radixStep, ← hlength', hpass]
          rfl
        · exact hys.trans hzs (digitKeys_le j)
  obtain ⟨_, hloop, ⟨ys, j, left, rfl, hj, hys⟩, hend⟩ := whileDo_ends _ _ inv (·.2.2) hturn (s := (arr, 1, d))
    ⟨arr, 0, d, rfl, Nat.zero_add d, .refl (List.pairwise_of_forall fun _ _ => le_refl _)⟩ hd
  have hleft : ¬ 0 < left := of_decide_eq_false (Option.some.inj hend)
  obtain rfl : j = d := by omega
  exact ⟨ys, _, hloop, hys⟩

/-! ## The sort -/

/-- **`RadixSort` ends**, with a sorted permutation of the array and no access outside of it or of a table. -/
def RadixSorts (grants : Nat → Bool) (arr : List Int) : Prop :=
  ∃ ys, SortOf arr ys ∧ ∃ least, ∀ fuel, least ≤ fuel → radixSort grants fuel arr arr.length = some ys

/-- What is in front of the passes. -/
theorem radixSort_eq (hpos : 0 < arr.length) (hints : ∀ x ∈ arr, -2147483648 ≤ x ∧ x ≤ 2147483647)
    (hfuel : 2147483648 < fuel) (hlength : arr.length < fuel) :
    radixSort grants fuel arr arr.length =
      (whileDo (fun s => some (decide (0 < s.2.2))) (radixStep grants fuel arr.length) fuel
        (arr, 1, mostDigits arr)).map (·.1) := by
  have hnum : arr[0]? = some arr[0] := List.getElem?_eq_getElem hpos
  obtain ⟨max, min, hloop, hmax, hmin, hbounds⟩ := extremes_eq (List.getElem_mem hpos) hlength
  have hmax' := hints max hmax
  have hmin' := hints min hmin
  rw [radixSort, hnum]
  simp only [hloop, getNumOfDigit_eq (show max.natAbs < fuel by omega),
    getNumOfDigit_eq (show min.natAbs < fuel by omega), mostDigits_eq hmax hmin hbounds,
    Option.bind_eq_bind, Option.bind_some]
  cases whileDo (fun s => some (decide (0 < s.2.2))) (radixStep grants fuel arr.length) fuel
    (arr, 1, mostDigits arr) with
  | none => rfl
  | some s => rfl

theorem mostDigits_lt (hints : ∀ x ∈ arr, -2147483648 ≤ x ∧ x ≤ 2147483647) : mostDigits arr ≤ 10 := by
  refine mostDigits_le fun x hx => ?_
  have hx' := hints x hx
  exact (Nat.digits_length_le_iff (by decide) _).mpr (by norm_num; omega)

/-- The sort, with not too many elements. -/
theorem radixSort_sorts (hgrants : ∀ n, grants n = true) (hpos : 0 < arr.length)
    (hints : ∀ x ∈ arr, -2147483648 ≤ x ∧ x ≤ 2147483647) (hlength : arr.length ≤ 2147483647)
    (hfuel : 2147483648 < fuel) :
    ∃ ys, radixSort grants fuel arr arr.length = some ys ∧ StableSortBy (digitKeys (mostDigits arr)) arr ys := by
  have hdigits := mostDigits_lt hints
  obtain ⟨ys, k, hloop, hys⟩ := passes_sorts hgrants hpos hlength hints (show 2147483648 ≤ fuel by omega)
    (show mostDigits arr < fuel by omega)
  refine ⟨ys, ?_, hys⟩
  rw [radixSort_eq hpos hints hfuel (by omega), hloop]
  rfl

/-- Without a pass, the array stays as it is. -/
theorem radixSort_zeros (hpos : 0 < arr.length) (hzeros : ∀ x ∈ arr, x = 0) (hfuel : 2147483648 < fuel)
    (hlength : arr.length < fuel) : radixSort grants fuel arr arr.length = some arr := by
  have hints : ∀ x ∈ arr, -2147483648 ≤ x ∧ x ≤ 2147483647 := fun x hx => by
    have hx' := hzeros x hx
    omega
  obtain ⟨fuel, rfl⟩ := Nat.exists_eq_succ_of_ne_zero (Nat.ne_of_gt (Nat.zero_lt_of_lt hfuel))
  rw [radixSort_eq hpos hints hfuel hlength, mostDigits_eq_zero.mpr hzeros]
  rfl

/-- With too many elements, the first pass fails. -/
theorem radixSort_large (hgrants : ∀ n, grants n = true) (hints : ∀ x ∈ arr, -2147483648 ≤ x ∧ x ≤ 2147483647)
    (hlarge : 2147483647 < arr.length) (hne : ¬ ∀ x ∈ arr, x = 0) (hfuel : 2147483648 < fuel)
    (hlength : arr.length < fuel) : radixSort grants fuel arr arr.length = none := by
  have hdigits : 0 < mostDigits arr := Nat.pos_of_ne_zero (mt mostDigits_eq_zero.mp hne)
  have hstuck : whileDo (fun s => some (decide (0 < s.2.2))) (radixStep grants fuel arr.length) fuel
      (arr, 1, mostDigits arr) = none := by
    refine whileDo_stuck (fun s => s = (arr, 1, mostDigits arr)) ?_ rfl
    rintro _ rfl
    refine .inr ⟨congrArg some (decide_eq_true hdigits), fun s' hs' => ?_⟩
    rw [radixStep, countingSort1_large hgrants Nat.one_ne_zero hlarge hlength] at hs'
    cases hs'
  rw [radixSort_eq (by omega) hints hfuel hlength, hstuck]
  rfl

theorem radixSorts_of_agree (hgrants : ∀ n, grants n = true) (hpos : 1 ≤ arr.length)
    (hints : ∀ x ∈ arr, -2147483648 ≤ x ∧ x ≤ 2147483647) (hlength : arr.length ≤ 2147483647)
    (hagree : DigitsAgree arr) : RadixSorts grants arr := by
  obtain ⟨ys, -, hys⟩ := radixSort_sorts hgrants hpos hints hlength (show 2147483648 < 2147483649 by decide)
  have hsort : SortOf arr ys := ⟨hys.perm, hys.pairwise_iff.mpr hagree⟩
  refine ⟨ys, hsort, 2147483649, fun fuel hfuel => ?_⟩
  obtain ⟨zs, hzs, hys'⟩ := radixSort_sorts hgrants hpos hints hlength (show 2147483648 < fuel by omega)
  rw [hzs, hsort.unique ⟨hys'.perm, hys'.pairwise_iff.mpr hagree⟩]

/-- **`RadixSort` sorts exactly** the arrays of zeros, and those with not too many elements where the keys of the digits
    agree with the order of the numbers. -/
theorem radixSort_iff (hgrants : ∀ n, grants n = true) (hpos : 1 ≤ arr.length)
    (hints : ∀ x ∈ arr, -2147483648 ≤ x ∧ x ≤ 2147483647) :
    RadixSorts grants arr ↔ (∀ x ∈ arr, x = 0) ∨ arr.length ≤ 2147483647 ∧ DigitsAgree arr := by
  constructor
  · rintro ⟨ys, hys, least, hrun⟩
    by_cases hzeros : ∀ x ∈ arr, x = 0
    · exact .inl hzeros
    have hfuel := hrun (max least (arr.length + 2147483649)) (Nat.le_max_left _ _)
    have hlarge : arr.length + 2147483649 ≤ max least (arr.length + 2147483649) := Nat.le_max_right _ _
    rcases Nat.lt_or_ge 2147483647 arr.length with hlength | hlength
    · rw [radixSort_large hgrants hints hlength hzeros (by omega) (by omega)] at hfuel
      cases hfuel
    · obtain ⟨zs, hzs, hsorted⟩ := radixSort_sorts hgrants hpos hints hlength
        (show 2147483648 < max least (arr.length + 2147483649) by omega)
      obtain rfl := Option.some.inj (hfuel.symm.trans hzs)
      exact .inr ⟨hlength, hsorted.pairwise_iff.mp hys.2⟩
  · rintro (hzeros | ⟨hlength, hagree⟩)
    · refine ⟨arr, ⟨List.Perm.refl arr, ?_⟩, arr.length + 2147483649, fun fuel hfuel =>
        radixSort_zeros hpos hzeros (by omega) (by omega)⟩
      exact List.pairwise_of_forall_mem_list fun x hx y hy => by rw [hzeros x hx, hzeros y hy]
    · exact radixSorts_of_agree hgrants hpos hints hlength hagree

theorem radixSort_sample : RadixSorts (fun _ => true) [21, -5, -3] := by
  refine (radixSort_iff (fun _ => rfl) (by decide) (by decide)).mpr (.inr ⟨by decide, ?_⟩)
  have hdigits : mostDigits [21, -5, -3] = 2 := by decide
  rw [DigitsAgree, hdigits]
  decide

/-- The second digit of -3 is less than the one of -15, for the code. -/
theorem radixSort_unsorted : ¬ RadixSorts (fun _ => true) [-15, -3] := by
  rintro ⟨ys, hys, least, hrun⟩
  obtain ⟨zs, hzs, hsorted⟩ := radixSort_sorts (fun _ => rfl) (show 0 < [-15, -3].length by decide) (by decide)
    (by decide) (show 2147483648 < max least 2147483649 by omega)
  obtain rfl := Option.some.inj ((hrun _ (Nat.le_max_left _ _)).symm.trans hzs)
  have hdigits : mostDigits [-15, -3] = 2 := by decide
  have hagree := hsorted.pairwise_iff.mp hys.2
  rw [hdigits] at hagree
  exact absurd hagree (by decide)

/-! ## Numbers that are not negative -/

theorem digitsAfter_eq (d : Nat) : digitsAfter d = 10 ^ d := by
  induction d with
  | zero => rfl
  | succ d ih => rw [digitsAfter, ih, Nat.pow_succ]

/-- The key of such a number is its digit. -/
theorem getKey_natCast {a p : Nat} (ha : a ≤ 2147483647) (hp : p ≠ 0) : getKey a p = (a / p % 10 : Nat) := by
  have hdiv : a / p ≤ a := Nat.div_le_self a p
  rw [getKey, if_neg hp, Int.emod_eq_of_lt (by omega) (by omega), ← Int.natCast_ediv]
  generalize a / p = q at hdiv
  rw [Int.bmod_eq_of_le (by omega) (by omega)]
  rfl

theorem digitKeys_le_iff {a b : Nat} (ha : a ≤ 2147483647) (hb : b ≤ 2147483647) (d : Nat) :
    digitKeys d a ≤ digitKeys d b ↔ a % digitsAfter d ≤ b % digitsAfter d := by
  induction d with
  | zero => exact iff_of_true (le_refl _) (by rw [digitsAfter, Nat.mod_one, Nat.mod_one])
  | succ d ih =>
      have hp := digitsAfter_ne_zero d
      have hposp : 0 < digitsAfter d := Nat.pos_of_ne_zero hp
      have ha' : a % digitsAfter d < digitsAfter d := Nat.mod_lt a hposp
      have hb' : b % digitsAfter d < digitsAfter d := Nat.mod_lt b hposp
      rw [digitKeys_le, getKey_natCast ha hp, getKey_natCast hb hp, ih, digitsAfter, Nat.mod_mul, Nat.mod_mul]
      generalize a / digitsAfter d % 10 = q
      generalize b / digitsAfter d % 10 = q'
      rcases lt_trichotomy q q' with h | rfl | h
      · refine iff_of_true (.inl (Int.ofNat_lt.mpr h)) ?_
        have hmul : digitsAfter d * (q + 1) ≤ digitsAfter d * q' := Nat.mul_le_mul_left _ h
        rw [Nat.mul_succ] at hmul
        omega
      · rw [or_iff_right (lt_irrefl _), and_iff_right rfl, Nat.add_le_add_iff_right]
      · refine iff_of_false (fun hor => ?_) ?_
        · rcases hor with hlt | ⟨heq, -⟩
          · exact absurd (Int.ofNat_lt.mp hlt) (not_lt_of_gt h)
          · exact absurd (Int.ofNat_inj.mp heq) (ne_of_gt h)
        · have hmul : digitsAfter d * (q' + 1) ≤ digitsAfter d * q := Nat.mul_le_mul_left _ h
          rw [Nat.mul_succ] at hmul
          omega

/-- **Numbers that are not negative are sorted.** -/
theorem radixSorts_of_nonneg (hgrants : ∀ n, grants n = true) (hpos : 1 ≤ arr.length)
    (hlength : arr.length ≤ 2147483647) (hnonneg : ∀ x ∈ arr, 0 ≤ x ∧ x ≤ 2147483647) : RadixSorts grants arr := by
  have hints : ∀ x ∈ arr, -2147483648 ≤ x ∧ x ≤ 2147483647 := fun x hx => by
    have hx' := hnonneg x hx
    omega
  have hle : ∀ x ∈ arr, ∀ y ∈ arr, digitKeys (mostDigits arr) x ≤ digitKeys (mostDigits arr) y → x ≤ y := by
    intro x hx y hy hkeys
    have hlt : ∀ z ∈ arr, z.natAbs < digitsAfter (mostDigits arr) := fun z hz => by
      rw [digitsAfter_eq]
      exact (Nat.lt_base_pow_length_digits (by decide)).trans_le
        (Nat.pow_le_pow_right (by decide) (digitCount_le_mostDigits hz))
    have hx' := hlt x hx
    have hy' := hlt y hy
    obtain ⟨a, rfl⟩ := Int.eq_ofNat_of_zero_le (hnonneg x hx).1
    obtain ⟨b, rfl⟩ := Int.eq_ofNat_of_zero_le (hnonneg y hy).1
    rw [Int.natAbs_natCast] at hx' hy'
    rw [digitKeys_le_iff (Int.ofNat_le.mp (hnonneg _ hx).2) (Int.ofNat_le.mp (hnonneg _ hy).2), Nat.mod_eq_of_lt hx',
      Nat.mod_eq_of_lt hy'] at hkeys
    exact Int.ofNat_le.mpr hkeys
  refine radixSorts_of_agree hgrants hpos hints hlength (List.pairwise_of_forall_mem_list fun x hx y hy => ?_)
  exact ⟨hle x hx y hy, fun hlt => hle y hy x hx (le_of_lt hlt)⟩

end Workbench.Sorts
