import Workbench.Lib.StableSort
import Workbench.Lib.Strided
import Workbench.Lib.While

/-!
# `Sorts.Counting` — `CountingSort1` and `GetKey`

The keys are counted in a table, which then has the places where the elements of each key end, and the elements go to
their places from the back. An `int` that overflows fails, and so does an access outside of the array or of the table.

## Main results
* `gather_spans` — the first loop, with the buffer and the extreme keys;
* `countStep_eq`, `sumStep_eq`, `placeStep_places` — a turn of each one of the others;
* `countingSort1_sorts` — the sort is stable.
-/

namespace Workbench.Sorts

/-! ## The functions -/

/-- The value of an expression of type `int`, which overflows outside of the range. -/
def intValue (v : Int) : Option Int := if -2147483648 ≤ v ∧ v ≤ 2147483647 then some v else none

/-- The division is one of `size_t`, and what it gives becomes an `int` again. -/
def getKey (num : Int) (param : Nat) : Int :=
  if param = 0 then num
  else (Int.bmod (num % 18446744073709551616 / param) 4294967296).tmod 10

/-- The body of the first loop, with `runner`, the buffer, `max` and `min`. -/
def gatherStep (key : Int → Nat → Int) (param : Nat) (arr : List Int) :
    Nat × List Int × Int × Int → Option (Nat × List Int × Int × Int)
  | (runner, buffer, max, min) => do
      let num ← arr[runner]?
      let buffer ← writeCell buffer runner num
      return (runner + 1, buffer, if max > key num param then max else key num param,
        if min < key num param then min else key num param)

/-- The body of the loop that counts. -/
def countStep (key : Int → Nat → Int) (param : Nat) (arr : List Int) (offset : Int) :
    Nat × List Int → Option (Nat × List Int)
  | (runner, digitArray) => do
      let num ← arr[runner]?
      let index ← intValue (key num param + offset)
      let count ← readCell digitArray index
      let count ← intValue (count + 1)
      let digitArray ← writeCell digitArray index count
      return (runner + 1, digitArray)

/-- The body of the loop that adds the counts up. -/
def sumStep : Nat × List Int → Option (Nat × List Int)
  | (runner, digitArray) => do
      let count ← readCell digitArray runner
      let before ← readCell digitArray (runner - 1)
      let sum ← intValue (count + before)
      let digitArray ← writeCell digitArray runner sum
      return (runner + 1, digitArray)

/-- The body of the loop from the back, with `runner` below 0 at the end. -/
def placeStep (key : Int → Nat → Int) (param : Nat) (buffer : List Int) (offset : Int) :
    Int × List Int × List Int → Option (Int × List Int × List Int)
  | (runner, arr, digitArray) => do
      let num ← readCell buffer runner
      let curr ← intValue (key num param + offset)
      let count ← readCell digitArray curr
      let count ← intValue (count - 1)
      let arr ← writeCell arr count num
      let digitArray ← writeCell digitArray curr count
      return (runner - 1, arr, digitArray)

/-- `grants` says whether `calloc` gives a block for so many ints. -/
def countingSort1 (grants : Nat → Bool) (fuel : Nat) (arr : List Int) (length : Nat) (key : Int → Nat → Int)
    (param : Nat) : Option (List Int) := do
  let num ← arr[0]?
  if grants length then
    let (_, buffer, max, min) ← whileDo (fun s => some (decide (s.1 < length))) (gatherStep key param arr) fuel
      (0, List.replicate length 0, getKey num param, getKey num param)
    let span ← intValue (max - min)
    let size ← intValue (span + 1)
    if grants size.toNat then
      let offset ← intValue (-min)
      let (_, digitArray) ← whileDo (fun s => some (decide (s.1 < length))) (countStep key param arr offset) fuel
        (0, List.replicate size.toNat 0)
      let (_, digitArray) ← whileDo (fun s => some (decide ((s.1 : Int) < max - min + 1))) sumStep fuel (1, digitArray)
      let (_, arr, _) ← whileDo (fun s => some (decide (0 ≤ s.1))) (placeStep key param buffer offset) fuel
        ((length : Int) - 1, arr, digitArray)
      return arr
    else return arr
  else return arr

def countingSort (grants : Nat → Bool) (fuel : Nat) (arr : List Int) (length : Nat) : Option (List Int) :=
  countingSort1 grants fuel arr length getKey 0

/-! ## Values and keys -/

variable {key : Int → Nat → Int} {param fuel i k n : Nat} {arr arr' xs ys buffer : List Int} {x v c min max : Int}

theorem intValue_of_fits (h : -2147483648 ≤ v ∧ v ≤ 2147483647) : intValue v = some v := if_pos h

theorem tmod_ten (v : Int) : -9 ≤ v.tmod 10 ∧ v.tmod 10 ≤ 9 := by
  have hlt := Int.tmod_lt_of_pos v (show 0 < 10 by decide)
  have hgt := Int.tmod_lt_of_pos (-v) (show 0 < 10 by decide)
  rw [Int.neg_tmod] at hgt
  omega

/-- The key of a digit. -/
theorem getKey_digit (hparam : param ≠ 0) (x : Int) : -9 ≤ getKey x param ∧ getKey x param ≤ 9 := by
  rw [getKey, if_neg hparam]
  exact tmod_ten _

/-- The key of an `int` is one. -/
theorem getKey_fits (hx : -2147483648 ≤ x ∧ x ≤ 2147483647) (param : Nat) :
    -2147483648 ≤ getKey x param ∧ getKey x param ≤ 2147483647 := by
  by_cases hparam : param = 0
  · rwa [getKey, if_pos hparam]
  · have hdigit := getKey_digit hparam x
    omega

/-! ## The first loop -/

/-- The least and the greatest key. -/
structure Spans (f : Int → Int) (xs : List Int) (max min : Int) : Prop where
  upper (x : Int) : x ∈ xs → f x ≤ max
  lower (x : Int) : x ∈ xs → min ≤ f x
  max_mem : ∃ x ∈ xs, f x = max
  min_mem : ∃ x ∈ xs, f x = min

/-- The loop has come to `runner`. -/
structure Gathered (f : Int → Int) (arr : List Int) (s : Nat × List Int × Int × Int) : Prop where
  length : s.2.1.length = arr.length
  copied (i : Nat) : i < s.1 → s.2.1[i]? = arr[i]?
  upper (i : Nat) (x : Int) : i < s.1 → arr[i]? = some x → f x ≤ s.2.2.1
  lower (i : Nat) (x : Int) : i < s.1 → arr[i]? = some x → s.2.2.2 ≤ f x
  max_mem : ∃ x ∈ arr, f x = s.2.2.1
  min_mem : ∃ x ∈ arr, f x = s.2.2.2

theorem gatherStep_gathers {s : Nat × List Int × Int × Int} (h : Gathered (key · param) arr s)
    (hlt : s.1 < arr.length) :
    ∃ s', gatherStep key param arr s = some s' ∧ Gathered (key · param) arr s' ∧ s'.1 = s.1 + 1 := by
  obtain ⟨runner, buffer, max, min⟩ := s
  obtain ⟨hlength, hcopied, hupper, hlower, hmax, hmin⟩ := h
  simp only at hlt hlength hcopied hupper hlower hmax hmin
  have hx : arr[runner]? = some arr[runner] := List.getElem?_eq_getElem hlt
  have hmem : arr[runner] ∈ arr := List.getElem_mem hlt
  refine ⟨(runner + 1, buffer.set runner arr[runner],
    if max > key arr[runner] param then max else key arr[runner] param,
    if min < key arr[runner] param then min else key arr[runner] param), ?_, ⟨?_, ?_, ?_, ?_, ?_, ?_⟩, rfl⟩
  · rw [gatherStep, hx]
    show (writeCell buffer runner arr[runner]).bind _ = _
    rw [writeCell_natCast (hlength ▸ hlt)]
    rfl
  · exact List.length_set.trans hlength
  · intro i hi
    rcases Nat.lt_succ_iff_lt_or_eq.mp hi with hi | rfl
    · exact (List.getElem?_set_ne (Nat.ne_of_gt hi)).trans (hcopied i hi)
    · exact (List.getElem?_set_self (hlength ▸ hlt)).trans hx.symm
  · intro i x hi hget
    show key x param ≤ if max > key arr[runner] param then max else key arr[runner] param
    rcases Nat.lt_succ_iff_lt_or_eq.mp hi with hi | rfl
    · have hle := hupper i x hi hget
      split <;> omega
    · obtain rfl := Option.some.inj (hx.symm.trans hget)
      split <;> omega
  · intro i x hi hget
    show (if min < key arr[runner] param then min else key arr[runner] param) ≤ key x param
    rcases Nat.lt_succ_iff_lt_or_eq.mp hi with hi | rfl
    · have hle := hlower i x hi hget
      split <;> omega
    · obtain rfl := Option.some.inj (hx.symm.trans hget)
      split <;> omega
  · show ∃ x ∈ arr, key x param = if max > key arr[runner] param then max else key arr[runner] param
    split
    · exact hmax
    · exact ⟨_, hmem, rfl⟩
  · show ∃ x ∈ arr, key x param = if min < key arr[runner] param then min else key arr[runner] param
    split
    · exact hmin
    · exact ⟨_, hmem, rfl⟩

/-- **The first loop** copies the array, and ends with the extreme keys. -/
theorem gather_spans (key : Int → Nat → Int) (param : Nat) {num : Int} (hnum : num ∈ arr) (hfuel : arr.length < fuel) :
    ∃ max min, whileDo (fun s => some (decide (s.1 < arr.length))) (gatherStep key param arr) fuel
        (0, List.replicate arr.length 0, key num param, key num param) = some (arr.length, arr, max, min) ∧
      Spans (key · param) arr max min := by
  have hstart : Gathered (key · param) arr (0, List.replicate arr.length 0, key num param, key num param) :=
    ⟨List.length_replicate, nofun, nofun, nofun, ⟨num, hnum, rfl⟩, ⟨num, hnum, rfl⟩⟩
  obtain ⟨⟨runner, buffer, max, min⟩, hloop, h, rfl⟩ := whileDo_upTo (gatherStep key param arr) _ (·.1) arr.length
    (fun s hs hlt => gatherStep_gathers hs hlt) hstart (Nat.zero_le _) hfuel
  have hbuffer : buffer = arr := by
    refine List.ext_getElem? fun i => ?_
    rcases Nat.lt_or_ge i arr.length with hi | hi
    · exact h.copied i hi
    · rw [List.getElem?_eq_none hi, List.getElem?_eq_none (Nat.le_trans (Nat.le_of_eq h.length) hi)]
  subst hbuffer
  refine ⟨max, min, hloop, fun x hx => ?_, fun x hx => ?_, h.max_mem, h.min_mem⟩
  · obtain ⟨i, hi, hget⟩ := List.getElem_of_mem hx
    exact h.upper i x hi (List.getElem?_eq_some_iff.mpr ⟨hi, hget⟩)
  · obtain ⟨i, hi, hget⟩ := List.getElem_of_mem hx
    exact h.lower i x hi (List.getElem?_eq_some_iff.mpr ⟨hi, hget⟩)

/-! ## The table -/

/-- A table of so many cells. -/
def table (size : Nat) (f : Nat → Int) : List Int := (List.range size).map f

variable {size left runner : Nat} {f : Nat → Int} {grants : Nat → Bool}

theorem length_table (size : Nat) (f : Nat → Int) : (table size f).length = size := by
  rw [table, List.length_map, List.length_range]

theorem getElem?_table (hk : k < size) (f : Nat → Int) : (table size f)[k]? = some (f k) := by
  rw [table, List.getElem?_map, List.getElem?_range hk]
  rfl

theorem readCell_table (hk : k < size) (f : Nat → Int) : readCell (table size f) k = some (f k) := by
  rw [readCell_natCast, getElem?_table hk]

theorem writeCell_table (hk : k < size) {g : Nat → Int} (heq : g k = v) (hne : ∀ i, i ≠ k → g i = f i) :
    writeCell (table size f) k v = some (table size g) := by
  rw [writeCell_natCast (by rwa [length_table])]
  refine congrArg some (List.ext_getElem? fun i => ?_)
  by_cases hi : i = k
  · subst hi
    rw [List.getElem?_set_self (by rwa [length_table]), getElem?_table hk, heq]
  · rw [List.getElem?_set_ne (Ne.symm hi)]
    rcases Nat.lt_or_ge i size with hlt | hge
    · rw [getElem?_table hlt, getElem?_table hlt, hne i hi]
    · rw [List.getElem?_eq_none (by rwa [length_table]), List.getElem?_eq_none (by rwa [length_table])]

/-- The elements of `xs` by keys. -/
def counts (key : Int → Nat → Int) (param : Nat) (min : Int) (xs : List Int) (k : Nat) : Int :=
  having (key · param) (min + k) xs

/-- Where the elements of each key end, with so many elements of the array left. -/
def ends (key : Int → Nat → Int) (param : Nat) (min : Int) (xs : List Int) (left k : Nat) : Int :=
  below (key · param) (min + k) xs + counts key param min (xs.take left) k

/-- In the middle of adding up. -/
def partSums (key : Int → Nat → Int) (param : Nat) (min : Int) (xs : List Int) (runner k : Nat) : Int :=
  if k < runner then ends key param min xs xs.length k else counts key param min xs k

theorem below_succ (f : Int → Int) (c : Int) (xs : List Int) : below f (c + 1) xs = below f c xs + having f c xs := by
  induction xs with
  | nil => rfl
  | cons x xs ih =>
      rw [below, below, having, List.countP_cons, List.countP_cons, List.countP_cons]
      rw [below, below, having] at ih
      rw [ih]
      rcases lt_trichotomy (f x) c with h | h | h
      · simp [h, show f x < c + 1 by omega, show f x ≠ c by omega]
        omega
      · simp [h]
        omega
      · simp [show ¬ f x < c by omega, show ¬ f x < c + 1 by omega, show f x ≠ c by omega]

theorem below_min {f : Int → Int} (h : ∀ x ∈ xs, min ≤ f x) : below f min xs = 0 := by
  rw [below, List.countP_eq_zero]
  intro x hx hlt
  exact absurd (of_decide_eq_true hlt) (not_lt_of_ge (h x hx))

theorem below_max {f : Int → Int} {max : Int} (h : ∀ x ∈ xs, f x ≤ max) : below f (max + 1) xs = xs.length := by
  rw [below, List.countP_eq_length]
  intro x hx
  exact decide_eq_true (Int.lt_add_one_of_le (h x hx))

/-- Where the elements of the next key start. -/
theorem ends_all (key : Int → Nat → Int) (param : Nat) (min : Int) (xs : List Int) (k : Nat) :
    ends key param min xs xs.length k = below (key · param) (min + (k + 1 : Nat)) xs := by
  rw [ends, counts, List.take_length, show min + ((k + 1 : Nat) : Int) = min + k + 1 by omega, below_succ,
    Int.natCast_add]

theorem counts_take_succ (hx : xs[i]? = some x) (hk : key x param = min + k) :
    counts key param min (xs.take (i + 1)) k = counts key param min (xs.take i) k + 1 ∧
      ∀ l, l ≠ k → counts key param min (xs.take (i + 1)) l = counts key param min (xs.take i) l := by
  constructor
  · rw [counts, counts, having, having, countP_take_succ hx, if_pos (decide_eq_true hk)]
    rfl
  · intro l hl
    rw [counts, counts, having, having, countP_take_succ hx, if_neg, Nat.add_zero]
    rw [decide_eq_true_iff, hk]
    omega

/-- The cell of a key. -/
theorem exists_cell {max : Int} (hspans : Spans (key · param) arr max min) (hsize : (size : Int) = max - min + 1)
    (hx : arr[i]? = some x) : ∃ k, k < size ∧ key x param = min + k := by
  have hmem : x ∈ arr := List.mem_of_getElem? hx
  have hupper : key x param ≤ max := hspans.upper x hmem
  have hlower : min ≤ key x param := hspans.lower x hmem
  refine ⟨(key x param - min).toNat, ?_, ?_⟩ <;> omega

/-! ## A turn of each loop -/

theorem intValue_map {β : Type} (v : Int) (g : Int → Option β) :
    (intValue v).bind g = (intValue v).bind fun _ => g v := by
  cases hv : intValue v with
  | none => rfl
  | some w =>
      rw [intValue, Option.ite_none_right_eq_some] at hv
      rw [Option.some.inj hv.2]
      rfl

/-- One more element with the key. It fails where there are too many. -/
theorem countStep_eq (hx : arr[i]? = some x) (hkey : key x param = min + k) (hk : k < size)
    (hsmall : size ≤ 2147483647) :
    countStep key param arr (-min) (i, table size (counts key param min (arr.take i))) =
      (intValue (counts key param min (arr.take (i + 1)) k)).bind fun _ =>
        some (i + 1, table size (counts key param min (arr.take (i + 1)))) := by
  obtain ⟨hself, hothers⟩ := counts_take_succ hx hkey
  have hindex : intValue (key x param + -min) = some (k : Int) := by
    rw [hkey, show min + (k : Int) + -min = k by omega, intValue_of_fits (by omega)]
  rw [countStep, hx]
  simp only [hindex, Option.bind_eq_bind, Option.bind_some]
  rw [readCell_table hk, Option.bind_some, intValue_map, ← hself]
  refine congrArg (Option.bind _) (funext fun _ => ?_)
  rw [writeCell_table hk rfl hothers]
  rfl

/-- One more cell is added up. -/
theorem sumStep_eq (hi : 1 ≤ i) (hsize : i < size) :
    sumStep (i, table size (partSums key param min arr i)) = (intValue (ends key param min arr arr.length i)).bind
      fun _ => some (i + 1, table size (partSums key param min arr (i + 1))) := by
  have hsum : partSums key param min arr i i + partSums key param min arr i (i - 1) =
      ends key param min arr arr.length i := by
    rw [partSums, partSums, if_neg (Nat.lt_irrefl i), if_pos (by omega), ends_all, Nat.sub_add_cancel hi, ends,
      List.take_length, Int.add_comm]
  have hself : partSums key param min arr (i + 1) i = ends key param min arr arr.length i := if_pos (Nat.lt_succ_self i)
  have hothers : ∀ l, l ≠ i → partSums key param min arr (i + 1) l = partSums key param min arr i l := by
    intro l hl
    exact if_congr (by omega) rfl rfl
  have hbefore : readCell (table size (partSums key param min arr i)) ((i : Int) - 1) =
      some (partSums key param min arr i (i - 1)) := by
    rw [← Int.natCast_pred_of_pos hi, readCell_table (by omega)]
  simp only [sumStep, readCell_table hsize, hbefore, hsum, Option.bind_eq_bind, Option.bind_some]
  rw [intValue_map]
  congr 1
  funext _
  rw [writeCell_table hsize hself hothers]
  rfl

/-- **The elements behind the first `left` ones are in their places**, and the table has the next place of each key. -/
structure PlacedFrom (key : Int → Nat → Int) (param : Nat) (min : Int) (size : Nat) (arr ys : List Int) (left : Nat)
    (s : Int × List Int × List Int) : Prop where
  runner : s.1 = (left : Int) - 1
  length : s.2.1.length = arr.length
  digits : s.2.2 = table size (ends key param min arr left)
  placed (j : Nat) (y : Int) : ys[j]? = some y →
    below (key · param) (key y param) arr + having (key · param) (key y param) (arr.take left) ≤ j → s.2.1[j]? = some y

theorem placeStep_places (hys : StableSortBy (key · param) arr ys) {s : Int × List Int × List Int}
    (h : PlacedFrom key param min size arr ys (left + 1) s) (hx : arr[left]? = some x) (hkey : key x param = min + k)
    (hk : k < size) (hsmall : size ≤ 2147483647) (hlength : arr.length ≤ 2147483647) :
    ∃ s', placeStep key param arr (-min) s = some s' ∧ PlacedFrom key param min size arr ys left s' := by
  obtain ⟨_, arr', _⟩ := s
  obtain ⟨rfl, harr', rfl, hplaced⟩ := h
  simp only at harr' hplaced
  obtain ⟨hself, hothers⟩ := counts_take_succ hx hkey
  have hplace := hys.getElem?_place hx
  rw [hkey] at hplace
  obtain ⟨hlt, -⟩ := List.getElem?_eq_some_iff.mp hplace
  rw [hys.perm.length_eq] at hlt
  generalize hp : below (key · param) (min + k) arr + having (key · param) (min + k) (arr.take left) = p at hplace hlt
  have hnext : ends key param min arr left k = p := by
    rw [ends, counts, ← hp, Int.natCast_add]
  have hends : ends key param min arr (left + 1) k - 1 = p := by
    rw [ends, hself, ← hnext, ends]
    omega
  refine ⟨((left : Int) - 1, arr'.set p x, table size (ends key param min arr left)), ?_, rfl, ?_, rfl, ?_⟩
  · have hindex : intValue (key x param + -min) = some (k : Int) := by
      rw [hkey, show min + (k : Int) + -min = k by omega, intValue_of_fits (by omega)]
    have hcount : intValue p = some (p : Int) := intValue_of_fits (by omega)
    have hcell : writeCell (table size (ends key param min arr (left + 1))) k p =
        some (table size (ends key param min arr left)) :=
      writeCell_table hk hnext fun l hl => by rw [ends, ends, hothers l hl]
    have hrunner : ((left + 1 : Nat) : Int) - 1 = left := by omega
    simp only [placeStep, hrunner, readCell_natCast, hx, hindex, getElem?_table hk, hends, hcount,
      writeCell_natCast (show p < arr'.length by omega), hcell, Option.bind_eq_bind, Option.bind_some]
    rfl
  · exact List.length_set.trans harr'
  · intro j y hy hle
    show (arr'.set p x)[j]? = some y
    by_cases hjp : j = p
    · subst hjp
      rw [List.getElem?_set_self (by omega), ← hplace, hy]
    · rw [List.getElem?_set_ne (Ne.symm hjp)]
      refine hplaced j y hy ?_
      rw [having, countP_take_succ hx, ← having]
      split
      · next heq =>
          rw [← of_decide_eq_true heq, hkey] at hle ⊢
          omega
      · exact hle

/-! ## The loops -/

theorem having_le (f : Int → Int) (c : Int) (xs : List Int) : having f c xs ≤ xs.length := List.countP_le_length

theorem below_le (f : Int → Int) (c : Int) (xs : List Int) : below f c xs ≤ xs.length := List.countP_le_length

/-- The table after `calloc`. -/
theorem replicate_eq_table (key : Int → Nat → Int) (param : Nat) (min : Int) (arr : List Int) (size : Nat) :
    (List.replicate size 0 : List Int) = table size (counts key param min (arr.take 0)) := by
  rw [table, List.take_zero, List.eq_replicate_of_mem (a := 0) (l := (List.range size).map _) fun v hv => ?_]
  · rw [List.length_map, List.length_range]
  · obtain ⟨k, -, rfl⟩ := List.mem_map.mp hv
    rfl

/-- The first cell needs nothing added. -/
theorem counts_eq_partSums {max : Int} (hspans : Spans (key · param) arr max min) (size : Nat) :
    table size (counts key param min arr) = table size (partSums key param min arr 1) := by
  refine List.map_congr_left fun k _ => ?_
  rw [partSums]
  split
  · next hk =>
      obtain rfl : k = 0 := by omega
      rw [ends, List.take_length, Int.natCast_zero, Int.add_zero, below_min hspans.lower, Int.natCast_zero,
        Int.zero_add]
  · rfl

/-- The table has a cell. -/
theorem Spans.size_pos {max : Int} (hspans : Spans (key · param) arr max min) (hsize : (size : Int) = max - min + 1) :
    1 ≤ size := by
  obtain ⟨x, hx, hmax⟩ := hspans.max_mem
  have hlower := hspans.lower x hx
  omega

/-- The condition of the loop over the table. -/
theorem sum_cond {max : Int} (hsize : (size : Int) = max - min + 1) :
    (fun s : Nat × List Int => some (decide ((s.1 : Int) < max - min + 1))) = fun s => some (decide (s.1 < size)) := by
  funext s
  rw [← hsize, decide_eq_decide.mpr Int.ofNat_lt]

/-- **The counts.** -/
theorem count_counts {max : Int} (hspans : Spans (key · param) arr max min) (hsize : (size : Int) = max - min + 1)
    (hsmall : size ≤ 2147483647) (hlength : arr.length ≤ 2147483647) (hfuel : arr.length < fuel) :
    whileDo (fun s => some (decide (s.1 < arr.length))) (countStep key param arr (-min)) fuel
      (0, List.replicate size 0) = some (arr.length, table size (counts key param min arr)) := by
  let inv : Nat × List Int → Prop := fun s => ∃ i, s = (i, table size (counts key param min (arr.take i)))
  have hturn : ∀ s, inv s → s.1 < arr.length →
      ∃ s', countStep key param arr (-min) s = some s' ∧ inv s' ∧ s'.1 = s.1 + 1 := by
    rintro _ ⟨i, rfl⟩ hlt
    have hx : arr[i]? = some arr[i] := List.getElem?_eq_getElem hlt
    obtain ⟨k, hk, hkey⟩ := exists_cell hspans hsize hx
    have hcount := having_le (key · param) (min + k) (arr.take (i + 1))
    have htake := List.length_take_le' (i + 1) arr
    refine ⟨_, (countStep_eq hx hkey hk hsmall).trans ?_, ⟨i + 1, rfl⟩, rfl⟩
    rw [intValue_of_fits (by rw [counts]; omega)]
    rfl
  obtain ⟨_, hloop, ⟨i, rfl⟩, hi⟩ := whileDo_upTo _ inv (·.1) arr.length hturn
    (s := (0, table size (counts key param min (arr.take 0)))) ⟨0, rfl⟩ (Nat.zero_le _) hfuel
  obtain rfl : i = arr.length := hi
  rw [List.take_length] at hloop
  rw [replicate_eq_table, hloop]

/-- **Where the elements of each key end.** -/
theorem sum_ends {max : Int} (hspans : Spans (key · param) arr max min) (hsize : (size : Int) = max - min + 1)
    (hlength : arr.length ≤ 2147483647) (hfuel : size ≤ fuel) :
    whileDo (fun s => some (decide ((s.1 : Int) < max - min + 1))) sumStep fuel
      (1, table size (counts key param min arr)) = some (size, table size (ends key param min arr arr.length)) := by
  have hpos := hspans.size_pos hsize
  rw [counts_eq_partSums hspans, sum_cond hsize]
  let inv : Nat × List Int → Prop := fun s => ∃ i, 1 ≤ i ∧ s = (i, table size (partSums key param min arr i))
  have hturn : ∀ s, inv s → s.1 < size → ∃ s', sumStep s = some s' ∧ inv s' ∧ s'.1 = s.1 + 1 := by
    rintro _ ⟨i, hi, rfl⟩ hlt
    have hsum := below_le (key · param) (min + (i + 1 : Nat)) arr
    refine ⟨_, (sumStep_eq hi hlt).trans ?_, ⟨i + 1, Nat.le_succ_of_le hi, rfl⟩, rfl⟩
    rw [ends_all, intValue_of_fits (by omega)]
    rfl
  obtain ⟨_, hloop, ⟨i, -, rfl⟩, hi⟩ := whileDo_upTo _ inv (·.1) size hturn
    (s := (1, table size (partSums key param min arr 1))) ⟨1, Nat.le_refl 1, rfl⟩ hpos
    (show size - 1 < fuel by omega)
  obtain rfl : i = size := hi
  rw [hloop]
  refine congrArg (fun digits => some (_, digits)) (List.map_congr_left fun k hk => ?_)
  exact if_pos (List.mem_range.mp hk)

/-- **The elements in their places.** -/
theorem place_sorts {max : Int} (hspans : Spans (key · param) arr max min) (hsize : (size : Int) = max - min + 1)
    (hsmall : size ≤ 2147483647) (hlength : arr.length ≤ 2147483647) (hfuel : arr.length < fuel)
    (hys : StableSortBy (key · param) arr ys) :
    ∃ digits, whileDo (fun s => some (decide (0 ≤ s.1))) (placeStep key param arr (-min)) fuel
      ((arr.length : Int) - 1, arr, table size (ends key param min arr arr.length)) = some (-1, ys, digits) := by
  have hstart : PlacedFrom key param min size arr ys arr.length
      ((arr.length : Int) - 1, arr, table size (ends key param min arr arr.length)) := by
    refine ⟨rfl, rfl, rfl, fun j y hy hle => ?_⟩
    rw [List.take_length] at hle
    exact absurd (hys.place_between hy).2 (Nat.not_lt.mpr hle)
  obtain ⟨⟨runner, arr', digits⟩, hloop, ⟨left, hleft, h⟩, hend⟩ := whileDo_ends (fun s => some (decide (0 ≤ s.1)))
    (placeStep key param arr (-min)) (fun s => ∃ left, left ≤ arr.length ∧ PlacedFrom key param min size arr ys left s)
    (fun s => (s.1 + 1).toNat) (by
      rintro s ⟨left, hleft, h⟩
      cases left with
      | zero => exact .inl (congrArg some (decide_eq_false (by rw [h.runner]; omega)))
      | succ left =>
          have hx : arr[left]? = some arr[left] := List.getElem?_eq_getElem hleft
          obtain ⟨k, hk, hkey⟩ := exists_cell hspans hsize hx
          obtain ⟨s', hstep, h'⟩ := placeStep_places hys h hx hkey hk hsmall hlength
          refine .inr ⟨congrArg some (decide_eq_true (by rw [h.runner]; omega)), s', hstep, ⟨left, by omega, h'⟩, ?_⟩
          rw [h.runner, h'.runner]
          omega) ⟨arr.length, Nat.le_refl _, hstart⟩ (by simpa using hfuel)
  obtain rfl : left = 0 := by
    have hrunner := h.runner
    have hnot := of_decide_eq_false (Option.some.inj hend)
    omega
  have harr' : arr' = ys := by
    refine List.ext_getElem? fun j => ?_
    cases hy : ys[j]? with
    | none =>
        rw [List.getElem?_eq_none_iff] at hy ⊢
        exact Nat.le_trans (Nat.le_of_eq (h.length.trans hys.perm.length_eq.symm)) hy
    | some y => exact h.placed j y hy (hys.place_between hy).1
  refine ⟨digits, hloop.trans ?_⟩
  obtain rfl : runner = -1 := h.runner
  rw [harr']

/-! ## The sort -/

/-- The sort behind its first loop, if the size of the table and the offset fit. -/
theorem countingSort1_eq {num max : Int} (hgrants : ∀ n, grants n = true) (hnum : arr[0]? = some num)
    (hgather : whileDo (fun s => some (decide (s.1 < arr.length))) (gatherStep getKey param arr) fuel
      (0, List.replicate arr.length 0, getKey num param, getKey num param) = some (arr.length, arr, max, min))
    (hsize : (size : Int) = max - min + 1) (hsmall : size ≤ 2147483647)
    (hmin : -2147483648 < min ∧ min ≤ 2147483648) :
    countingSort1 grants fuel arr arr.length getKey param =
      (whileDo (fun s => some (decide (s.1 < arr.length))) (countStep getKey param arr (-min)) fuel
        (0, List.replicate size 0)).bind fun s =>
      (whileDo (fun s => some (decide ((s.1 : Int) < max - min + 1))) sumStep fuel (1, s.2)).bind fun s =>
      (whileDo (fun s => some (decide (0 ≤ s.1))) (placeStep getKey param arr (-min)) fuel
        ((arr.length : Int) - 1, arr, s.2)).bind fun s => some s.2.1 := by
  have hspan : intValue (max - min) = some (max - min) := intValue_of_fits (by omega)
  have hsize' : intValue (max - min + 1) = some (size : Int) := by
    rw [← hsize, intValue_of_fits (by omega)]
  have hoffset : intValue (-min) = some (-min) := intValue_of_fits (by omega)
  rw [countingSort1, hnum]
  simp only [hgrants, hgather, hspan, hsize', hoffset, Int.toNat_natCast, Option.bind_eq_bind, Option.bind_some,
    if_true]
  rfl

/-- **`CountingSort1` sorts by the keys**, and leaves elements with one key in their order. -/
theorem countingSort1_sorts (hgrants : ∀ n, grants n = true) (hpos : 0 < arr.length) (hlength : arr.length ≤ 2147483647)
    (hints : ∀ x ∈ arr, -2147483648 ≤ x ∧ x ≤ 2147483647) (hmin : ∀ x ∈ arr, -2147483648 < getKey x param)
    (hspan : ∀ x ∈ arr, ∀ y ∈ arr, getKey y param - getKey x param + 1 ≤ 2147483647) (hfuel : 2147483648 ≤ fuel) :
    ∃ ys, countingSort1 grants fuel arr arr.length getKey param = some ys ∧ StableSortBy (getKey · param) arr ys := by
  obtain ⟨ys, hys⟩ := exists_stableSortBy (getKey · param) arr
  refine ⟨ys, ?_, hys⟩
  have hnum : arr[0]? = some arr[0] := List.getElem?_eq_getElem hpos
  obtain ⟨max, min, hgather, hspans⟩ := gather_spans getKey param (List.getElem_mem hpos)
    (show arr.length < fuel by omega)
  obtain ⟨x, hx, rfl⟩ := hspans.min_mem
  obtain ⟨y, hy, rfl⟩ := hspans.max_mem
  have hle : getKey x param ≤ getKey y param := hspans.lower y hy
  have hspan' := hspan x hx y hy
  have hmin' := hmin x hx
  have hfits := getKey_fits (hints x hx) param
  obtain ⟨size, hsize⟩ : ∃ size : Nat, (size : Int) = getKey y param - getKey x param + 1 :=
    ⟨(getKey y param - getKey x param + 1).toNat, by omega⟩
  obtain ⟨digits, hplace⟩ := place_sorts hspans hsize (by omega) hlength (show arr.length < fuel by omega) hys
  have hcount := count_counts hspans hsize (by omega) hlength (show arr.length < fuel by omega)
  have hsum := sum_ends hspans hsize hlength (show size ≤ fuel by omega)
  rw [countingSort1_eq hgrants hnum hgather hsize (by omega) (by omega), hcount, Option.bind_some, hsum,
    Option.bind_some, hplace]
  rfl

/-- By the second digit, with three elements of one key. -/
theorem countingSort1_sample :
    ∃ ys, countingSort1 (fun _ => true) 2147483648 [35, 31, 12, 38] [35, 31, 12, 38].length getKey 10 = some ys ∧
      StableSortBy (getKey · 10) [35, 31, 12, 38] ys :=
  countingSort1_sorts (fun _ => rfl) (by decide) (by decide) (by decide) (by decide) (by decide) (Nat.le_refl _)

/-! ## Too many elements -/

theorem intValue_eq_some {w : Int} (h : intValue v = some w) : v ≤ 2147483647 := by
  rw [intValue, Option.ite_none_right_eq_some] at h
  exact h.1.2

/-- The cells of the counts have not overflowed. -/
theorem count_le {max : Int} (hspans : Spans (key · param) arr max min) (hsize : (size : Int) = max - min + 1)
    (hsmall : size ≤ 2147483647) {s : Nat × List Int}
    (hloop : whileDo (fun s => some (decide (s.1 < arr.length))) (countStep key param arr (-min)) fuel
      (0, table size (counts key param min (arr.take 0))) = some s) :
    s = (arr.length, table size (counts key param min arr)) ∧ ∀ k < size, counts key param min arr k ≤ 2147483647 := by
  let inv : Nat × List Int → Prop := fun s => ∃ i ≤ arr.length,
    s = (i, table size (counts key param min (arr.take i))) ∧
      ∀ k < size, counts key param min (arr.take i) k ≤ 2147483647
  have hturn : ∀ s s', inv s → some (decide (s.1 < arr.length)) = some true →
      countStep key param arr (-min) s = some s' → inv s' := by
    rintro _ s' ⟨i, hi, rfl, hcounts⟩ hcond hstep
    have hlt : i < arr.length := of_decide_eq_true (Option.some.inj hcond)
    have hx : arr[i]? = some arr[i] := List.getElem?_eq_getElem hlt
    obtain ⟨k, hk, hkey⟩ := exists_cell hspans hsize hx
    rw [countStep_eq hx hkey hk hsmall] at hstep
    obtain ⟨w, hw, hs'⟩ := Option.bind_eq_some_iff.mp hstep
    obtain rfl := Option.some.inj hs'
    refine ⟨i + 1, hlt, rfl, fun l hl => ?_⟩
    by_cases hlk : l = k
    · exact hlk ▸ intValue_eq_some hw
    · exact (counts_take_succ hx hkey).2 l hlk ▸ hcounts l hl
  have hstart : inv (0, table size (counts key param min (arr.take 0))) := by
    refine ⟨0, Nat.zero_le _, rfl, fun k _ => ?_⟩
    exact (show (0 : Int) ≤ 2147483647 by decide)
  obtain ⟨⟨i, hi, rfl, hcounts⟩, hend⟩ := whileDo_keeps inv hturn hstart hloop
  have hnot : ¬ i < arr.length := of_decide_eq_false (Option.some.inj hend)
  obtain rfl : i = arr.length := by omega
  rw [List.take_length] at hcounts ⊢
  exact ⟨rfl, hcounts⟩

/-- The last cell has the number of all elements. -/
theorem length_le_of_sum {max : Int} (hspans : Spans (key · param) arr max min) (hsize : (size : Int) = max - min + 1)
    (hcounts : ∀ k < size, counts key param min arr k ≤ 2147483647) {s : Nat × List Int}
    (hloop : whileDo (fun s => some (decide ((s.1 : Int) < max - min + 1))) sumStep fuel
      (1, table size (counts key param min arr)) = some s) : arr.length ≤ 2147483647 := by
  have hpos := hspans.size_pos hsize
  rw [counts_eq_partSums hspans, sum_cond hsize] at hloop
  let inv : Nat × List Int → Prop := fun s => ∃ i, 1 ≤ i ∧ i ≤ size ∧
    s = (i, table size (partSums key param min arr i)) ∧ ends key param min arr arr.length (i - 1) ≤ 2147483647
  have hturn : ∀ s s', inv s → some (decide (s.1 < size)) = some true → sumStep s = some s' → inv s' := by
    rintro _ s' ⟨i, hi, hi', rfl, -⟩ hcond hstep
    have hlt : i < size := of_decide_eq_true (Option.some.inj hcond)
    rw [sumStep_eq hi hlt] at hstep
    obtain ⟨w, hw, hs'⟩ := Option.bind_eq_some_iff.mp hstep
    exact ⟨i + 1, Nat.le_add_left 1 i, hlt, (Option.some.inj hs').symm, intValue_eq_some hw⟩
  have hstart : inv (1, table size (partSums key param min arr 1)) := by
    refine ⟨1, Nat.le_refl 1, hpos, rfl, ?_⟩
    have hfirst := hcounts 0 hpos
    rwa [ends, List.take_length, Nat.sub_self, Int.natCast_zero, Int.add_zero, below_min hspans.lower, Int.natCast_zero,
      Int.zero_add]
  obtain ⟨⟨i, hi, hi', rfl, hlast⟩, hend⟩ := whileDo_keeps inv hturn hstart hloop
  have hnot : ¬ i < size := of_decide_eq_false (Option.some.inj hend)
  rw [ends_all, Nat.sub_add_cancel hi, show min + (i : Int) = max + 1 by omega, below_max hspans.upper] at hlast
  omega

/-- **With too many elements**, a count overflows. -/
theorem countingSort1_large (hgrants : ∀ n, grants n = true) (hparam : param ≠ 0) (hlarge : 2147483647 < arr.length)
    (hfuel : arr.length < fuel) : countingSort1 grants fuel arr arr.length getKey param = none := by
  have hpos : 0 < arr.length := by omega
  have hnum : arr[0]? = some arr[0] := List.getElem?_eq_getElem hpos
  obtain ⟨max, min, hgather, hspans⟩ := gather_spans getKey param (List.getElem_mem hpos) hfuel
  obtain ⟨x, hx, rfl⟩ := hspans.min_mem
  obtain ⟨y, hy, rfl⟩ := hspans.max_mem
  have hle : getKey x param ≤ getKey y param := hspans.lower y hy
  have hdigit := getKey_digit hparam x
  have hdigit' := getKey_digit hparam y
  obtain ⟨size, hsize⟩ : ∃ size : Nat, (size : Int) = getKey y param - getKey x param + 1 :=
    ⟨(getKey y param - getKey x param + 1).toNat, by omega⟩
  refine Option.eq_none_iff_forall_not_mem.mpr fun zs hzs => ?_
  rw [Option.mem_def, countingSort1_eq hgrants hnum hgather hsize (by omega) (by omega)] at hzs
  obtain ⟨s, hcount, hzs⟩ := Option.bind_eq_some_iff.mp hzs
  rw [replicate_eq_table getKey param (getKey x param) arr] at hcount
  obtain ⟨rfl, hcounts⟩ := count_le hspans hsize (by omega) hcount
  obtain ⟨s, hsum, -⟩ := Option.bind_eq_some_iff.mp hzs
  have hsmall := length_le_of_sum hspans hsize hcounts hsum
  omega

end Workbench.Sorts
