import Mathlib.Tactic.Ring
import Workbench.Lib.Comparator
import Workbench.Lib.Strided
import Workbench.Lib.While

/-!
# `Sorts.BinarySearch` — `BinarySearchIterative` and `BinarySearchRecursive`

The positions are pointers to bytes, as offsets from the start of the array. Both functions start in the middle, and the
recursive one does so in each half. The loop computes the middle of the part that is left from its end, and takes what
is over half a part away from it twice.

## Main results
* `midOf_even`, `midOf_evenSize`, `midOf_one`, `midOf_misaligned` — where the loop looks next;
* `search_ends`, `search_stuck` — the rules for the loop, with elements in place of bytes;
* `binarySearchRecursive_finds` — the recursive function is right;
* `binarySearch_iff` — when the loop is right too.
-/

namespace Workbench.Sorts

variable {α : Type}

/-! ## The functions -/

/-- The middle of a part of the array, from its end. -/
def midOf (sizeOfElement : Nat) (first last : Int) : Int :=
  last - (last - first) / 2 - (last - first) / 2 % sizeOfElement

/-- The middle of the array. -/
def startMid (numOfElements sizeOfElement : Nat) : Nat :=
  numOfElements * sizeOfElement / 2 - numOfElements * sizeOfElement / 2 % sizeOfElement

/-- The condition of the loop, with `first`, `mid` and `last`. It compares before it looks at the bound. -/
def searchGoes (cmp : Comparator α) (sizeOfElement : Nat) (arr : List α) (data : α) : Int × Int × Int → Option Bool
  | (first, mid, _) => do
      let x ← elementAt sizeOfElement arr mid
      return decide (cmp.compare x data ≠ 0) && decide (first < mid)

def searchStep (cmp : Comparator α) (sizeOfElement : Nat) (arr : List α) (data : α) :
    Int × Int × Int → Option (Int × Int × Int)
  | (first, mid, last) => do
      let x ← elementAt sizeOfElement arr mid
      if 0 < cmp.compare x data then return (first, midOf sizeOfElement first mid, mid)
      else return (mid, midOf sizeOfElement mid last, last)

def binarySearchIterative (cmp : Comparator α) (fuel : Nat) (arr : List α) (data : α)
    (numOfElements sizeOfElement : Nat) : Option (Option Int) := do
  let (_, mid, _) ← whileDo (searchGoes cmp sizeOfElement arr data) (searchStep cmp sizeOfElement arr data) fuel
    (0, startMid numOfElements sizeOfElement, numOfElements * sizeOfElement)
  let x ← elementAt sizeOfElement arr mid
  return if cmp.compare data x ≠ 0 then none else some mid

/-- `num_of_elements & 1`. -/
def oddNumAdjustment (numOfElements : Nat) : Nat := numOfElements % 2

/-- `start` is where the part begins that `arr` points to. -/
def binarySearchRecursive (cmp : Comparator α) : Nat → List α → Int → α → Nat → Nat → Option (Option Int)
  | 0, _, _, _, _, _ => none
  | fuel + 1, arr, start, data, numOfElements, sizeOfElement => do
      let mid := start + startMid numOfElements sizeOfElement
      let x ← elementAt sizeOfElement arr mid
      if cmp.compare x data = 0 then return some mid
      if numOfElements = 1 then return none
      let half := numOfElements / 2 + oddNumAdjustment numOfElements
      if 0 < cmp.compare x data then binarySearchRecursive cmp fuel arr start data half sizeOfElement
      else binarySearchRecursive cmp fuel arr mid data half sizeOfElement

/-! ## Where the loop looks -/

variable {cmp : Comparator α} {arr : List α} {data x y : α} {size fuel n f m l i j k : Nat}

theorem startMid_eq (hsize : 0 < size) (n : Nat) : startMid n size = n / 2 * size := by
  have hdiv : n * size / 2 / size = n / 2 := by
    rw [Nat.div_div_eq_div_mul, Nat.mul_div_mul_right _ _ hsize]
  have hmod := Nat.div_add_mod (n * size / 2) size
  rw [hdiv, Nat.mul_comm] at hmod
  rw [startMid]
  omega

/-- An even number of elements. -/
theorem midOf_even (h : l = f + 2 * j) : midOf size (f * size) (l * size) = (f + j : Nat) * size := by
  have hspan : (l * size - f * size : Int) = 2 * (j * size) := by
    subst h
    push_cast
    ring
  rw [midOf, hspan, Int.mul_ediv_cancel_left _ (by decide), Int.mul_emod_left, Int.sub_zero]
  subst h
  push_cast
  ring

/-- With an odd number, what is over is half an element, and is taken away twice. -/
theorem midOf_odd (h : l = f + 2 * j + 1) :
    midOf size (f * size) (l * size) = (f + j + 1 : Nat) * size - size / 2 - size / 2 % size := by
  have hspan : (l * size - f * size : Int) = 2 * (j * size) + size := by
    subst h
    push_cast
    ring
  have hhalf : (2 * (j * size) + size : Int) / 2 = size / 2 + j * size := by
    generalize (j * size : Int) = p
    omega
  have hlast : (l * size : Int) = (f + j + 1 : Nat) * size + j * size := by
    subst h
    push_cast
    ring
  rw [midOf, hspan, hhalf, Int.add_mul_emod_self_right, hlast]
  omega

/-- Elements of an even number of bytes. -/
theorem midOf_evenSize (hsize : 0 < size) (heven : size % 2 = 0) (hlt : f < l) :
    midOf size (f * size) (l * size) = (f + (l - f) / 2 : Nat) * size := by
  rcases Nat.mod_two_eq_zero_or_one (l - f) with hk | hk
  · exact midOf_even (by omega)
  · rw [midOf_odd (j := (l - f) / 2) (by omega), Int.emod_eq_of_lt (by omega) (by omega), Int.natCast_succ, Int.add_mul]
    omega

/-- Elements of one byte. -/
theorem midOf_one (hle : f ≤ l) : midOf 1 (f * (1 : Nat)) (l * (1 : Nat)) = (l - (l - f) / 2 : Nat) * (1 : Nat) := by
  rw [Int.natCast_one, Int.mul_one, Int.mul_one, Int.mul_one, midOf, Int.natCast_one, Int.emod_one]
  omega

/-- Elements of another odd number of bytes: one byte behind the start of an element. -/
theorem midOf_misaligned (hodd : size % 2 = 1) (hne : size ≠ 1) (hk : (l - f) % 2 = 1) :
    ¬ (size : Int) ∣ midOf size (f * size) (l * size) := by
  rw [midOf_odd (j := (l - f) / 2) (by omega), Int.emod_eq_of_lt (by omega) (by omega)]
  intro hdvd
  have hone : (size : Int) ∣ 1 - size := by
    have hsub := Int.dvd_sub hdvd (Dvd.intro_left ((f + (l - f) / 2 + 1 : Nat) : Int) rfl)
    rwa [show ((f + (l - f) / 2 + 1 : Nat) * size - size / 2 - size / 2 - (f + (l - f) / 2 + 1 : Nat) * size : Int) =
      1 - size by omega] at hsub
  have hle := Int.le_of_dvd (by decide) ((Int.dvd_iff_dvd_of_dvd_sub hone).mpr (Int.dvd_refl _))
  omega

/-! ## The rules for the loop -/

/-- The element is equal to the key. -/
def Hit (cmp : Comparator α) (arr : List α) (data : α) (i : Nat) : Prop :=
  ∃ x, arr[i]? = some x ∧ cmp.compare x data = 0

theorem Hit.lt (h : Hit cmp arr data i) : i < arr.length := by
  obtain ⟨x, hx, -⟩ := h
  exact (List.getElem?_eq_some_iff.mp hx).1

theorem Hit.compare (h : Hit cmp arr data i) (hx : arr[i]? = some x) : cmp.compare x data = 0 := by
  obtain ⟨y, hy, hzero⟩ := h
  rwa [Option.some.inj (hx.symm.trans hy)]

theorem searchGoes_mul (hsize : 0 < size) (hx : arr[m]? = some x) (last : Int) :
    searchGoes cmp size arr data (f * size, m * size, last) = some (decide (cmp.compare x data ≠ 0 ∧ f < m)) := by
  rw [searchGoes, elementAt_mul hsize, hx]
  show some (decide (cmp.compare x data ≠ 0) && decide ((f * size : Int) < m * size)) = _
  rw [Bool.decide_and, decide_eq_decide.mpr ((mul_size_lt hsize).trans Int.ofNat_lt)]

theorem searchStep_mul (hsize : 0 < size) (hx : arr[m]? = some x) (first last : Int) :
    searchStep cmp size arr data (first, m * size, last) =
      some (if 0 < cmp.compare x data then (first, midOf size first (m * size), (m : Int) * size)
        else ((m : Int) * size, midOf size (m * size) last, last)) := by
  rw [searchStep, elementAt_mul hsize, hx]
  by_cases hpos : 0 < cmp.compare x data
  · rw [if_pos hpos]
    exact if_pos hpos
  · rw [if_neg hpos]
    exact if_neg hpos

/-- **The loop ends**, at the key or with the middle at the start of the part. -/
theorem search_ends (hsize : 0 < size) (inv : Nat → Nat → Nat → Prop)
    (hinside : ∀ f m l, inv f m l → m < arr.length)
    (hleft : ∀ f m l x, inv f m l → f < m → arr[m]? = some x → 0 < cmp.compare x data →
      ∃ m' : Nat, midOf size (f * size) (m * size) = m' * size ∧ inv f m' m ∧ m - f < l - f)
    (hright : ∀ f m l x, inv f m l → f < m → arr[m]? = some x → cmp.compare x data < 0 →
      ∃ m' : Nat, midOf size (m * size) (l * size) = m' * size ∧ inv m m' l ∧ l - m < l - f)
    (hinv : inv f m l) (hfuel : l - f < fuel) :
    ∃ f' m' l' : Nat, ∃ x, whileDo (searchGoes cmp size arr data) (searchStep cmp size arr data) fuel
        (f * size, m * size, l * size) = some ((f' : Int) * size, (m' : Int) * size, (l' : Int) * size) ∧
      inv f' m' l' ∧ arr[m']? = some x ∧ (cmp.compare x data = 0 ∨ m' ≤ f') := by
  let inv' : Int × Int × Int → Prop := fun s =>
    ∃ f m l : Nat, s = ((f : Int) * size, (m : Int) * size, (l : Int) * size) ∧ inv f m l
  let measure : Int × Int × Int → Nat := fun s => elementIndex size s.2.2 - elementIndex size s.1
  have hturn : ∀ s, inv' s → searchGoes cmp size arr data s = some false ∨ searchGoes cmp size arr data s = some true ∧
      ∃ s', searchStep cmp size arr data s = some s' ∧ inv' s' ∧ measure s' < measure s := by
    rintro _ ⟨f, m, l, rfl, h⟩
    obtain ⟨x, hx⟩ : ∃ x, arr[m]? = some x := ⟨_, List.getElem?_eq_getElem (hinside f m l h)⟩
    rw [searchGoes_mul hsize hx, searchStep_mul hsize hx]
    by_cases hgoes : cmp.compare x data ≠ 0 ∧ f < m
    · refine .inr ⟨by rw [decide_eq_true hgoes], ?_⟩
      by_cases hpos : 0 < cmp.compare x data
      · obtain ⟨m', hmid, h', hless⟩ := hleft f m l _ h hgoes.2 hx hpos
        refine ⟨_, by rw [if_pos hpos, hmid], ⟨f, m', m, rfl, h'⟩, ?_⟩
        simpa only [measure, elementIndex_mul hsize] using hless
      · obtain ⟨m', hmid, h', hless⟩ := hright f m l _ h hgoes.2 hx (by omega)
        refine ⟨_, by rw [if_neg hpos, hmid], ⟨m, m', l, rfl, h'⟩, ?_⟩
        simpa only [measure, elementIndex_mul hsize] using hless
    · exact .inl (by rw [decide_eq_false hgoes])
  have hmeasure : measure ((f : Int) * size, (m : Int) * size, (l : Int) * size) < fuel := by
    simpa only [measure, elementIndex_mul hsize] using hfuel
  obtain ⟨_, hloop, ⟨f', m', l', rfl, h⟩, hend⟩ := whileDo_ends _ _ inv' measure hturn ⟨f, m, l, rfl, hinv⟩ hmeasure
  obtain ⟨x, hx⟩ : ∃ x, arr[m']? = some x := ⟨_, List.getElem?_eq_getElem (hinside f' m' l' h)⟩
  rw [searchGoes_mul hsize hx] at hend
  have hnot := of_decide_eq_false (Option.some.inj hend)
  refine ⟨f', m', l', _, hloop, h, hx, ?_⟩
  by_cases hzero : cmp.compare x data = 0
  · exact .inl hzero
  · exact .inr (Nat.not_lt.mp fun hlt => hnot ⟨hzero, hlt⟩)

/-- **The loop leaves the elements or goes on for ever.** -/
theorem search_stuck (hsize : 0 < size) (inv : Nat → Nat → Nat → Prop)
    (hgoes : ∀ f m l, inv f m l → f < m ∧ ¬ Hit cmp arr data m)
    (hleft : ∀ f m l x, inv f m l → arr[m]? = some x → 0 < cmp.compare x data →
      ¬ (size : Int) ∣ midOf size (f * size) (m * size) ∨
        ∃ m' : Nat, midOf size (f * size) (m * size) = m' * size ∧ inv f m' m)
    (hright : ∀ f m l x, inv f m l → arr[m]? = some x → cmp.compare x data < 0 →
      ¬ (size : Int) ∣ midOf size (m * size) (l * size) ∨
        ∃ m' : Nat, midOf size (m * size) (l * size) = m' * size ∧ inv m m' l)
    (hinv : inv f m l) :
    whileDo (searchGoes cmp size arr data) (searchStep cmp size arr data) fuel (f * size, m * size, l * size) =
      none := by
  refine whileDo_stuck (fun s => ¬ (size : Int) ∣ s.2.1 ∨
    ∃ f m l : Nat, s = ((f : Int) * size, (m : Int) * size, (l : Int) * size) ∧ inv f m l) ?_
    (.inr ⟨f, m, l, rfl, hinv⟩)
  rintro ⟨first, mid, last⟩ (hout | ⟨f, m, l, heq, h⟩)
  · refine .inl ?_
    rw [searchGoes, elementAt_eq_none hout]
    rfl
  · cases heq
    cases hx : arr[m]? with
    | none =>
        refine .inl ?_
        rw [searchGoes, elementAt_mul hsize, hx]
        rfl
    | some x =>
        obtain ⟨hlt, hmiss⟩ := hgoes f m l h
        have hne : cmp.compare x data ≠ 0 := fun hzero => hmiss ⟨x, hx, hzero⟩
        rw [searchGoes_mul hsize hx, searchStep_mul hsize hx]
        refine .inr ⟨by rw [decide_eq_true ⟨hne, hlt⟩], fun s' hs' => ?_⟩
        obtain rfl := Option.some.inj hs'
        by_cases hpos : 0 < cmp.compare x data
        · rw [if_pos hpos]
          exact (hleft f m l x h hx hpos).imp id fun ⟨m', hmid, h'⟩ => ⟨f, m', m, by rw [hmid], h'⟩
        · rw [if_neg hpos]
          exact (hright f m l x h hx (by omega)).imp id fun ⟨m', hmid, h'⟩ => ⟨m, m', l, by rw [hmid], h'⟩

/-! ## What a search has to give -/

/-- **The result is right**: nowhere, and no element is equal to the key, or at an element that is. -/
def Finds (cmp : Comparator α) (arr : List α) (data : α) (size : Nat) : Option Int → Prop
  | none => ∀ x ∈ arr, cmp.compare x data ≠ 0
  | some p => ∃ x, elementAt size arr p = some x ∧ cmp.compare x data = 0

/-- In order. -/
def InOrder (cmp : Comparator α) (arr : List α) : Prop := arr.Pairwise fun x y => cmp.compare x y ≤ 0

theorem finds_none (h : ∀ i, ¬ Hit cmp arr data i) : Finds cmp arr data size none := by
  intro x hx hzero
  obtain ⟨i, hi⟩ := List.mem_iff_getElem?.mp hx
  exact h i ⟨x, hi, hzero⟩

theorem finds_some (hsize : 0 < size) (hx : arr[i]? = some x) (hzero : cmp.compare x data = 0) :
    Finds cmp arr data size (some (i * size)) := ⟨x, by rw [elementAt_mul hsize, hx], hzero⟩

theorem InOrder.nonpos (h : InOrder cmp arr) (hij : i ≤ j) (hx : arr[i]? = some x) (hy : arr[j]? = some y) :
    cmp.compare x y ≤ 0 := by
  obtain ⟨hi, rfl⟩ := List.getElem?_eq_some_iff.mp hx
  obtain ⟨hj, rfl⟩ := List.getElem?_eq_some_iff.mp hy
  rcases Nat.lt_or_eq_of_le hij with hlt | rfl
  · exact List.pairwise_iff_getElem.mp h i j hi hj hlt
  · exact Int.le_of_eq (cmp.self _)

/-- The key is in front of an element that is greater. -/
theorem InOrder.lt_of_pos (h : InOrder cmp arr) (hx : arr[m]? = some x) (hpos : 0 < cmp.compare x data)
    (hhit : Hit cmp arr data i) : i < m := by
  obtain ⟨y, hy, hzero⟩ := hhit
  by_contra hle
  have hxy := h.nonpos (Nat.not_lt.mp hle) hx hy
  have hxd := cmp.nonpos_trans hxy (Int.le_of_eq hzero)
  omega

/-- The key is behind an element that is less. -/
theorem InOrder.lt_of_neg (h : InOrder cmp arr) (hx : arr[m]? = some x) (hneg : cmp.compare x data < 0)
    (hhit : Hit cmp arr data i) : m < i := by
  obtain ⟨y, hy, hzero⟩ := hhit
  by_contra hle
  have hyx := h.nonpos (Nat.not_lt.mp hle) hy hx
  have hdy := (cmp.zero_iff.mp hzero).2
  have hdx := cmp.nonpos_trans hdy hyx
  have hswap := cmp.swap data x
  omega

/-! ## The recursive function -/

/-- **The recursive function is right** about a part that has all elements equal to the key. -/
theorem binarySearchRecursive_part (hsize : 0 < size) (h : InOrder cmp arr) (hk : 1 ≤ k) (hle : f + k ≤ arr.length)
    (hhits : ∀ i, Hit cmp arr data i → f ≤ i ∧ i < f + k) (hfuel : k ≤ fuel) :
    ∃ r, binarySearchRecursive cmp fuel arr (f * size) data k size = some r ∧ Finds cmp arr data size r := by
  induction fuel generalizing f k with
  | zero => omega
  | succ fuel ih =>
      have hx : arr[f + k / 2]? = some arr[f + k / 2] := List.getElem?_eq_getElem (by omega)
      have hmid : (f * size : Int) + startMid k size = (f + k / 2 : Nat) * size := by
        rw [startMid_eq hsize]
        push_cast
        ring
      have hstep : binarySearchRecursive cmp (fuel + 1) arr (f * size) data k size =
          if cmp.compare arr[f + k / 2] data = 0 then some (some ((f + k / 2 : Nat) * size : Int))
          else if k = 1 then some none
          else if 0 < cmp.compare arr[f + k / 2] data then
            binarySearchRecursive cmp fuel arr (f * size) data (k / 2 + k % 2) size
          else binarySearchRecursive cmp fuel arr ((f + k / 2 : Nat) * size) data (k / 2 + k % 2) size := by
        rw [binarySearchRecursive, hmid, elementAt_mul hsize, hx]
        show (if cmp.compare arr[f + k / 2] data = 0 then _ else _) = _
        split
        · rfl
        · split <;> rfl
      rw [hstep]
      by_cases hzero : cmp.compare arr[f + k / 2] data = 0
      · rw [if_pos hzero]
        exact ⟨_, rfl, finds_some hsize hx hzero⟩
      rw [if_neg hzero]
      by_cases hone : k = 1
      · rw [if_pos hone]
        refine ⟨none, rfl, finds_none fun i hi => ?_⟩
        have hbounds := hhits i hi
        obtain rfl : i = f + k / 2 := by omega
        exact hzero (hi.compare hx)
      rw [if_neg hone]
      by_cases hpos : 0 < cmp.compare arr[f + k / 2] data
      · rw [if_pos hpos]
        refine ih (by omega) (by omega) (fun i hi => ?_) (by omega)
        have hbounds := hhits i hi
        have hlt := h.lt_of_pos hx hpos hi
        omega
      · rw [if_neg hpos]
        refine ih (by omega) (by omega) (fun i hi => ?_) (by omega)
        have hbounds := hhits i hi
        have hlt := h.lt_of_neg hx (by omega) hi
        omega

/-- **The search ends with the right result.** -/
def EndsRight (cmp : Comparator α) (arr : List α) (data : α) (size : Nat) (run : Nat → Option (Option Int)) : Prop :=
  ∃ least, ∀ fuel, least ≤ fuel → ∃ r, run fuel = some r ∧ Finds cmp arr data size r

theorem binarySearchRecursive_finds (hsize : 0 < size) (h : InOrder cmp arr) (hpos : 0 < arr.length) (data : α) :
    EndsRight cmp arr data size fun fuel => binarySearchRecursive cmp fuel arr 0 data arr.length size := by
  refine ⟨arr.length, fun fuel hfuel => ?_⟩
  have hpart := binarySearchRecursive_part hsize h (f := 0) hpos (Nat.le_of_eq (Nat.zero_add _))
    (fun i (hi : Hit cmp arr data i) => ⟨Nat.zero_le i, (Nat.zero_add arr.length).symm ▸ hi.lt⟩) hfuel
  rwa [Int.natCast_zero, Int.zero_mul] at hpart

/-! ## The loop where it is right -/

/-- The start of the loop. -/
theorem binarySearchIterative_eq (hsize : 0 < size) (n : Nat) :
    binarySearchIterative cmp fuel arr data n size =
      (whileDo (searchGoes cmp size arr data) (searchStep cmp size arr data) fuel
        ((0 : Nat) * size, (n / 2 : Nat) * size, n * size)).bind fun s => (elementAt size arr s.2.1).bind fun x =>
          some (if cmp.compare data x ≠ 0 then none else some s.2.1) := by
  rw [binarySearchIterative, startMid_eq hsize, Int.natCast_mul, Int.natCast_zero, Int.zero_mul]
  rfl

/-- A search that ends at the key, or without the key. -/
theorem iterative_finds (hsize : 0 < size)
    (hends : ∃ f' m' l' : Nat, ∃ x, whileDo (searchGoes cmp size arr data) (searchStep cmp size arr data) fuel
        ((0 : Nat) * size, (arr.length / 2 : Nat) * size, arr.length * size) =
          some ((f' : Int) * size, (m' : Int) * size, (l' : Int) * size) ∧
      arr[m']? = some x ∧ (cmp.compare x data = 0 ∨ ∀ i, ¬ Hit cmp arr data i)) :
    ∃ r, binarySearchIterative cmp fuel arr data arr.length size = some r ∧ Finds cmp arr data size r := by
  obtain ⟨f', m', l', x, hloop, hx, hor⟩ := hends
  have hzero : cmp.compare data x = 0 ↔ cmp.compare x data = 0 := by
    have hswap := cmp.swap data x
    have hswap' := cmp.swap x data
    omega
  refine ⟨if cmp.compare data x ≠ 0 then none else some (m' * size), ?_, ?_⟩
  · rw [binarySearchIterative_eq hsize, hloop]
    show (elementAt size arr (m' * size)).bind _ = _
    rw [elementAt_mul hsize, hx]
    rfl
  · by_cases heq : cmp.compare x data = 0
    · rw [if_neg (not_not_intro (hzero.mpr heq))]
      exact finds_some hsize hx heq
    · rw [if_pos (mt hzero.mp heq)]
      exact finds_none (hor.resolve_left heq)

/-- One element. -/
theorem iterative_single (hsize : 0 < size) (hone : arr.length = 1) :
    EndsRight cmp arr data size fun fuel => binarySearchIterative cmp fuel arr data arr.length size := by
  refine ⟨2, fun fuel hfuel => iterative_finds hsize ?_⟩
  let inv : Nat → Nat → Nat → Prop := fun f m _ => f = 0 ∧ m = 0
  have hinside : ∀ f m l, inv f m l → m < arr.length := by
    rintro f m l ⟨-, rfl⟩
    omega
  have hnever : ∀ f m l, inv f m l → ¬ f < m := by
    rintro f m l ⟨rfl, rfl⟩
    exact Nat.lt_irrefl 0
  obtain ⟨f', m', l', x, hloop, ⟨rfl, rfl⟩, hx, hor⟩ := search_ends hsize inv hinside
    (fun f m l x h hlt _ (_ : 0 < cmp.compare x data) => absurd hlt (hnever f m l h))
    (fun f m l x h hlt _ _ => absurd hlt (hnever f m l h)) (f := 0) (m := 0) (l := 1) ⟨rfl, rfl⟩
    (show 1 - 0 < fuel by omega)
  rw [hone]
  refine ⟨0, 0, l', x, hloop, hx, ?_⟩
  by_cases hzero : cmp.compare x data = 0
  · exact .inl hzero
  · refine .inr fun i hi => hzero ?_
    have hlt := hi.lt
    obtain rfl : i = 0 := by omega
    exact hi.compare hx

/-- **Elements of an even number of bytes.** -/
theorem iterative_even (hsize : 0 < size) (heven : size % 2 = 0) (h : InOrder cmp arr) (hpos : 0 < arr.length) :
    EndsRight cmp arr data size fun fuel => binarySearchIterative cmp fuel arr data arr.length size := by
  refine ⟨arr.length + 1, fun fuel hfuel => iterative_finds hsize ?_⟩
  -- all elements that are equal to the key are in the part
  let inv : Nat → Nat → Nat → Prop := fun f m l => f < l ∧ l ≤ arr.length ∧ m = f + (l - f) / 2 ∧
    ∀ i, Hit cmp arr data i → f ≤ i ∧ i < l
  have hleft : ∀ f m l x, inv f m l → f < m → arr[m]? = some x → 0 < cmp.compare x data →
      ∃ m' : Nat, midOf size (f * size) (m * size) = m' * size ∧ inv f m' m ∧ m - f < l - f := by
    rintro f m l x ⟨hfl, hl, hm, hhits⟩ hfm hx hpos
    refine ⟨f + (m - f) / 2, midOf_evenSize hsize heven hfm, ⟨hfm, by omega, rfl, fun i hi => ?_⟩, by omega⟩
    exact ⟨(hhits i hi).1, h.lt_of_pos hx hpos hi⟩
  have hright : ∀ f m l x, inv f m l → f < m → arr[m]? = some x → cmp.compare x data < 0 →
      ∃ m' : Nat, midOf size (m * size) (l * size) = m' * size ∧ inv m m' l ∧ l - m < l - f := by
    rintro f m l x ⟨hfl, hl, hm, hhits⟩ hfm hx hneg
    have hml : m < l := by omega
    refine ⟨m + (l - m) / 2, midOf_evenSize hsize heven hml, ⟨hml, hl, rfl, fun i hi => ?_⟩, by omega⟩
    exact ⟨Nat.le_of_lt (h.lt_of_neg hx hneg hi), (hhits i hi).2⟩
  have hstart : inv 0 (arr.length / 2) arr.length :=
    ⟨hpos, Nat.le_refl _, (Nat.zero_add _).symm, fun i hi => ⟨Nat.zero_le i, hi.lt⟩⟩
  obtain ⟨f', m', l', x, hloop, ⟨hfl, hl, hm, hhits⟩, hx, hor⟩ := search_ends hsize inv
    (fun f m l ⟨hfl, hl, hm, _⟩ => by omega) hleft hright hstart (show arr.length - 0 < fuel by omega)
  refine ⟨f', m', l', x, hloop, hx, ?_⟩
  by_cases hzero : cmp.compare x data = 0
  · exact .inl hzero
  · refine .inr fun i hi => hzero ?_
    have hbounds := hhits i hi
    have hle := hor.resolve_left hzero
    obtain rfl : i = m' := by omega
    exact hi.compare hx

/-- **Elements of one byte**, with an element behind the first one that is equal to the key. -/
theorem iterative_one (h : InOrder cmp arr) (hi : 1 ≤ i) (hhit : Hit cmp arr data i) :
    EndsRight cmp arr data 1 fun fuel => binarySearchIterative cmp fuel arr data arr.length 1 := by
  have hlt := hhit.lt
  have hsize : 0 < 1 := Nat.one_pos
  refine ⟨arr.length + 1, fun fuel hfuel => iterative_finds hsize ?_⟩
  let inv : Nat → Nat → Nat → Prop := fun f m l => (f < m ∧ m < l ∧ l ≤ arr.length) ∧ f < i ∧ i < l
  have hleft : ∀ f m l x, inv f m l → f < m → arr[m]? = some x → 0 < cmp.compare x data →
      ∃ m' : Nat, midOf 1 (f * (1 : Nat)) (m * (1 : Nat)) = m' * (1 : Nat) ∧ inv f m' m ∧ m - f < l - f := by
    rintro f m l x ⟨⟨hfm, hml, hl⟩, hfi, hil⟩ - hx hpos
    have him := h.lt_of_pos hx hpos hhit
    exact ⟨_, midOf_one (by omega), ⟨by omega, hfi, him⟩, by omega⟩
  have hright : ∀ f m l x, inv f m l → f < m → arr[m]? = some x → cmp.compare x data < 0 →
      ∃ m' : Nat, midOf 1 (m * (1 : Nat)) (l * (1 : Nat)) = m' * (1 : Nat) ∧ inv m m' l ∧ l - m < l - f := by
    rintro f m l x ⟨⟨hfm, hml, hl⟩, hfi, hil⟩ - hx hneg
    have hmi := h.lt_of_neg hx hneg hhit
    exact ⟨_, midOf_one (by omega), ⟨by omega, hmi, hil⟩, by omega⟩
  have hstart : inv 0 (arr.length / 2) arr.length := ⟨by omega, hi, hlt⟩
  obtain ⟨f', m', l', x, hloop, ⟨⟨hfm, -, -⟩, -⟩, hx, hor⟩ := search_ends hsize inv
    (fun f m l ⟨⟨_, hml, hl⟩, _⟩ => by omega) hleft hright hstart (show arr.length - 0 < fuel by omega)
  exact ⟨f', m', l', x, hloop, hx, .inl (hor.resolve_right (by omega))⟩

/-- **Where a part is halved** that many elements are in from `f` on, as long as their number is even. -/
inductive Halved : Nat → Nat → Nat → Prop
  | middle {f k j : Nat} (hk : k = 2 * j) (hj : 0 < j) : Halved f k (f + j)
  | front {f k j i : Nat} (hk : k = 2 * j) (h : Halved f j i) : Halved f k i
  | back {f k j i : Nat} (hk : k = 2 * j) (h : Halved (f + j) j i) : Halved f k i

/-- The middle of the array, and where its two parts are halved. -/
def Probed (n i : Nat) : Prop := i = n / 2 ∨ Halved 0 (n / 2) i ∨ Halved (n / 2) (n - n / 2) i

theorem Halved.inside (h : Halved f k i) : f < i ∧ i < f + k := by
  induction h with
  | middle hk hj => omega
  | front hk _ ih => omega
  | back hk _ ih => omega

/-- **Elements of any number of bytes**, with an element that is equal to the key where a part is halved. -/
theorem iterative_probed (hsize : 0 < size) (h : InOrder cmp arr) (hlength : 2 ≤ arr.length) (hi : Probed arr.length i)
    (hhit : Hit cmp arr data i) :
    EndsRight cmp arr data size fun fuel => binarySearchIterative cmp fuel arr data arr.length size := by
  refine ⟨arr.length + 1, fun fuel hfuel => iterative_finds hsize ?_⟩
  let inv : Nat → Nat → Nat → Prop := fun f m l => (f < m ∧ m < l ∧ l ≤ arr.length) ∧
    (i = m ∨ Halved f (m - f) i ∨ Halved m (l - m) i)
  -- the middle of a part of `2 * j` elements
  have hnext : ∀ f l, f < l → l ≤ arr.length → Halved f (l - f) i →
      ∃ m' : Nat, midOf size (f * size) (l * size) = m' * size ∧ inv f m' l := by
    intro f l hfl hl hhalved
    cases hhalved with
    | @middle _ _ j hk hj => exact ⟨f + j, midOf_even (by omega), by omega, .inl rfl⟩
    | @front _ _ j _ hk hrest =>
        exact ⟨f + j, midOf_even (by omega), by omega, .inr (.inl (by rwa [Nat.add_sub_cancel_left]))⟩
    | @back _ _ j _ hk hrest =>
        exact ⟨f + j, midOf_even (by omega), by omega, .inr (.inr (by rwa [show l - (f + j) = j by omega]))⟩
  have hleft : ∀ f m l x, inv f m l → f < m → arr[m]? = some x → 0 < cmp.compare x data →
      ∃ m' : Nat, midOf size (f * size) (m * size) = m' * size ∧ inv f m' m ∧ m - f < l - f := by
    rintro f m l x ⟨⟨hfm, hml, hl⟩, hor⟩ - hx hpos
    have him := h.lt_of_pos hx hpos hhit
    have hhalved : Halved f (m - f) i := by
      rcases hor with rfl | hfront | hback
      · exact absurd him (Nat.lt_irrefl _)
      · exact hfront
      · exact absurd him (by have hinside := hback.inside; omega)
    obtain ⟨m', hmid, h'⟩ := hnext f m hfm (by omega) hhalved
    exact ⟨m', hmid, h', by omega⟩
  have hright : ∀ f m l x, inv f m l → f < m → arr[m]? = some x → cmp.compare x data < 0 →
      ∃ m' : Nat, midOf size (m * size) (l * size) = m' * size ∧ inv m m' l ∧ l - m < l - f := by
    rintro f m l x ⟨⟨hfm, hml, hl⟩, hor⟩ - hx hneg
    have hmi := h.lt_of_neg hx hneg hhit
    have hhalved : Halved m (l - m) i := by
      rcases hor with rfl | hfront | hback
      · exact absurd hmi (Nat.lt_irrefl _)
      · exact absurd hmi (by have hinside := hfront.inside; omega)
      · exact hback
    obtain ⟨m', hmid, h'⟩ := hnext m l hml hl hhalved
    exact ⟨m', hmid, h', by omega⟩
  have hstart : inv 0 (arr.length / 2) arr.length := ⟨by omega, hi⟩
  obtain ⟨f', m', l', x, hloop, ⟨⟨hfm, -, -⟩, -⟩, hx, hor⟩ := search_ends hsize inv
    (fun f m l ⟨⟨_, hml, hl⟩, _⟩ => by omega) hleft hright hstart (show arr.length - 0 < fuel by omega)
  exact ⟨f', m', l', x, hloop, hx, .inl (hor.resolve_right (by omega))⟩

/-! ## The loop where it is wrong -/

/-- A loop that does not end with a result. -/
theorem not_endsRight (hsize : 0 < size)
    (hstuck : ∀ fuel, whileDo (searchGoes cmp size arr data) (searchStep cmp size arr data) fuel
      ((0 : Nat) * size, (arr.length / 2 : Nat) * size, arr.length * size) = none) :
    ¬ EndsRight cmp arr data size fun fuel => binarySearchIterative cmp fuel arr data arr.length size := by
  rintro ⟨least, hrun⟩
  obtain ⟨r, hr, -⟩ := hrun least (Nat.le_refl least)
  have hsome : binarySearchIterative cmp least arr data arr.length size = some r := hr
  rw [binarySearchIterative_eq hsize, hstuck] at hsome
  cases hsome

/-- **Elements of one byte**: the loop stays in front of an element that is greater, or leaves the array. -/
theorem iterative_one_stuck (hlength : 2 ≤ arr.length) (hmiss : ∀ i, 1 ≤ i → ¬ Hit cmp arr data i) :
    ¬ EndsRight cmp arr data 1 fun fuel => binarySearchIterative cmp fuel arr data arr.length 1 := by
  refine not_endsRight Nat.one_pos fun fuel => ?_
  let inv : Nat → Nat → Nat → Prop := fun f m l => (f < m ∧ m ≤ l) ∧
    (l < arr.length → ∃ y, arr[l]? = some y ∧ 0 < cmp.compare y data)
  have hstart : inv 0 (arr.length / 2) arr.length := ⟨by omega, fun hlt => absurd hlt (Nat.lt_irrefl _)⟩
  refine search_stuck Nat.one_pos inv (fun f m l ⟨⟨hfm, _⟩, _⟩ => ⟨hfm, hmiss m (by omega)⟩) ?_ ?_ hstart
  · rintro f m l x ⟨⟨hfm, hml⟩, -⟩ hx hpos
    exact .inr ⟨_, midOf_one (by omega), by omega, fun _ => ⟨x, hx, hpos⟩⟩
  · rintro f m l x ⟨⟨hfm, hml⟩, hlast⟩ hx hneg
    have hne : m ≠ l := by
      rintro rfl
      obtain ⟨y, hy, hpos⟩ := hlast (List.getElem?_eq_some_iff.mp hx).1
      rw [Option.some.inj (hy.symm.trans hx)] at hpos
      omega
    exact .inr ⟨_, midOf_one hml, by omega, hlast⟩

/-- **Elements of another odd number of bytes**: the loop leaves the starts of the elements. -/
theorem iterative_odd_stuck (hodd : size % 2 = 1) (hne : size ≠ 1) (hlength : 2 ≤ arr.length)
    (hmiss : ∀ i, Probed arr.length i → ¬ Hit cmp arr data i) :
    ¬ EndsRight cmp arr data size fun fuel => binarySearchIterative cmp fuel arr data arr.length size := by
  have hsize : 0 < size := by omega
  refine not_endsRight hsize fun fuel => ?_
  let misses : Nat → Nat → Prop := fun f k => ∀ i, Halved f k i → ¬ Hit cmp arr data i
  let inv : Nat → Nat → Nat → Prop := fun f m l => (f < m ∧ m < l) ∧ ¬ Hit cmp arr data m ∧ misses f (m - f) ∧
    misses m (l - m)
  -- the middle of a part, with an even number of elements or an odd one
  have hnext : ∀ f l, f < l → misses f (l - f) → ¬ (size : Int) ∣ midOf size (f * size) (l * size) ∨
      ∃ m' : Nat, midOf size (f * size) (l * size) = m' * size ∧ inv f m' l := by
    intro f l hfl hmisses
    rcases Nat.mod_two_eq_zero_or_one (l - f) with hk | hk
    · obtain ⟨j, hj⟩ : ∃ j, l - f = 2 * j := ⟨(l - f) / 2, by omega⟩
      refine .inr ⟨f + j, midOf_even (by omega), by omega, hmisses _ (.middle hj (by omega)), fun i hi => ?_,
        fun i hi => ?_⟩
      · rw [Nat.add_sub_cancel_left] at hi
        exact hmisses i (.front hj hi)
      · rw [show l - (f + j) = j by omega] at hi
        exact hmisses i (.back hj hi)
    · exact .inl (midOf_misaligned hodd hne hk)
  have hstart : inv 0 (arr.length / 2) arr.length :=
    ⟨by omega, hmiss _ (.inl rfl), fun i hi => hmiss i (.inr (.inl hi)), fun i hi => hmiss i (.inr (.inr hi))⟩
  exact search_stuck hsize inv (fun f m l ⟨⟨hfm, _⟩, hm, _, _⟩ => ⟨hfm, hm⟩)
    (fun f m l x ⟨⟨hfm, _⟩, _, hfront, _⟩ _ _ => hnext f m hfm hfront)
    (fun f m l x ⟨⟨_, hml⟩, _, _, hback⟩ _ _ => hnext m l hml hback) hstart

/-! ## Both functions -/

/-- **Where the loop is right**: for elements of an even number of bytes; for one element; and where an element that is
    equal to the key is behind the first one, for elements of one byte, or where a part is halved, for other ones. -/
def LoopReaches (cmp : Comparator α) (arr : List α) (data : α) (size : Nat) : Prop :=
  size % 2 = 0 ∨ arr.length = 1 ∨ (size = 1 ∧ ∃ i, 1 ≤ i ∧ Hit cmp arr data i) ∨
    size ≠ 1 ∧ ∃ i, Probed arr.length i ∧ Hit cmp arr data i

/-- **Both functions end with the right result if and only if** the loop reaches it. -/
theorem binarySearch_iff (h : InOrder cmp arr) (hpos : 1 ≤ arr.length) (hsize : 1 ≤ size) :
    (EndsRight cmp arr data size fun fuel => binarySearchIterative cmp fuel arr data arr.length size) ∧
      (EndsRight cmp arr data size fun fuel => binarySearchRecursive cmp fuel arr 0 data arr.length size) ↔
    LoopReaches cmp arr data size := by
  rw [and_iff_left (binarySearchRecursive_finds hsize h hpos data)]
  constructor
  · intro hends
    by_contra hnot
    obtain ⟨heven, hone, hbyte, hprobed⟩ : size % 2 ≠ 0 ∧ arr.length ≠ 1 ∧
        ¬ (size = 1 ∧ ∃ i, 1 ≤ i ∧ Hit cmp arr data i) ∧
          ¬ (size ≠ 1 ∧ ∃ i, Probed arr.length i ∧ Hit cmp arr data i) := by
      simpa only [LoopReaches, not_or] using hnot
    by_cases hsize1 : size = 1
    · subst hsize1
      exact iterative_one_stuck (by omega) (fun i hi hhit => hbyte ⟨rfl, i, hi, hhit⟩) hends
    · exact iterative_odd_stuck (by omega) hsize1 (by omega) (fun i hi hhit => hprobed ⟨hsize1, i, hi, hhit⟩) hends
  · rintro (heven | hone | ⟨rfl, i, hi, hhit⟩ | ⟨-, i, hi, hhit⟩)
    · exact iterative_even hsize heven h hpos
    · exact iterative_single hsize hone
    · exact iterative_one h hi hhit
    · by_cases hone : arr.length = 1
      · exact iterative_single hsize hone
      · exact iterative_probed hsize h (by omega) hi hhit

/-- Elements of three bytes, with the key where the front half of the array is halved. -/
theorem binarySearch_sample :
    (EndsRight Comparator.byDifference [1, 2, 3, 5] 2 3 fun fuel =>
        binarySearchIterative Comparator.byDifference fuel [1, 2, 3, 5] 2 [1, 2, 3, 5].length 3) ∧
      EndsRight Comparator.byDifference [1, 2, 3, 5] 2 3 fun fuel =>
        binarySearchRecursive Comparator.byDifference fuel [1, 2, 3, 5] 0 2 [1, 2, 3, 5].length 3 :=
  (binarySearch_iff (by rw [InOrder]; decide) (by decide) (by decide)).mpr
    (.inr (.inr (.inr ⟨by decide, 1, .inr (.inl (.middle rfl Nat.one_pos)), 2, rfl, rfl⟩)))

/-- The first one of two elements, of three bytes and of one. -/
theorem binarySearchIterative_misses :
    (¬ EndsRight Comparator.byDifference [1, 2] 1 3 fun fuel =>
        binarySearchIterative Comparator.byDifference fuel [1, 2] 1 [1, 2].length 3) ∧
      ¬ EndsRight Comparator.byDifference [1, 2] 1 1 fun fuel =>
        binarySearchIterative Comparator.byDifference fuel [1, 2] 1 [1, 2].length 1 := by
  have hmiss : ∀ i, 1 ≤ i → ¬ Hit Comparator.byDifference [1, 2] 1 i := by
    rintro i hi ⟨x, hx, hzero⟩
    obtain rfl : i = 1 := Nat.le_antisymm (Nat.le_of_lt_succ (List.getElem?_eq_some_iff.mp hx).1) hi
    obtain rfl := Option.some.inj hx
    exact absurd hzero (by decide)
  refine ⟨iterative_odd_stuck rfl (by decide) (Nat.le_refl 2) fun i hi => hmiss i ?_,
    iterative_one_stuck (Nat.le_refl 2) hmiss⟩
  -- neither part of one element is halved
  rcases hi with rfl | hfront | hback
  · exact Nat.le_refl 1
  · exact hfront.inside.1
  · exact Nat.le_of_lt hback.inside.1

end Workbench.Sorts
