import Workbench.Heap.Heap
import Workbench.Lib.BinaryHeap

/-!
# `Heap.Sifts` — the two loops keep the order

`HeapIfyUp` moves an element toward the root, and `HeapIfyDown` toward the leaves. The comparator decides, and the order
that is kept is any relation with which its decisions on the way agree.

## Main results
* `heapIfyUp_ordered`, `heapIfyDown_ordered` — the loops end, inside of the vector and with a heap in order;
* `heapIfyDown_isSome_iff` — when `HeapIfyDown` ends at all.
-/

namespace Workbench.HeapQueue

open BinaryHeap

variable {α κ : Type}

/-! ## What the functions read and write -/

/-- The heap with other elements. -/
def Heap.withElements (heap : Heap α) (elements : List α) : Heap α :=
  { heap with vector := { heap.vector with elements } }

@[simp] theorem Heap.withElements_elements (heap : Heap α) (xs : List α) :
    (heap.withElements xs).vector.elements = xs := rfl

@[simp] theorem Heap.withElements_withElements (heap : Heap α) (xs ys : List α) :
    (heap.withElements xs).withElements ys = heap.withElements ys := rfl

theorem vectorSize_eq {vector : Vector α} (h : vector.elements.length ≤ 2147483647) :
    vectorSize vector = some vector.elements.length := by
  unfold vectorSize Vector.pointer intMax
  rw [if_pos (by omega)]
  congr 1
  omega

@[simp] theorem vectorGetElement_succ (vector : Vector α) (i : Nat) :
    vectorGetElement vector (i + 1) = vector.elements[i]? := rfl

variable {heap : Heap α} {above : α → α → Prop} {xs zs : List α} {i j k : Nat} {x y data : α}

theorem swapByIndex_eq (hi : xs[i]? = some x) (hj : xs[j]? = some y) :
    swapByIndex (heap.withElements xs) i j = some (heap.withElements ((xs.set i y).set j x)) := by
  obtain ⟨hil, -⟩ := List.getElem?_eq_some_iff.mp hi
  obtain ⟨hjl, -⟩ := List.getElem?_eq_some_iff.mp hj
  have hfirst : 0 < i + 1 ∧ i + 1 ≤ xs.length := ⟨by omega, by omega⟩
  have hsecond : 0 < j + 1 ∧ j + 1 ≤ (xs.set i y).length := ⟨by omega, by rw [List.length_set]; omega⟩
  simp only [swapByIndex, vectorGetElement_succ, Heap.withElements_elements, hi, hj, bind, Option.bind_some,
    vectorSetElement, if_pos hfirst, if_pos hsecond, pure, Nat.add_sub_cancel]
  rfl

/-! ## Up -/

/-- The comparator decides on `data` below `x` as the order does. -/
def Decides (above : α → α → Prop) (cmp : α → α → Int) (x data : α) : Prop :=
  (cmp x data < 0 → above data x) ∧ (¬ cmp x data < 0 → above x data)

/-- Where `data` comes to on the way up from `k`. -/
inductive Climbs (cmp : α → α → Int) (xs : List α) (data : α) (k : Nat) : Nat → Prop
  | start : Climbs cmp xs data k k
  | parent {i p : Nat} {x : α} : Climbs cmp xs data k i → Child p i → xs[p]? = some x → cmp x data < 0 →
      Climbs cmp xs data k p

/-- The comparator decides on the way up from `k` as the order does. -/
def Rises (above : α → α → Prop) (cmp : α → α → Int) (xs : List α) (k : Nat) (data : α) : Prop :=
  ∀ i p x, Climbs cmp xs data k i → Child p i → xs[p]? = some x → Decides above cmp x data

theorem heapIfyUpLoop_ordered (htrans : ∀ x y z, above x y → above y z → above x z)
    (hrises : Rises above heap.compareFunc xs k data) {fuel : Nat} (hfuel : i < fuel) (hperm : zs.Perm xs)
    (hsame : ∀ j, j < i → zs[j]? = xs[j]?) (hi : Climbs heap.compareFunc xs data k i) (hdata : zs[i]? = some data)
    (hbut : OrderedBut above zs i) (hbelow : ∀ c, Child i c → Stands above zs i c) :
    ∃ ys, heapIfyUpLoop data fuel (heap.withElements zs) i (getParent i) = some (heap.withElements ys) ∧
      ys.Perm xs ∧ Ordered above ys := by
  induction fuel generalizing i zs with
  | zero => omega
  | succ fuel ih =>
      unfold heapIfyUpLoop
      by_cases hroot : i = 0
      · subst hroot
        refine ⟨zs, by rw [if_neg (by simp)], hperm, hbut.ordered (fun p hp => ?_) hbelow⟩
        exact absurd hp.lt (Nat.not_lt_zero p)
      · have hparent : getParent i = (i - 1) / 2 := if_neg hroot
        have hchild : Child (getParent i) i := hparent ▸ Child.of_pos (Nat.pos_of_ne_zero hroot)
        have hlt := hchild.lt
        obtain ⟨x, hx⟩ := exists_before hdata hlt
        have hxs : xs[getParent i]? = some x := (hsame _ hlt).symm.trans hx
        obtain ⟨hup, hstay⟩ := hrises i _ x hi hchild hxs
        simp only [if_pos hroot, vectorGetElement_succ, Heap.withElements_elements, hx, bind, Option.bind_some]
        by_cases hcmp : (heap.withElements zs).compareFunc x data < 0
        · have hswap := swapped_set hx hdata
          have hstands : Stands above zs i (getParent i) := by
            intro a b ha hb
            obtain rfl := Option.some.inj (hdata.symm.trans ha)
            obtain rfl := Option.some.inj (hx.symm.trans hb)
            exact hup hcmp
          obtain ⟨hbut', hbelow'⟩ := hbut.up htrans hbelow hchild hx hstands hswap
          -- the elements further up are where they were
          have hsame' : ∀ j, j < getParent i → ((zs.set (getParent i) data).set i x)[j]? = xs[j]? := fun j hj =>
            (hswap.others j hj.ne (hj.trans hlt).ne).trans (hsame j (hj.trans hlt))
          obtain ⟨ys, hloop, hys, hordered⟩ := ih (by omega) (hswap.perm.trans hperm) hsame'
            (.parent hi hchild hxs hcmp) (hswap.left.trans hdata) hbut' hbelow'
          refine ⟨ys, ?_, hys, hordered⟩
          rw [if_pos hcmp, swapByIndex_eq hx hdata]
          exact hloop
        · refine ⟨zs, by rw [if_neg hcmp]; rfl, hperm, hbut.ordered (fun p hp => ?_) hbelow⟩
          obtain rfl := hp.unique hchild
          intro a b ha hb
          obtain rfl := Option.some.inj (hx.symm.trans ha)
          obtain rfl := Option.some.inj (hdata.symm.trans hb)
          exact hstay hcmp

/-- **`HeapIfyUp` ends with a heap in order.** -/
theorem heapIfyUp_ordered (heap : Heap α) (htrans : ∀ x y z, above x y → above y z → above x z)
    (hrises : Rises above heap.compareFunc xs k data) (hk : xs[k]? = some data) (hbut : OrderedBut above xs k)
    (hbelow : ∀ c, Child k c → Stands above xs k c) :
    ∃ ys, heapIfyUp (heap.withElements xs) k data = some (heap.withElements ys) ∧ ys.Perm xs ∧ Ordered above ys :=
  heapIfyUpLoop_ordered htrans hrises (Nat.lt_succ_self k) (List.Perm.refl xs) (fun _ _ => rfl) .start hk hbut hbelow

/-! ## Down -/

/-- The child that `GetBigChild` picks, and without a child the index itself. -/
def bigSon (cmp : α → α → Int) (xs : List α) (k : Nat) : Nat :=
  match xs[2 * k + 1]?, xs[2 * k + 2]? with
  | some x, some y => if 0 < cmp x y then 2 * k + 1 else 2 * k + 2
  | some _, none => 2 * k + 1
  | none, _ => k

theorem getBigChild_eq (h : xs.length ≤ 2147483647) (k : Nat) :
    getBigChild (heap.withElements xs) (2 * k + 1) (2 * k + 2) = some (bigSon heap.compareFunc xs k) := by
  have hsize : vectorSize (heap.withElements xs).vector = some xs.length := vectorSize_eq h
  unfold getBigChild bigSon
  simp only [hsize, bind, Option.bind_some, vectorGetElement_succ, Heap.withElements_elements, pure]
  by_cases h₂ : xs.length ≤ 2 * k + 2
  · rw [if_pos h₂, List.getElem?_eq_none h₂]
    by_cases h₁ : xs.length ≤ 2 * k + 1
    · rw [if_pos h₁, List.getElem?_eq_none h₁]
      exact congrArg some (show (2 * k + 1 - 1) / 2 = k by omega)
    · rw [if_neg h₁, List.getElem?_eq_getElem (Nat.lt_of_not_le h₁)]
  · rw [if_neg h₂, List.getElem?_eq_getElem (Nat.lt_of_not_le h₂),
      List.getElem?_eq_getElem (Nat.lt_of_succ_lt (Nat.lt_of_not_le h₂))]
    rfl

/-- One turn of the loop: the elements at `i` and `j` trade places, or the loop ends. -/
theorem heapIfyDownLoop_turn (hsmall : zs.length ≤ 2147483647) (hdata : zs[i]? = some data) (hx : zs[j]? = some x)
    (fuel : Nat) :
    heapIfyDownLoop data (fuel + 1) (heap.withElements zs) i j =
      if i + 1 < zs.length ∧ 0 < heap.compareFunc x data then
        heapIfyDownLoop data fuel (heap.withElements ((zs.set i x).set j data)) j
          (bigSon heap.compareFunc ((zs.set i x).set j data) j)
      else some (heap.withElements zs) := by
  have hsize : vectorSize (heap.withElements zs).vector = some zs.length := vectorSize_eq hsmall
  have hsmall' : ((zs.set i x).set j data).length ≤ 2147483647 := by
    rwa [List.length_set, List.length_set]
  have hcmp : (heap.withElements zs).compareFunc = heap.compareFunc := rfl
  rw [heapIfyDownLoop]
  simp only [hsize, bind, Option.bind_some, vectorGetElement_succ, Heap.withElements_elements, hx, hcmp]
  by_cases hlast : i + 1 < zs.length
  · by_cases hdown : 0 < heap.compareFunc x data
    · rw [if_pos hlast, if_pos hdown, if_pos ⟨hlast, hdown⟩, swapByIndex_eq hdata hx, Option.bind_some,
        getBigChild_eq hsmall', Option.bind_some]
    · rw [if_pos hlast, if_neg hdown, if_neg fun h => hdown h.2]
      rfl
  · rw [if_neg hlast, if_neg fun h => hlast h.1]
    rfl

theorem bigSon_congr {cmp : α → α → Int} (h : ∀ j, k < j → zs[j]? = xs[j]?) :
    bigSon cmp zs k = bigSon cmp xs k := by
  unfold bigSon
  rw [h _ (by omega), h _ (by omega)]

/-- A leaf, or a child that won against the other one. -/
theorem bigSon_cases (cmp : α → α → Int) (xs : List α) (k : Nat) :
    (xs.length ≤ 2 * k + 1 ∧ bigSon cmp xs k = k) ∨
      ∃ x, Child k (bigSon cmp xs k) ∧ xs[bigSon cmp xs k]? = some x ∧
        ∀ j y, Child k j → j ≠ bigSon cmp xs k → xs[j]? = some y →
          (xs[2 * k + 1]? = some x ∧ xs[2 * k + 2]? = some y ∧ 0 < cmp x y) ∨
            (xs[2 * k + 1]? = some y ∧ xs[2 * k + 2]? = some x ∧ ¬ 0 < cmp y x) := by
  unfold bigSon
  cases h₁ : xs[2 * k + 1]? with
  | none => exact .inl ⟨List.getElem?_eq_none_iff.mp h₁, rfl⟩
  | some x =>
      right
      cases h₂ : xs[2 * k + 2]? with
      | none =>
          refine ⟨x, .inl rfl, h₁, fun j y hj hne hy => ?_⟩
          rcases hj with rfl | rfl
          · exact absurd rfl hne
          · rw [h₂] at hy
            cases hy
      | some y =>
          simp only
          by_cases hcmp : 0 < cmp x y
          · rw [if_pos hcmp]
            refine ⟨x, .inl rfl, h₁, fun j z hj hne hz => .inl ?_⟩
            rcases hj with rfl | rfl
            · exact absurd rfl hne
            · obtain rfl := Option.some.inj (h₂.symm.trans hz)
              exact ⟨rfl, rfl, hcmp⟩
          · rw [if_neg hcmp]
            refine ⟨y, .inr rfl, h₂, fun j z hj hne hz => .inr ?_⟩
            rcases hj with rfl | rfl
            · obtain rfl := Option.some.inj (h₁.symm.trans hz)
              exact ⟨rfl, rfl, hcmp⟩
            · exact absurd rfl hne

/-- Where `data` comes to on the way down from `k`. -/
inductive Descends (cmp : α → α → Int) (xs : List α) (data : α) (k : Nat) : Nat → Prop
  | start : Descends cmp xs data k k
  | son {i : Nat} {x : α} : Descends cmp xs data k i → Child i (bigSon cmp xs i) → xs[bigSon cmp xs i]? = some x →
      0 < cmp x data → Descends cmp xs data k (bigSon cmp xs i)

/-- The first step of the way. -/
theorem Descends.cases_start {cmp : α → α → Int} (h : Descends cmp xs data i j) :
    j = i ∨ ∃ x, Child i (bigSon cmp xs i) ∧ xs[bigSon cmp xs i]? = some x ∧ 0 < cmp x data ∧
      Descends cmp xs data (bigSon cmp xs i) j := by
  induction h with
  | start => exact .inl rfl
  | @son l x _ hchild hx hcmp ih =>
      rcases ih with rfl | ⟨y, hchild', hy, hcmp', hrest⟩
      · exact .inr ⟨x, hchild, hx, hcmp, .start⟩
      · exact .inr ⟨y, hchild', hy, hcmp', hrest.son hchild hx hcmp⟩

theorem Descends.le {cmp : α → α → Int} (h : Descends cmp xs data i j) : i ≤ j := by
  induction h with
  | start => exact le_rfl
  | son _ hchild _ _ ih => exact ih.trans (Nat.le_of_lt hchild.lt)

/-- The loop does not stay at a leaf: a leaf that `data` comes to is the last one of the vector, unless `data` is equal
    to itself. -/
def Halts (cmp : α → α → Int) (xs : List α) (k : Nat) (data : α) : Prop :=
  ∀ i, Descends cmp xs data k i → xs.length ≤ 2 * i + 1 → i + 1 < xs.length → ¬ 0 < cmp data data

/-- The comparator decides on the way down from `k` as the order does, and the loop does not stay at a leaf. -/
structure Sinks (above : α → α → Prop) (cmp : α → α → Int) (xs : List α) (k : Nat) (data : α) : Prop where
  sons (i : Nat) (x y : α) : Descends cmp xs data k i → xs[2 * i + 1]? = some x → xs[2 * i + 2]? = some y →
    (0 < cmp x y → above x y) ∧ (¬ 0 < cmp x y → above y x)
  child (i : Nat) (x : α) : Descends cmp xs data k i → Child i (bigSon cmp xs i) → xs[bigSon cmp xs i]? = some x →
    (0 < cmp x data → above x data) ∧ (¬ 0 < cmp x data → above data x)
  halts : Halts cmp xs k data

/-- The big child stands above the other one. -/
theorem Sinks.other {cmp : α → α → Int} (h : Sinks above cmp xs k data) (hi : Descends cmp xs data k i)
    (hx : xs[bigSon cmp xs i]? = some x) (hchild : Child i j) (hne : j ≠ bigSon cmp xs i) (hy : xs[j]? = some y) :
    above x y := by
  rcases bigSon_cases cmp xs i with ⟨hleaf, -⟩ | ⟨z, hson, hz, hwon⟩
  · have hj := (List.getElem?_eq_some_iff.mp hy).1
    rcases hchild with rfl | rfl <;> omega
  · obtain rfl := Option.some.inj (hx.symm.trans hz)
    rcases hwon j y hchild hne hy with ⟨h₁, h₂, hcmp⟩ | ⟨h₁, h₂, hcmp⟩
    · exact (h.sons i x y hi h₁ h₂).1 hcmp
    · exact (h.sons i y x hi h₁ h₂).2 hcmp

theorem heapIfyDownLoop_ordered (htrans : ∀ x y z, above x y → above y z → above x z)
    (hsmall : xs.length ≤ 2147483647) (hsinks : Sinks above heap.compareFunc xs k data)
    {fuel : Nat} (hfuel : xs.length < fuel + i) (hperm : zs.Perm xs) (hsame : ∀ j, i < j → zs[j]? = xs[j]?)
    (hi : Descends heap.compareFunc xs data k i) (hdata : zs[i]? = some data) (hbut : OrderedBut above zs i)
    (habove : ∀ p, Child p i → Stands above zs p i) :
    ∃ ys, heapIfyDownLoop data fuel (heap.withElements zs) i (bigSon heap.compareFunc zs i) =
        some (heap.withElements ys) ∧ ys.Perm xs ∧ Ordered above ys := by
  induction fuel generalizing i zs with
  | zero =>
      have hlt := (List.getElem?_eq_some_iff.mp hdata).1
      have hlength := hperm.length_eq
      omega
  | succ fuel ih =>
      have hlength := hperm.length_eq
      have hsmall' : zs.length ≤ 2147483647 := by rwa [hlength]
      have hlt := (List.getElem?_eq_some_iff.mp hdata).1
      rw [bigSon_congr hsame]
      rcases bigSon_cases heap.compareFunc xs i with ⟨hleaf, hself⟩ | ⟨x, hchild, hx, -⟩
      · -- at a leaf, `data` is compared with itself
        have hordered : Ordered above zs := by
          refine hbut.ordered habove fun c hc y z _ hz => ?_
          have hclt := (List.getElem?_eq_some_iff.mp hz).1
          rcases hc with rfl | rfl <;> omega
        refine ⟨zs, ?_, hperm, hordered⟩
        rw [hself, heapIfyDownLoop_turn hsmall' hdata hdata]
        refine if_neg fun h => ?_
        rw [hlength] at h
        exact hsinks.halts i hi hleaf h.1 h.2
      · have hclt := hchild.lt
        have hzx : zs[bigSon heap.compareFunc xs i]? = some x := (hsame _ hclt).trans hx
        have hxlt := (List.getElem?_eq_some_iff.mp hzx).1
        obtain ⟨hdown, hstay⟩ := hsinks.child i x hi hchild hx
        have hother : ∀ j, Child i j → j ≠ bigSon heap.compareFunc xs i →
            Stands above zs (bigSon heap.compareFunc xs i) j := by
          intro j hj hne y z hy hz
          obtain rfl := Option.some.inj (hzx.symm.trans hy)
          exact hsinks.other hi hx hj hne ((hsame j hj.lt).symm.trans hz)
        rw [heapIfyDownLoop_turn hsmall' hdata hzx]
        by_cases hcmp : 0 < heap.compareFunc x data
        · have hswap := swapped_set hdata hzx
          have hstands : Stands above zs (bigSon heap.compareFunc xs i) i := by
            intro y z hy hz
            obtain rfl := Option.some.inj (hzx.symm.trans hy)
            obtain rfl := Option.some.inj (hdata.symm.trans hz)
            exact hdown hcmp
          obtain ⟨hbut', habove'⟩ := hbut.down hchild hstands hother hswap
          have hsame' : ∀ j, bigSon heap.compareFunc xs i < j →
              ((zs.set i x).set (bigSon heap.compareFunc xs i) data)[j]? = xs[j]? := fun j hj =>
            (hswap.others j (hclt.trans hj).ne' hj.ne').trans (hsame j (hclt.trans hj))
          rw [if_pos ⟨by omega, hcmp⟩]
          exact ih (by omega) (hswap.perm.trans hperm) hsame' (.son hi hchild hx hcmp) (hswap.right.trans hdata)
            hbut' habove'
        · refine ⟨zs, if_neg fun h => hcmp h.2, hperm, hbut.ordered habove fun j hj => ?_⟩
          have hson : Stands above zs i (bigSon heap.compareFunc xs i) := by
            intro y z hy hz
            obtain rfl := Option.some.inj (hdata.symm.trans hy)
            obtain rfl := Option.some.inj (hzx.symm.trans hz)
            exact hstay hcmp
          by_cases hne : j = bigSon heap.compareFunc xs i
          · subst hne
            exact hson
          · exact hson.trans htrans (hother j hj hne) hzx

/-- **`HeapIfyDown` ends with a heap in order.** -/
theorem heapIfyDown_ordered (heap : Heap α) (htrans : ∀ x y z, above x y → above y z → above x z)
    (hsmall : xs.length ≤ 2147483647) (hsinks : Sinks above heap.compareFunc xs k data) (hk : xs[k]? = some data)
    (hbut : OrderedBut above xs k) (habove : ∀ p, Child p k → Stands above xs p k) :
    ∃ ys, heapIfyDown (heap.withElements xs) k data = some (heap.withElements ys) ∧ ys.Perm xs ∧
      Ordered above ys := by
  obtain ⟨ys, hloop, hperm, hordered⟩ := heapIfyDownLoop_ordered htrans hsmall hsinks
    (show xs.length < xs.length + 1 + k by omega) (List.Perm.refl xs) (fun _ _ => rfl) .start hk hbut habove
  refine ⟨ys, ?_, hperm, hordered⟩
  unfold heapIfyDown
  rw [getBigChild_eq hsmall, Option.bind_eq_bind, Option.bind_some]
  exact hloop

/-- **At a leaf the loop stays**: it ends after some number of turns only if `data` comes to no such leaf. -/
theorem heapIfyDownLoop_halts (hsmall : xs.length ≤ 2147483647) {fuel : Nat} {heap' : Heap α}
    (hlength : zs.length = xs.length) (hsame : ∀ j, i < j → zs[j]? = xs[j]?) (hdata : zs[i]? = some data)
    (h : heapIfyDownLoop data fuel (heap.withElements zs) i (bigSon heap.compareFunc zs i) = some heap') :
    Halts heap.compareFunc xs i data := by
  induction fuel generalizing i zs with
  | zero => cases h
  | succ fuel ih =>
      intro j hj hleaf hlast
      have hij := hj.le
      have hsmall' : zs.length ≤ 2147483647 := by rwa [hlength]
      rcases hj.cases_start with rfl | ⟨x, hchild, hx, hcmp, hrest⟩
      · -- `data` trades places with itself
        intro hself
        have hson : bigSon heap.compareFunc zs j = j := by
          rcases bigSon_cases heap.compareFunc zs j with ⟨-, hson⟩ | ⟨x, hchild, hx, -⟩
          · exact hson
          · have hlt := (List.getElem?_eq_some_iff.mp hx).1
            rcases hchild with hchild | hchild <;> omega
        have hset : (zs.set j data).set j data = zs := by
          obtain ⟨hlt, rfl⟩ := List.getElem?_eq_some_iff.mp hdata
          rw [List.set_set, List.set_getElem_self]
        rw [hson, heapIfyDownLoop_turn hsmall' hdata hdata, if_pos ⟨by omega, hself⟩, hset] at h
        exact ih hlength hsame hdata h j .start hleaf hlast hself
      · rw [← bigSon_congr hsame] at hchild hx hrest
        have hlt := hchild.lt
        have hzx : zs[bigSon heap.compareFunc zs i]? = some x := (hsame _ hlt).trans hx
        have hswap := swapped_set hdata hzx
        rw [heapIfyDownLoop_turn hsmall' hdata hzx, if_pos ⟨by omega, hcmp⟩] at h
        refine ih (hswap.length.trans hlength) (fun l hl => ?_) (hswap.right.trans hdata) h j hrest hleaf hlast
        exact (hswap.others l (hlt.trans hl).ne' hl.ne').trans (hsame l (hlt.trans hl))

/-- **When `HeapIfyDown` ends.** -/
theorem heapIfyDown_isSome_iff (heap : Heap α) (hsmall : xs.length ≤ 2147483647) (hk : xs[k]? = some data) :
    (heapIfyDown (heap.withElements xs) k data).isSome ↔ Halts heap.compareFunc xs k data := by
  constructor
  · intro h
    obtain ⟨heap', hdown⟩ := Option.isSome_iff_exists.mp h
    unfold heapIfyDown at hdown
    rw [getBigChild_eq hsmall, Option.bind_eq_bind, Option.bind_some] at hdown
    exact heapIfyDownLoop_halts hsmall rfl (fun _ _ => rfl) hk hdown
  · intro hhalts
    -- that it ends does not depend on an order
    have hany : ∀ p c, Stands (fun _ _ : α => True) xs p c := fun _ _ _ _ _ _ => trivial
    have hsinks : Sinks (fun _ _ => True) heap.compareFunc xs k data :=
      ⟨fun _ _ _ _ _ _ => ⟨fun _ => trivial, fun _ => trivial⟩, fun _ _ _ _ _ => ⟨fun _ => trivial, fun _ => trivial⟩,
        hhalts⟩
    obtain ⟨ys, hdown, -⟩ := heapIfyDown_ordered heap (fun _ _ _ _ _ => trivial) hsmall hsinks hk
      ⟨fun _ _ _ _ _ => hany _ _, fun _ _ _ _ => hany _ _⟩ (fun _ _ => hany _ _)
    rw [hdown]
    rfl

end Workbench.HeapQueue
