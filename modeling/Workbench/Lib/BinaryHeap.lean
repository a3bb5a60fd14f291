import Mathlib.Data.List.Perm.Basic
import Mathlib.Order.Nat
import Mathlib.Tactic.Common

/-!
# `Lib.BinaryHeap` — binary heaps in lists

The children of the index `k` are `2 * k + 1` and `2 * k + 2`, and each element may stand above its children. While an
element is moved, the order has a hole: everything is in order but what touches one index.

## Main results
* `OrderedBut.up`, `OrderedBut.down` — a swap moves the hole to the parent, or to a child;
* `OrderedBut.ordered` — what closes the hole;
* `Ordered.root` — the root may stand above all.
-/

namespace Workbench.BinaryHeap

/-- `c` is a child of `k`. -/
def Child (k c : Nat) : Prop := c = 2 * k + 1 ∨ c = 2 * k + 2

namespace Child

variable {k p q c : Nat}

theorem lt (h : Child k c) : k < c := by
  unfold Child at h
  omega

theorem parent (h : Child k c) : (c - 1) / 2 = k := by
  unfold Child at h
  omega

theorem of_pos (h : 0 < c) : Child ((c - 1) / 2) c := by
  unfold Child
  omega

theorem unique (hp : Child p c) (hq : Child q c) : p = q := hp.parent.symm.trans hq.parent

end Child

/-- The elements at two indices trade places. -/
structure Swapped {α : Type} (xs : List α) (i j : Nat) (ys : List α) : Prop where
  left : ys[i]? = xs[j]?
  right : ys[j]? = xs[i]?
  others (k : Nat) : k ≠ i → k ≠ j → ys[k]? = xs[k]?
  perm : ys.Perm xs

section Heaps

variable {α : Type} {above : α → α → Prop} {xs ys : List α} {i j k p c : Nat} {x y : α}

theorem swapped_set (hi : xs[i]? = some x) (hj : xs[j]? = some y) : Swapped xs i j ((xs.set i y).set j x) := by
  obtain ⟨hil, rfl⟩ := List.getElem?_eq_some_iff.mp hi
  obtain ⟨hjl, rfl⟩ := List.getElem?_eq_some_iff.mp hj
  refine ⟨?_, ?_, ?_, List.set_set_perm hil hjl⟩
  · by_cases heq : j = i
    · subst heq
      rw [List.getElem?_set_self (by rwa [List.length_set]), hj]
    · rw [List.getElem?_set_ne heq, List.getElem?_set_self hil, hj]
  · rw [List.getElem?_set_self (by rwa [List.length_set]), hi]
  · intro k hki hkj
    rw [List.getElem?_set_ne (Ne.symm hkj), List.getElem?_set_ne (Ne.symm hki)]

theorem Swapped.length (h : Swapped xs i j ys) : ys.length = xs.length := h.perm.length_eq

/-- What is at `i`, if anything, may stand above what is at `j`. -/
def Stands (above : α → α → Prop) (xs : List α) (i j : Nat) : Prop :=
  ∀ x y, xs[i]? = some x → xs[j]? = some y → above x y

theorem Stands.congr (h : Stands above xs i j) (hi : ys[p]? = xs[i]?) (hj : ys[k]? = xs[j]?) :
    Stands above ys p k := by
  intro x y hx hy
  exact h x y (hi ▸ hx) (hj ▸ hy)

/-- With something between the two. -/
theorem Stands.trans (htrans : ∀ x y z, above x y → above y z → above x z) (hip : Stands above xs i p)
    (hpj : Stands above xs p j) (hp : xs[p]? = some x) : Stands above xs i j :=
  fun y z hy hz => htrans y x z (hip y x hy hp) (hpj x z hp hz)

/-- **The order of a heap.** -/
def Ordered (above : α → α → Prop) (xs : List α) : Prop := ∀ p c, Child p c → Stands above xs p c

/-- The order with a hole at `k`. -/
structure OrderedBut (above : α → α → Prop) (xs : List α) (k : Nat) : Prop where
  others (p c : Nat) : Child p c → p ≠ k → c ≠ k → Stands above xs p c
  around (p c : Nat) : Child p k → Child k c → Stands above xs p c

/-- In front of what is there, something is there. -/
theorem exists_before (h : xs[j]? = some y) (hij : i < j) : ∃ x, xs[i]? = some x := by
  obtain ⟨hj, -⟩ := List.getElem?_eq_some_iff.mp h
  exact ⟨_, List.getElem?_eq_getElem (hij.trans hj)⟩

/-- A change at one index leaves a hole there. -/
theorem Ordered.changed (htrans : ∀ x y z, above x y → above y z → above x z) (h : Ordered above xs)
    (hothers : ∀ i x, i ≠ k → ys[i]? = some x → xs[i]? = some x) : OrderedBut above ys k := by
  refine ⟨fun p c hpc hp hc x y hx hy => ?_, fun p c hp hc x y hx hy => ?_⟩
  · exact h p c hpc x y (hothers p x hp hx) (hothers c y hc hy)
  · have hy' := hothers c y hc.lt.ne' hy
    obtain ⟨z, hz⟩ := exists_before hy' hc.lt
    exact htrans x z y (h p k hp x z (hothers p x hp.lt.ne hx) hz) (h k c hc z y hz hy')

/-- **The hole is closed** by an element in order with its parent and its children. -/
theorem OrderedBut.ordered (h : OrderedBut above xs k) (habove : ∀ p, Child p k → Stands above xs p k)
    (hbelow : ∀ c, Child k c → Stands above xs k c) : Ordered above xs := by
  intro p c hpc
  by_cases hp : p = k
  · subst hp
    exact hbelow c hpc
  · by_cases hc : c = k
    · subst hc
      exact habove p hpc
    · exact h.others p c hpc hp hc

/-- **Up**: an element that may stand above its parent trades places with it. -/
theorem OrderedBut.up (htrans : ∀ x y z, above x y → above y z → above x z) (h : OrderedBut above xs k)
    (hbelow : ∀ c, Child k c → Stands above xs k c) (hpk : Child p k) (hp : xs[p]? = some y)
    (hstands : Stands above xs k p) (hswap : Swapped xs p k ys) :
    OrderedBut above ys p ∧ ∀ c, Child p c → Stands above ys p c := by
  have hlt := hpk.lt
  refine ⟨⟨fun q c hqc hq hc => ?_, fun q c hq hc => ?_⟩, fun c hc => ?_⟩
  · by_cases hqk : q = k
    · -- the parent has come down, and stands where it stood above the child
      subst hqk
      exact (h.around p c hpk hqc).congr hswap.right (hswap.others c hc hqc.lt.ne')
    · by_cases hck : c = k
      · exact absurd (Child.unique (hck ▸ hqc) hpk) hq
      · exact (h.others q c hqc hqk hck).congr (hswap.others q hq hqk) (hswap.others c hc hck)
  · have hqp := hq.lt
    have hqp' : Stands above xs q p := h.others q p hq (hqp.trans hlt).ne hlt.ne
    have hget := hswap.others q hqp.ne (hqp.trans hlt).ne
    by_cases hck : c = k
    · subst hck
      exact hqp'.congr hget hswap.right
    · have hpc : Stands above xs p c := h.others p c hc hlt.ne hck
      exact (hqp'.trans htrans hpc hp).congr hget (hswap.others c hc.lt.ne' hck)
  · by_cases hck : c = k
    · subst hck
      exact hstands.congr hswap.left hswap.right
    · have hpc : Stands above xs p c := h.others p c hc hlt.ne hck
      exact (hstands.trans htrans hpc hp).congr hswap.left (hswap.others c hc.lt.ne' hck)

/-- **Down**: an element trades places with the child that may stand above it, and above the other child. -/
theorem OrderedBut.down (h : OrderedBut above xs k) (hkc : Child k c) (hstands : Stands above xs c k)
    (hother : ∀ j, Child k j → j ≠ c → Stands above xs c j) (hswap : Swapped xs k c ys) :
    OrderedBut above ys c ∧ ∀ p, Child p c → Stands above ys p c := by
  have hlt := hkc.lt
  refine ⟨⟨fun q j hqj hq hj => ?_, fun q j hq hj => ?_⟩, fun p hp => ?_⟩
  · by_cases hqk : q = k
    · subst hqk
      exact (hother j hqj hj).congr hswap.left (hswap.others j hqj.lt.ne' hj)
    · by_cases hjk : j = k
      · subst hjk
        exact (h.around q c hqj hkc).congr (hswap.others q hqk hq) hswap.left
      · exact (h.others q j hqj hqk hjk).congr (hswap.others q hqk hq) (hswap.others j hjk hj)
  · obtain rfl := hkc.unique hq
    have hcj : Stands above xs c j := h.others c j hj hlt.ne' (hlt.trans hj.lt).ne'
    exact hcj.congr hswap.left (hswap.others j (hlt.trans hj.lt).ne' hj.lt.ne')
  · obtain rfl := hkc.unique hp
    exact hstands.congr hswap.left hswap.right

/-- **The root** may stand above all. -/
theorem Ordered.root (hrefl : ∀ x, above x x) (htrans : ∀ x y z, above x y → above y z → above x z)
    (h : Ordered above xs) (hx : xs[0]? = some x) : ∀ (i : Nat) (y : α), xs[i]? = some y → above x y := by
  intro i
  induction i using Nat.strong_induction_on with
  | _ i ih =>
      intro y hy
      rcases Nat.eq_zero_or_pos i with rfl | hi
      · obtain rfl := Option.some.inj (hx.symm.trans hy)
        exact hrefl x
      · have hchild := Child.of_pos hi
        obtain ⟨z, hz⟩ := exists_before hy hchild.lt
        exact htrans x z y (ih _ hchild.lt z hz) (h _ _ hchild z y hz hy)

theorem ordered_nil : Ordered above [] := fun _ _ _ _ _ hx => by cases hx

end Heaps

end Workbench.BinaryHeap
