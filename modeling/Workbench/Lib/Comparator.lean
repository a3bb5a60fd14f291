import Mathlib.Order.Lattice
import Mathlib.Tactic.Common

/-!
# `Lib.Comparator` — comparators in the manner of C

A comparator returns a positive number, a negative number or 0. It is a total preorder: each two elements compare, and
the order of their arguments changes the sign only.

## Contents
* `Comparator` — a comparator with what it promises;
* `StrictComparator` — one that returns 0 for an element and itself only;
* `Comparator.Rank` — the classes of elements that compare equal, in a linear order.
-/

namespace Workbench

/-- **A comparator that is a total preorder.** -/
structure Comparator (α : Type) where
  compare : α → α → Int
  swap (x y : α) : 0 < compare x y ↔ compare y x < 0
  trans (x y z : α) : 0 ≤ compare x y → 0 ≤ compare y z → 0 ≤ compare x z

/-- **A comparator that is a strict total order.** -/
structure StrictComparator (α : Type) extends Comparator α where
  eq_of_zero (x y : α) : compare x y = 0 → x = y

namespace Comparator

variable {α : Type} (cmp : Comparator α) {x y z : α}

theorem self (x : α) : cmp.compare x x = 0 := by
  have hswap := cmp.swap x x
  omega

theorem nonneg_of_not_pos (h : ¬ 0 < cmp.compare x y) : 0 ≤ cmp.compare y x := by
  have hswap := cmp.swap x y
  omega

theorem nonneg_of_neg (h : cmp.compare x y < 0) : 0 ≤ cmp.compare y x := by
  have hswap := cmp.swap y x
  omega

/-! ## Ranks -/

theorem nonpos_iff : cmp.compare x y ≤ 0 ↔ 0 ≤ cmp.compare y x := by
  have hswap := cmp.swap x y
  omega

theorem nonpos_trans (hxy : cmp.compare x y ≤ 0) (hyz : cmp.compare y z ≤ 0) : cmp.compare x z ≤ 0 :=
  cmp.nonpos_iff.mpr (cmp.trans z y x (cmp.nonpos_iff.mp hyz) (cmp.nonpos_iff.mp hxy))

theorem zero_iff : cmp.compare x y = 0 ↔ cmp.compare x y ≤ 0 ∧ cmp.compare y x ≤ 0 := by
  have hswap := cmp.swap y x
  omega

/-- Elements that compare equal are one. -/
def setoid : Setoid α where
  r x y := cmp.compare x y = 0
  iseqv := by
    refine ⟨cmp.self, fun h => ?_, fun hxy hyz => ?_⟩
    · exact cmp.zero_iff.mpr (cmp.zero_iff.mp h).symm
    · obtain ⟨hxy, hyx⟩ := cmp.zero_iff.mp hxy
      obtain ⟨hyz, hzy⟩ := cmp.zero_iff.mp hyz
      exact cmp.zero_iff.mpr ⟨cmp.nonpos_trans hxy hyz, cmp.nonpos_trans hzy hyx⟩

/-- Where an element stands among the others. -/
def Rank : Type := Quotient cmp.setoid

def rank (x : α) : cmp.Rank := Quotient.mk cmp.setoid x

theorem rank_eq_rank : cmp.rank x = cmp.rank y ↔ cmp.compare x y = 0 := ⟨Quotient.exact, fun h => Quotient.sound h⟩

theorem nonpos_congr {x' y' : α} (hx : cmp.compare x x' = 0) (hy : cmp.compare y y' = 0)
    (h : cmp.compare x y ≤ 0) : cmp.compare x' y' ≤ 0 :=
  cmp.nonpos_trans (cmp.zero_iff.mp hx).2 (cmp.nonpos_trans h (cmp.zero_iff.mp hy).1)

noncomputable instance : LinearOrder cmp.Rank where
  le := Quotient.lift₂ (fun x y => cmp.compare x y ≤ 0) (by
    intro x y x' y' hx hy
    have hx' : cmp.compare x' x = 0 := cmp.setoid.symm hx
    have hy' : cmp.compare y' y = 0 := cmp.setoid.symm hy
    exact propext ⟨cmp.nonpos_congr hx hy, cmp.nonpos_congr hx' hy'⟩)
  le_refl a := by
    obtain ⟨x, rfl⟩ := Quotient.exists_rep a
    exact Int.le_of_eq (cmp.self x)
  le_trans a b c hab hbc := by
    obtain ⟨x, rfl⟩ := Quotient.exists_rep a
    obtain ⟨y, rfl⟩ := Quotient.exists_rep b
    obtain ⟨z, rfl⟩ := Quotient.exists_rep c
    exact cmp.nonpos_trans hab hbc
  le_antisymm a b hab hba := by
    obtain ⟨x, rfl⟩ := Quotient.exists_rep a
    obtain ⟨y, rfl⟩ := Quotient.exists_rep b
    exact cmp.rank_eq_rank.mpr (cmp.zero_iff.mpr ⟨hab, hba⟩)
  le_total a b := by
    obtain ⟨x, rfl⟩ := Quotient.exists_rep a
    obtain ⟨y, rfl⟩ := Quotient.exists_rep b
    show cmp.compare x y ≤ 0 ∨ cmp.compare y x ≤ 0
    have hswap := cmp.swap x y
    omega
  toDecidableLE := Classical.decRel _

theorem rank_le_rank : cmp.rank x ≤ cmp.rank y ↔ cmp.compare x y ≤ 0 := Iff.rfl

theorem rank_lt_rank : cmp.rank x < cmp.rank y ↔ 0 < cmp.compare y x := by
  rw [← not_le, cmp.rank_le_rank, Int.not_le]

/-- The other way round. -/
def reverse : Comparator α where
  compare x y := cmp.compare y x
  swap x y := cmp.swap y x
  trans x y z hxy hyz := cmp.trans z y x hyz hxy

theorem reverse_rank_le : cmp.reverse.rank x ≤ cmp.reverse.rank y ↔ 0 ≤ cmp.compare x y :=
  cmp.reverse.rank_le_rank.trans cmp.nonpos_iff

/-! ## By a key -/

section

variable {β : Type} [LinearOrder β] {key : α → β}

/-- 1, 0 or -1, as a key of the first is greater than the one of the second, equal or less. -/
def byKey (key : α → β) : Comparator α where
  compare x y := if key y < key x then 1 else if key x < key y then -1 else 0
  swap x y := by
    rcases lt_trichotomy (key x) (key y) with h | h | h
    · simp [h, h.not_gt]
    · simp [h]
    · simp [h, h.not_gt]
  trans x y z hxy hyz := by
    have hle : ∀ x y : α, (0 : Int) ≤ (if key y < key x then 1 else if key x < key y then -1 else 0) ↔
        key y ≤ key x := by
      intro x y
      rcases lt_trichotomy (key x) (key y) with h | h | h
      · simp [h, h.not_gt]
      · simp [h]
      · simp [h, h.le]
    rw [hle] at hxy hyz ⊢
    exact hyz.trans hxy

/-- Only the order of the keys matters. -/
theorem byKey_congr {x' y' : α} (hlt : key x < key y ↔ key x' < key y') (hgt : key y < key x ↔ key y' < key x') :
    (byKey key).compare x y = (byKey key).compare x' y' :=
  if_congr hgt rfl (if_congr hlt rfl rfl)

theorem byKey_of_lt (h : key x < key y) : (byKey key).compare x y = -1 :=
  (if_neg h.not_gt).trans (if_pos h)

theorem byKey_of_gt (h : key y < key x) : (byKey key).compare x y = 1 := if_pos h

theorem byKey_of_eq (h : key x = key y) : (byKey key).compare x y = 0 :=
  (if_neg (by rw [h]; exact lt_irrefl _)).trans (if_neg (by rw [h]; exact lt_irrefl _))

/-- The sign of the comparison is the order of the keys. -/
theorem byKey_eq_one_iff : (byKey key).compare x y = 1 ↔ key y < key x := by
  rcases lt_trichotomy (key x) (key y) with h | h | h
  · simp [byKey_of_lt h, h.le]
  · simp [byKey_of_eq h, h]
  · simp [byKey_of_gt h, h]

theorem byKey_eq_neg_one_iff : (byKey key).compare x y = -1 ↔ key x < key y := by
  rcases lt_trichotomy (key x) (key y) with h | h | h
  · simp [byKey_of_lt h, h]
  · simp [byKey_of_eq h, h]
  · simp [byKey_of_gt h, h.le]

theorem byKey_eq_zero_iff : (byKey key).compare x y = 0 ↔ key x = key y := by
  rcases lt_trichotomy (key x) (key y) with h | h | h
  · simp [byKey_of_lt h, h.ne]
  · simp [byKey_of_eq h, h]
  · simp [byKey_of_gt h, h.ne']

end

/-- Numbers are compared by their difference. -/
def byDifference : Comparator Int where
  compare x y := x - y
  swap x y := by omega
  trans x y z hxy hyz := by omega

end Comparator

/-- Numbers are compared by their difference. -/
def StrictComparator.byDifference : StrictComparator Int where
  toComparator := Comparator.byDifference
  eq_of_zero x y h := by
    have hzero : x - y = 0 := h
    omega

end Workbench
