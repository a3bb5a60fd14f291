import Mathlib.Algebra.Order.Ring.Int
import Mathlib.Tactic.Common

/-!
# `Lib.Strided` — arrays and pointers

A pointer is an offset from the start of the array, which may be outside of it: in elements, or in bytes where the
elements have so many bytes each. Only at an element is there anything to read.

## Main results
* `readCell_natCast`, `writeCell_natCast` — pointers to elements;
* `elementAt_mul` — a pointer to the first byte of an element;
* `elementAt_eq_none` — a pointer to another byte.
-/

namespace Workbench

variable {α : Type} {size : Nat} {arr : List α} {p : Int} {i : Nat}

/-! ## Elements -/

/-- A read through a pointer to an element. -/
def readCell (arr : List α) (p : Int) : Option α := if 0 ≤ p then arr[p.toNat]? else none

/-- A write through a pointer to an element. -/
def writeCell (arr : List α) (p : Int) (x : α) : Option (List α) :=
  if 0 ≤ p ∧ p < arr.length then some (arr.set p.toNat x) else none

theorem readCell_natCast (arr : List α) (i : Nat) : readCell arr i = arr[i]? := if_pos (Int.natCast_nonneg i)

theorem writeCell_natCast (h : i < arr.length) (x : α) : writeCell arr i x = some (arr.set i x) :=
  if_pos ⟨Int.natCast_nonneg i, Int.ofNat_lt.mpr h⟩

/-! ## Bytes -/

/-- The element that holds a byte. -/
def elementIndex (size : Nat) (p : Int) : Nat := (p / size).toNat

/-- A read through a pointer to a byte. -/
def elementAt (size : Nat) (arr : List α) (p : Int) : Option α :=
  if (size : Int) ∣ p ∧ 0 ≤ p then arr[elementIndex size p]? else none

theorem elementIndex_mul (hsize : 0 < size) (i : Nat) : elementIndex size (i * size) = i := by
  rw [elementIndex, Int.mul_ediv_cancel _ (by omega), Int.toNat_natCast]

theorem elementAt_mul (hsize : 0 < size) (arr : List α) (i : Nat) : elementAt size arr (i * size) = arr[i]? := by
  have hnonneg : (0 : Int) ≤ i * size := Int.mul_nonneg (Int.natCast_nonneg i) (Int.natCast_nonneg size)
  rw [elementAt, if_pos ⟨Dvd.intro_left _ rfl, hnonneg⟩, elementIndex_mul hsize]

theorem elementAt_eq_none (h : ¬ (size : Int) ∣ p) : elementAt size arr p = none := if_neg fun hp => h hp.1

/-- The starts of two elements are in the order of the elements. -/
theorem mul_size_lt (hsize : 0 < size) {i j : Int} : i * size < j * size ↔ i < j :=
  mul_lt_mul_iff_left₀ (by omega)

theorem mul_size_le (hsize : 0 < size) {i j : Int} : i * size ≤ j * size ↔ i ≤ j :=
  mul_le_mul_iff_left₀ (by omega)

end Workbench
