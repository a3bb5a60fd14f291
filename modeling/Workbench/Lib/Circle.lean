import Mathlib.Algebra.GroupWithZero.Nat
import Mathlib.Data.List.Chain
import Mathlib.Data.List.Nodup

/-!
# `Lib.Circle` — circles and who is left of them

In a circle the first one takes the next one out and goes to the end, until one is left. A circle may be linked: each
one leads to the next, and the last one to the first.

## Main results
* `survivor_eq` — where the one that is left stands;
* `Closed.takeOut` — one turn on a circle that is linked.
-/

namespace Workbench.Circle

variable {α : Type} {next next' : α → Option α} {a b : α} {rest circle : List α} {k : Nat}

/-- Who is left. -/
def survivor : List α → Option α
  | [] => none
  | [a] => some a
  | a :: _ :: rest => survivor (rest ++ [a])
termination_by circle => circle.length

/-- **Who is left**, by the largest power of two in the length. -/
theorem survivor_eq (hlow : 2 ^ k ≤ circle.length) (hhigh : circle.length < 2 ^ (k + 1)) :
    survivor circle = circle[2 * (circle.length - 2 ^ k)]? := by
  fun_induction survivor circle generalizing k with
  | case1 => exact absurd hlow (Nat.not_le.mpr (Nat.two_pow_pos k))
  | case2 a =>
      have hone : 2 ^ k = 1 := Nat.le_antisymm hlow (Nat.two_pow_pos k)
      rw [hone]
      rfl
  | case3 a b rest ih =>
      rw [List.length_append, List.length_singleton] at ih
      rw [List.length_cons, List.length_cons] at hlow hhigh ⊢
      by_cases hpower : 2 ^ k = rest.length + 2
      · -- the first one of a full circle is the last one of the next
        obtain ⟨k, rfl⟩ : ∃ j, k = j + 1 := Nat.exists_eq_succ_of_ne_zero (by rintro rfl; simp at hpower)
        rw [Nat.pow_succ] at hpower
        have hindex : 2 * (rest.length + 1 - 2 ^ k) = rest.length := by omega
        have hfirst : 2 * (rest.length + 1 + 1 - 2 ^ (k + 1)) = 0 := by rw [Nat.pow_succ]; omega
        rw [ih (k := k) (by omega) (by rw [Nat.pow_succ]; omega), hindex, hfirst,
          List.getElem?_append_right (Nat.le_refl _), Nat.sub_self]
        rfl
      · -- the index goes down by the two that are in front
        rw [Nat.pow_succ] at hhigh
        have hindex : 2 * (rest.length + 1 + 1 - 2 ^ k) = 2 * (rest.length + 1 - 2 ^ k) + 1 + 1 := by omega
        rw [ih (k := k) (by omega) (by rw [Nat.pow_succ]; omega), hindex, List.getElem?_cons_succ,
          List.getElem?_cons_succ, List.getElem?_append_left (by omega)]

/-! ## Linked circles -/

/-- Each one leads to the next, and the last one to the first. -/
def Closed (next : α → Option α) : List α → Prop
  | [] => False
  | a :: rest => (a :: (rest ++ [a])).IsChain fun x y => next x = some y

theorem closed_singleton : Closed next [a] ↔ next a = some a := List.isChain_pair

theorem Closed.next_eq (h : Closed next (a :: b :: rest)) : next a = some b := (List.isChain_cons_cons.mp h).1

/-- The one after the second. -/
theorem Closed.next_next (h : Closed next (a :: b :: rest)) : next b = some (rest.head?.getD a) := by
  have hb : (b :: (rest ++ [a])).IsChain fun x y => next x = some y := (List.isChain_cons_cons.mp h).2
  cases rest with
  | nil => exact (List.isChain_cons_cons.mp hb).1
  | cons c rest => exact (List.isChain_cons_cons.mp hb).1

/-- Where each one but the last leads matters. -/
theorem isChain_congr {l : List α} (h : (l ++ [a]).IsChain fun x y => next x = some y)
    (hsame : ∀ x ∈ l, next' x = next x) : (l ++ [a]).IsChain fun x y => next' x = some y := by
  induction l with
  | nil => exact .singleton a
  | cons x l ih =>
      have htail := ih h.tail fun y hy => hsame y (List.mem_cons_of_mem x hy)
      refine htail.cons fun y hy => ?_
      rw [hsame x List.mem_cons_self]
      exact h.rel_head? hy

/-- **One turn**: the first one leads to the one after the second. -/
theorem Closed.takeOut (h : Closed next (a :: b :: rest)) (hfirst : next' a = next b)
    (hother : ∀ x ∈ rest, next' x = next x) : Closed next' (rest ++ [a]) := by
  have hlast := hfirst.trans h.next_next
  have hb : (b :: (rest ++ [a])).IsChain fun x y => next x = some y := (List.isChain_cons_cons.mp h).2
  cases rest with
  | nil => exact closed_singleton.mpr hlast
  | cons c rest =>
      show (c :: ((rest ++ [a]) ++ [c])).IsChain _
      have hsplit : c :: ((rest ++ [a]) ++ [c]) = (c :: rest) ++ a :: c :: [] := by simp
      rw [hsplit, List.isChain_append_cons_cons]
      exact ⟨isChain_congr hb.tail hother, hlast, .singleton c⟩

end Workbench.Circle
