import Mathlib.Data.Tree.Basic
import Mathlib.Data.List.Perm.Basic
import Mathlib.Data.Nat.Fib.Basic

/-!
# `Lib.SearchTree` — ordered and balanced binary trees

The nodes carry values with keys. A tree is ordered when its keys are, from left to right; equal keys may be on both
sides of each other.

## Main results
* `keys` — the keys from left to right; `Ordered` and `Balanced` trees;
* `Ordered.left_le`, `Ordered.le_right` — the keys on either side of a node;
* `fib_le_numNodes` — how low a balanced tree is;
* `pairwise_insert`, `Deletes` — one key more, and one key less.
-/

namespace Workbench.SearchTree

variable {β κ : Type} (key : β → κ) {le : κ → κ → Prop}

/-- The keys from left to right. -/
def keys : BinaryTree β → List κ
  | .nil => []
  | .node e l r => keys l ++ key e :: keys r

@[simp] theorem keys_nil : keys key (.nil : BinaryTree β) = [] := rfl

@[simp] theorem keys_node (e : β) (l r : BinaryTree β) : keys key (.node e l r) = keys key l ++ key e :: keys key r :=
  rfl

theorem length_keys (t : BinaryTree β) : (keys key t).length = t.numNodes := by
  induction t with
  | nil => rfl
  | node e l r ihl ihr =>
      simp only [keys_node, List.length_append, List.length_cons, ihl, ihr, BinaryTree.numNodes]
      omega

/-- The keys from left to right are in order. -/
def Ordered (le : κ → κ → Prop) (t : BinaryTree β) : Prop := (keys key t).Pairwise le

variable {key}

theorem Ordered.left {e : β} {l r : BinaryTree β} (h : Ordered key le (.node e l r)) : Ordered key le l :=
  h.sublist (List.sublist_append_left _ _)

theorem Ordered.right {e : β} {l r : BinaryTree β} (h : Ordered key le (.node e l r)) : Ordered key le r :=
  h.sublist ((List.sublist_cons_self _ _).trans (List.sublist_append_right _ _))

theorem Ordered.left_le {e : β} {l r : BinaryTree β} (h : Ordered key le (.node e l r)) {x : κ}
    (hx : x ∈ keys key l) : le x (key e) :=
  (List.pairwise_append.mp h).2.2 x hx _ List.mem_cons_self

theorem Ordered.le_right {e : β} {l r : BinaryTree β} (h : Ordered key le (.node e l r)) {x : κ}
    (hx : x ∈ keys key r) : le (key e) x :=
  (List.pairwise_cons.mp (List.pairwise_append.mp h).2.1).1 x hx

/-- Heights of the two sons differ by at most 1, at every node. -/
def Balanced : BinaryTree β → Prop
  | .nil => True
  | .node _ l r => l.height ≤ r.height + 1 ∧ r.height ≤ l.height + 1 ∧ Balanced l ∧ Balanced r

@[simp] theorem balanced_nil : Balanced (.nil : BinaryTree β) := trivial

@[simp] theorem balanced_node (e : β) (l r : BinaryTree β) :
    Balanced (.node e l r) ↔ l.height ≤ r.height + 1 ∧ r.height ≤ l.height + 1 ∧ Balanced l ∧ Balanced r := Iff.rfl

theorem node_ne_nil (e : β) (l r : BinaryTree β) : BinaryTree.node e l r ≠ .nil := by
  intro h
  cases h

/-- A tree of positive height has a root. -/
theorem eq_node_of_height {t : BinaryTree β} (h : 0 < t.height) : ∃ e l r, t = .node e l r := by
  cases t with
  | nil => simp at h
  | node e l r => exact ⟨e, l, r, rfl⟩

/-- **A balanced tree is low**: its number of nodes grows with its height as the Fibonacci numbers do. -/
theorem fib_le_numNodes {t : BinaryTree β} (h : Balanced t) : Nat.fib (t.height + 2) ≤ t.numNodes + 1 := by
  induction t with
  | nil => exact Nat.le_refl 1
  | node e l r ihl ihr =>
      obtain ⟨hl, hr, hleft, hright⟩ := h
      have hleft := ihl hleft
      have hright := ihr hright
      have hsum (n : Nat) : Nat.fib (n + 1 + 2) = Nat.fib (n + 1) + Nat.fib (n + 2) := Nat.fib_add_two
      rw [BinaryTree.height, BinaryTree.numNodes, hsum]
      -- the taller son, and the other one, which is at most one lower
      rcases Nat.le_total r.height l.height with hle | hle
      · rw [Nat.max_eq_left hle]
        have hother : Nat.fib (l.height + 1) ≤ Nat.fib (r.height + 2) := Nat.fib_mono (by omega)
        omega
      · rw [Nat.max_eq_right hle]
        have hother : Nat.fib (r.height + 1) ≤ Nat.fib (l.height + 2) := Nat.fib_mono (by omega)
        omega

/-! ## Lists in order -/

/-- A key that fits between two parts of a list. -/
theorem pairwise_insert {xs ys : List κ} {x : κ} (h : (xs ++ ys).Pairwise le) (hxs : ∀ y ∈ xs, le y x)
    (hys : ∀ y ∈ ys, le x y) : (xs ++ x :: ys).Pairwise le := by
  rw [List.pairwise_append] at h ⊢
  refine ⟨h.1, List.pairwise_cons.mpr ⟨hys, h.2.1⟩, ?_⟩
  intro a ha b hb
  rcases List.mem_cons.mp hb with rfl | hb
  · exact hxs a ha
  · exact h.2.2 a ha b hb

/-- `ys` is `xs` without one element `x`. -/
def Deletes (x : κ) (xs ys : List κ) : Prop := ∃ as bs, xs = as ++ x :: bs ∧ ys = as ++ bs

theorem Deletes.perm {x : κ} {xs ys : List κ} (h : Deletes x xs ys) : xs.Perm (x :: ys) := by
  obtain ⟨as, bs, rfl, rfl⟩ := h
  exact List.perm_middle

theorem Deletes.mem {x : κ} {xs ys : List κ} (h : Deletes x xs ys) : x ∈ xs := by
  obtain ⟨as, bs, rfl, -⟩ := h
  exact List.mem_append_right _ List.mem_cons_self

theorem Deletes.sublist {x : κ} {xs ys : List κ} (h : Deletes x xs ys) : ys.Sublist xs := by
  obtain ⟨as, bs, rfl, rfl⟩ := h
  exact (List.sublist_cons_self x bs).append_left as

theorem Deletes.append {x : κ} {xs ys : List κ} (h : Deletes x xs ys) (zs : List κ) :
    Deletes x (xs ++ zs) (ys ++ zs) := by
  obtain ⟨as, bs, rfl, rfl⟩ := h
  exact ⟨as, bs ++ zs, by simp, by simp⟩

theorem Deletes.prepend {x : κ} {xs ys : List κ} (h : Deletes x xs ys) (zs : List κ) :
    Deletes x (zs ++ xs) (zs ++ ys) := by
  obtain ⟨as, bs, rfl, rfl⟩ := h
  exact ⟨zs ++ as, bs, by simp, by simp⟩

end Workbench.SearchTree
