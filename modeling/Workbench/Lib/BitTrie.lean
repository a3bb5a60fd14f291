import Mathlib.Algebra.Group.Nat.Even
import Mathlib.Data.Finset.Card
import Mathlib.Data.Finset.Image
import Mathlib.Data.Tree.Basic

/-!
# `Lib.BitTrie` — binary tries over numbers of `n` bits

The path to a leaf is a number, from its highest bit down: 0 is to the left. Nodes may be missing.

## Main results
* `leaf` — the value at a leaf; `leaf_mod` follows one bit of a number;
* `Sets` — one leaf changes, and which son it is in;
* `nodeAt`, `leaf_nodeAt` — the nodes inside a trie, and the leaves below them;
* `leaves_card` — counting leaves son by son.
-/

namespace Workbench.BitTrie

variable {β : Type}

/-- The value at the leaf `h` of a trie of height `n`. -/
def leaf : Nat → BinaryTree β → Nat → Option β
  | _, .nil, _ => none
  | 0, .node v _ _, _ => some v
  | n + 1, .node _ zero one, h => if h < 2 ^ n then leaf n zero h else leaf n one (h - 2 ^ n)

@[simp] theorem leaf_nil (n h : Nat) : leaf n (.nil : BinaryTree β) h = none := by
  cases n <;> rfl

@[simp] theorem leaf_zero (v : β) (zero one : BinaryTree β) (h : Nat) : leaf 0 (.node v zero one) h = some v := rfl

variable {n h : Nat} {v : β} {zero one t : BinaryTree β}

theorem leaf_left (hlt : h < 2 ^ n) : leaf (n + 1) (.node v zero one) h = leaf n zero h := if_pos hlt

theorem leaf_right : leaf (n + 1) (.node v zero one) (h + 2 ^ n) = leaf n one h := by
  rw [leaf, if_neg (by omega), Nat.add_sub_cancel]

theorem mod_bit (n h : Nat) : h % 2 ^ (n + 1) = h % 2 ^ n + if h.testBit n then 2 ^ n else 0 := by
  rw [Nat.mod_pow_succ, Nat.testBit_eq_decide_div_mod_eq]
  rcases Nat.mod_two_eq_zero_or_one (h / 2 ^ n) with hbit | hbit <;> simp [hbit]

/-- The next bit says the son. -/
theorem leaf_mod (n h : Nat) (v : β) (zero one : BinaryTree β) :
    leaf (n + 1) (.node v zero one) (h % 2 ^ (n + 1)) = leaf n (if h.testBit n then one else zero) (h % 2 ^ n) := by
  rw [mod_bit]
  by_cases hbit : h.testBit n = true
  · rw [if_pos hbit, if_pos hbit]
    exact leaf_right
  · rw [if_neg hbit, if_neg hbit]
    exact leaf_left (Nat.mod_lt _ (Nat.two_pow_pos n))

theorem leaf_not_left (hlt : ¬ h < 2 ^ n) : leaf (n + 1) (.node v zero one) h = leaf n one (h - 2 ^ n) := if_neg hlt

/-- A property of all leaves, son by son. -/
theorem forall_leaf_succ {P : Option β → Prop} :
    (∀ h < 2 ^ (n + 1), P (leaf (n + 1) (.node v zero one) h)) ↔
      (∀ h < 2 ^ n, P (leaf n zero h)) ∧ ∀ h < 2 ^ n, P (leaf n one h) := by
  have hpow : 2 ^ (n + 1) = 2 ^ n + 2 ^ n := by omega
  constructor
  · intro hall
    refine ⟨fun h hlt => ?_, fun h hlt => ?_⟩
    · have hleft : leaf (n + 1) (.node v zero one) h = leaf n zero h := leaf_left hlt
      rw [← hleft]
      exact hall h (by omega)
    · have hright : leaf (n + 1) (.node v zero one) (h + 2 ^ n) = leaf n one h := leaf_right
      rw [← hright]
      exact hall (h + 2 ^ n) (by omega)
  · rintro ⟨hzero, hone⟩ h hlt
    by_cases hleft : h < 2 ^ n
    · rw [leaf_left hleft]
      exact hzero h hleft
    · rw [leaf_not_left hleft]
      exact hone (h - 2 ^ n) (by omega)

/-! ## One leaf changes -/

/-- The leaf `k` gets the value, and the other leaves are as they were. -/
def Sets (n : Nat) (t t' : BinaryTree β) (k : Nat) (w : β) : Prop :=
  ∀ h < 2 ^ n, leaf n t' h = if h = k then some w else leaf n t h

variable {k : Nat} {w v' : β} {zero' one' t' : BinaryTree β}

theorem Sets.left (h : Sets n zero zero' k w) (hk : k < 2 ^ n) :
    Sets (n + 1) (.node v zero one) (.node v' zero' one) k w := by
  intro j hj
  by_cases hleft : j < 2 ^ n
  · rw [leaf_left hleft, leaf_left hleft]
    exact h j hleft
  · rw [leaf_not_left hleft, leaf_not_left hleft, if_neg (by omega)]

theorem Sets.right (h : Sets n one one' k w) :
    Sets (n + 1) (.node v zero one) (.node v' zero one') (k + 2 ^ n) w := by
  intro j hj
  by_cases hleft : j < 2 ^ n
  · rw [leaf_left hleft, leaf_left hleft, if_neg (by omega)]
  · rw [leaf_not_left hleft, leaf_not_left hleft, h _ (by omega)]
    by_cases heq : j = k + 2 ^ n
    · rw [if_pos heq, if_pos (by omega)]
    · rw [if_neg heq, if_neg (by omega)]

/-! ## The nodes inside -/

/-- The node that is reached with the `d` highest bits. -/
def nodeAt : Nat → BinaryTree β → Nat → BinaryTree β
  | 0, t, _ => t
  | _ + 1, .nil, _ => .nil
  | d + 1, .node _ zero one, q => if q < 2 ^ d then nodeAt d zero q else nodeAt d one (q - 2 ^ d)

@[simp] theorem nodeAt_nil (d q : Nat) : nodeAt d (.nil : BinaryTree β) q = .nil := by
  cases d <;> rfl

/-- The leaves below the node. -/
theorem leaf_nodeAt {d m q j : Nat} (hq : q < 2 ^ d) (hj : j < 2 ^ m) :
    leaf (m + d) t (q * 2 ^ m + j) = leaf m (nodeAt d t q) j := by
  induction d generalizing t q with
  | zero =>
      have hzero : q = 0 := Nat.lt_one_iff.mp hq
      rw [hzero, Nat.zero_mul, Nat.zero_add]
      rfl
  | succ d ih =>
      cases t with
      | nil => rw [leaf_nil, nodeAt_nil, leaf_nil]
      | node v zero one =>
          have hpow : 2 ^ (m + d) = 2 ^ d * 2 ^ m := by rw [Nat.pow_add, Nat.mul_comm]
          rw [nodeAt, Nat.add_succ m d]
          by_cases hleft : q < 2 ^ d
          · have hbound : (q + 1) * 2 ^ m ≤ 2 ^ d * 2 ^ m := Nat.mul_le_mul_right _ hleft
            rw [Nat.add_mul] at hbound
            rw [if_pos hleft, leaf_left (by omega)]
            exact ih hleft
          · have hbound : 2 ^ d * 2 ^ m ≤ q * 2 ^ m := Nat.mul_le_mul_right _ (Nat.not_lt.mp hleft)
            rw [if_neg hleft, leaf_not_left (by omega), ← ih (by omega), Nat.sub_mul, hpow]
            congr 1
            omega

/-! ## Leaves with a value -/

variable [DecidableEq β]

/-- The leaves that have the value. -/
def leaves (n : Nat) (t : BinaryTree β) (v : β) : Finset Nat :=
  (Finset.range (2 ^ n)).filter fun h => leaf n t h = some v

theorem mem_leaves {w : β} : h ∈ leaves n t w ↔ h < 2 ^ n ∧ leaf n t h = some w := by
  rw [leaves, Finset.mem_filter, Finset.mem_range]

theorem leaves_nil (n : Nat) (w : β) : leaves n (.nil : BinaryTree β) w = ∅ := by
  refine Finset.eq_empty_of_forall_notMem fun h hmem => ?_
  rw [mem_leaves, leaf_nil] at hmem
  cases hmem.2

/-- The leaves of a node are those of its two sons. -/
theorem leaves_card {w : β} :
    (leaves (n + 1) (.node v zero one) w).card = (leaves n zero w).card + (leaves n one w).card := by
  have hsplit : leaves (n + 1) (.node v zero one) w =
      leaves n zero w ∪ (leaves n one w).image (· + 2 ^ n) := by
    ext h
    rw [Finset.mem_union, Finset.mem_image, mem_leaves, mem_leaves]
    constructor
    · rintro ⟨hlt, hleaf⟩
      by_cases hleft : h < 2 ^ n
      · rw [leaf_left hleft] at hleaf
        exact .inl ⟨hleft, hleaf⟩
      · rw [leaf_not_left hleft] at hleaf
        exact .inr ⟨h - 2 ^ n, mem_leaves.mpr ⟨by omega, hleaf⟩, by omega⟩
    · rintro (⟨hlt, hleaf⟩ | ⟨k, hk, rfl⟩)
      · exact ⟨by omega, (leaf_left hlt).trans hleaf⟩
      · obtain ⟨hlt, hleaf⟩ := mem_leaves.mp hk
        exact ⟨by omega, leaf_right.trans hleaf⟩
  rw [hsplit, Finset.card_union_of_disjoint, Finset.card_image_of_injective _ (add_left_injective _)]
  rw [Finset.disjoint_left]
  intro h hzero hone
  obtain ⟨k, -, rfl⟩ := Finset.mem_image.mp hone
  have hlt := (mem_leaves.mp hzero).1
  omega

end Workbench.BitTrie
