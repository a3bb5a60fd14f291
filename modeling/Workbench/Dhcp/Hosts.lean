import Workbench.Dhcp.Trie
import Workbench.Lib.BitTrie

/-!
# `Dhcp.Hosts` — what the walks through the trie do to the hosts

A host is a number of as many bits as the trie is high. It is occupied when its leaf is marked.

## Main results
* `isFull_iff` — a mark says that every host below is occupied;
* `isOccupiedLoop_iff` — a host counts as occupied also when only its leaf is missing;
* `allocateSpecificIp_spec`, `allocateSmallestIp_spec`, `freeIp_spec` — one leaf changes, the others do not;
* `countOccupied_eq`, `leaf_dhcpInit`.
-/

namespace Workbench.Dhcp

open BitTrie

variable {n h : Nat} {full : Bool} {node zero one : Node} {reqIp allocatedIp : Ip}

/-- Marks at the nodes say that both relatives are there and full; leaves have no relatives. -/
def Sound : Nat → Node → Prop
  | _, .nil => True
  | 0, .node _ zero one => zero = .nil ∧ one = .nil
  | n + 1, .node full zero one => full = (isFull zero && isFull one) ∧ Sound n zero ∧ Sound n one

@[simp] theorem sound_nil (n : Nat) : Sound n .nil := by
  cases n <;> trivial

/-- **A mark** says that every host below is occupied. -/
theorem isFull_iff (hs : Sound n node) : isFull node = true ↔ ∀ h < 2 ^ n, leaf n node h = some true := by
  induction n generalizing node with
  | zero =>
      cases node with
      | nil =>
          refine iff_of_false nofun fun hall => ?_
          have hleaf := hall 0 (by decide)
          cases hleaf
      | node full zero one =>
          show full = true ↔ _
          constructor
          · rintro rfl h -
            rfl
          · intro hall
            exact Option.some.inj (hall 0 (by decide))
  -- the mark is the conjunction of the marks of the two halves
  | succ n ih =>
      cases node with
      | nil =>
          refine iff_of_false nofun fun hall => ?_
          have hleaf := hall 0 (Nat.two_pow_pos _)
          cases hleaf
      | node full zero one =>
          obtain ⟨hfull, hzero, hone⟩ := hs
          show full = true ↔ _
          rw [hfull, Bool.and_eq_true, ih hzero, ih hone]
          exact (forall_leaf_succ (P := fun l => l = some true)).symm

theorem sound_created (hs : Sound n node) : Sound n (created node) := by
  cases node with
  | node full zero one => exact hs
  | nil => cases n with
    | zero => exact ⟨rfl, rfl⟩
    | succ n => exact ⟨rfl, sound_nil n, sound_nil n⟩

theorem created_ne_nil (node : Node) : created node ≠ .nil := by
  cases node <;> nofun

/-- A node that is created has no leaves. -/
theorem leaf_created (n h : Nat) (node : Node) : leaf (n + 1) (created node) h = leaf (n + 1) node h := by
  cases node with
  | node full zero one => rfl
  | nil =>
      show leaf (n + 1) (.node false .nil .nil) h = none
      by_cases hlt : h < 2 ^ n
      · rw [leaf_left hlt, leaf_nil]
      · rw [leaf_not_left hlt, leaf_nil]

theorem sets_created {node' : Node} {k : Nat} {b : Bool} (h : Sets (n + 1) (created node) node' k b) :
    Sets (n + 1) node node' k b := by
  intro j hj
  rw [h j hj, leaf_created]

/-! ## Allocation -/

theorem updateFullness_sets {node' : Node} {k : Nat} {b : Bool} (h : Sets (n + 1) node node' k b) :
    Sets (n + 1) node (updateFullness node') k b := by
  cases node' with
  | nil => exact h
  | node full zero one => exact h

/-- A node that is full stays full when a leaf is marked. -/
theorem isFull_mono {node' : Node} {k : Nat} (hs : Sound n node) (hs' : Sound n node')
    (hsets : Sets n node node' k true) (hfull : isFull node = true) : isFull node' = true := by
  rw [isFull_iff hs']
  intro h hlt
  rw [hsets h hlt]
  split
  · rfl
  · exact (isFull_iff hs).mp hfull h hlt

/-- A mark that is set already is one that would be set now, as the sons that are full stay full. -/
theorem full_grows {full z o z' o' : Bool} (hfull : full = (z && o)) (hz : z = true → z' = true)
    (ho : o = true → o' = true) : (full || z' && o') = (z' && o') := by
  subst hfull
  by_cases hboth : (z && o) = true
  · obtain ⟨hz', ho'⟩ := (Bool.and_eq_true z o).mp hboth
    rw [hboth, hz hz', ho ho']
    rfl
  · rw [Bool.eq_false_iff.mpr hboth, Bool.false_or]

/-- **A specific host is allocated**: its leaf is marked. -/
theorem allocateSpecificIp_spec (reqIp : Ip) (hs : Sound n node) :
    Sound n (allocateSpecificIp reqIp n (created node)) ∧
      Sets n node (allocateSpecificIp reqIp n (created node)) (reqIp.toNat % 2 ^ n) true := by
  induction n generalizing node with
  | zero =>
      have hleaf : ∀ full zero one, created node = .node full zero one → zero = .nil ∧ one = .nil := by
        intro full zero one heq
        have hs' := sound_created hs
        rw [heq] at hs'
        exact hs'
      cases hnode : created node with
      | nil => exact absurd hnode (created_ne_nil node)
      | node full zero one =>
          refine ⟨hleaf _ _ _ hnode, fun h hlt => ?_⟩
          rw [Nat.lt_one_iff.mp hlt, Nat.pow_zero, Nat.mod_one, if_pos rfl]
          rfl
  | succ n ih =>
      have hs' := sound_created hs
      refine And.imp id sets_created ?_
      cases hnode : created node with
      | nil => exact absurd hnode (created_ne_nil node)
      | node full zero one =>
          rw [hnode] at hs'
          obtain ⟨hfull, hzero, hone⟩ := hs'
          rw [allocateSpecificIp]
          have hbit : reqIp.getLsbD n = reqIp.toNat.testBit n := rfl
          rw [hbit]
          by_cases hdir : reqIp.toNat.testBit n = true
          · -- the other son stays, and the new mark is the conjunction again
            obtain ⟨hson, hsets⟩ := ih hone
            rw [if_pos hdir]
            refine ⟨⟨full_grows hfull id (isFull_mono hone hson hsets), hzero, hson⟩, ?_⟩
            rw [mod_bit, if_pos hdir]
            exact updateFullness_sets hsets.right
          · obtain ⟨hson, hsets⟩ := ih hzero
            rw [if_neg hdir]
            refine ⟨⟨full_grows hfull (isFull_mono hzero hson hsets) id, hson, hone⟩, ?_⟩
            rw [mod_bit, if_neg hdir]
            exact updateFullness_sets (hsets.left (Nat.mod_lt _ (Nat.two_pow_pos n)))

theorem toNat_assemble (x : Ip) (one : Bool) :
    ((x >>> 1) ||| ((if one then 1#32 else 0#32) <<< 31)).toNat =
      x.toNat / 2 + if one then 2147483648 else 0 := by
  cases one with
  | false => simp [Nat.shiftRight_eq_div_pow]
  | true =>
      have hlt : x.toNat / 2 < 2 ^ 31 := by
        have hx := x.isLt
        omega
      have hor := Nat.two_pow_add_eq_or_of_lt hlt 1
      rw [Nat.mul_one, show (2 : Nat) ^ 31 = 2147483648 from rfl] at hor
      simp only [BitVec.toNat_or, BitVec.toNat_ushiftRight, Nat.shiftRight_eq_div_pow, if_true]
      show x.toNat / 2 ^ 1 ||| 2147483648 = _
      rw [Nat.or_comm, ← hor, Nat.add_comm]

/-- One bit of the host is put on top of the bits that are there, and the rest moves down. -/
theorem toNat_assemble_host {x a : Ip} {k : Nat} (hn : n < 32) (hx : x.toNat = k * 2 ^ (32 - n) + a.toNat / 2 ^ n)
    (one : Bool) :
    ((x >>> 1) ||| ((if one then 1#32 else 0#32) <<< 31)).toNat =
      (k + if one then 2 ^ n else 0) * 2 ^ (32 - (n + 1)) + a.toNat / 2 ^ (n + 1) := by
  have hpow : 2 ^ (32 - n) = 2 * 2 ^ (32 - (n + 1)) := by
    rw [show 32 - n = 32 - (n + 1) + 1 by omega, Nat.pow_succ, Nat.mul_comm]
  -- the bit of this level ends up below the bits of the levels above
  have htop : 2 ^ n * 2 ^ (32 - (n + 1)) = 2147483648 := by
    rw [← Nat.pow_add, show n + (32 - (n + 1)) = 31 by omega]
  have hdiv : a.toNat / 2 ^ (n + 1) = a.toNat / 2 ^ n / 2 := by
    rw [Nat.pow_succ, Nat.div_div_eq_div_mul]
  rw [toNat_assemble, hx, hpow, hdiv, Nat.add_mul, ← Nat.mul_assoc, Nat.mul_comm k 2, Nat.mul_assoc]
  cases one with
  | false =>
      simp only [Bool.false_eq_true, if_false, Nat.zero_mul]
      omega
  | true =>
      simp only [if_true, htop]
      omega

/-- The host is free, and no smaller one is. -/
def SmallestFree (n : Nat) (node : Node) (k : Nat) : Prop :=
  k < 2 ^ n ∧ leaf n node k ≠ some true ∧ ∀ j < k, leaf n node j = some true

theorem SmallestFree.unique {k k' : Nat} (h : SmallestFree n node k) (h' : SmallestFree n node k') : k = k' := by
  obtain ⟨-, hkfree, hbelow⟩ := h
  obtain ⟨-, hkfree', hbelow'⟩ := h'
  rcases Nat.lt_trichotomy k k' with hlt | heq | hlt
  · exact absurd (hbelow' k hlt) hkfree
  · exact heq
  · exact absurd (hbelow k' hlt) hkfree'

theorem SmallestFree.left {k : Nat} (h : SmallestFree n zero k) : SmallestFree (n + 1) (.node full zero one) k := by
  obtain ⟨hk, hkfree, hbelow⟩ := h
  refine ⟨by omega, ?_, fun j hj => ?_⟩
  · rw [leaf_left hk]
    exact hkfree
  · rw [leaf_left (Nat.lt_trans hj hk)]
    exact hbelow j hj

theorem SmallestFree.right {k : Nat} (h : SmallestFree n one k) (hs : Sound n zero) (hfull : isFull zero = true) :
    SmallestFree (n + 1) (.node full zero one) (k + 2 ^ n) := by
  obtain ⟨hk, hkfree, hbelow⟩ := h
  refine ⟨by omega, ?_, fun j hj => ?_⟩
  · rw [leaf_right]
    exact hkfree
  · by_cases hleft : j < 2 ^ n
    · rw [leaf_left hleft]
      exact (isFull_iff hs).mp hfull j hleft
    · rw [leaf_not_left hleft]
      exact hbelow _ (by omega)

theorem SmallestFree.of_created {k : Nat} (h : SmallestFree (n + 1) (created node) k) :
    SmallestFree (n + 1) node k := by
  unfold SmallestFree at h ⊢
  simp only [leaf_created] at h
  exact h

theorem isFull_created (hfree : isFull node = false) : isFull (created node) = false := by
  cases node with
  | nil => rfl
  | node full zero one => exact hfree

/-- **The smallest host is allocated**, if one is free. Its bits are at the top of the address, and the old bits have
    moved down. -/
theorem allocateSmallestIp_spec (allocatedIp : Ip) (hn : n ≤ 32) (hs : Sound n node) (hfree : isFull node = false) :
    ∃ k, SmallestFree n node k ∧
      (allocateSmallestIp n (created node) allocatedIp).1 = true ∧
      Sound n (allocateSmallestIp n (created node) allocatedIp).2.1 ∧
      Sets n node (allocateSmallestIp n (created node) allocatedIp).2.1 k true ∧
      (allocateSmallestIp n (created node) allocatedIp).2.2.toNat =
        k * 2 ^ (32 - n) + allocatedIp.toNat / 2 ^ n := by
  induction n generalizing node with
  | zero =>
      have hs' := sound_created hs
      have hfree' := isFull_created hfree
      have hleaf : leaf 0 node 0 ≠ some true := by
        cases node with
        | nil => nofun
        | node full zero one =>
            obtain rfl : full = false := hfree
            nofun
      cases hnode : created node with
      | nil => exact absurd hnode (created_ne_nil node)
      | node full zero one =>
          rw [hnode] at hs' hfree'
          obtain rfl : full = false := hfree'
          refine ⟨0, ⟨by decide, hleaf, nofun⟩, rfl, hs', fun h hlt => ?_, ?_⟩
          · rw [Nat.lt_one_iff.mp hlt, if_pos rfl]
            rfl
          · show allocatedIp.toNat = 0 * 2 ^ (32 - 0) + allocatedIp.toNat / 2 ^ 0
            rw [Nat.zero_mul, Nat.zero_add, Nat.pow_zero, Nat.div_one]
  | succ n ih =>
      have hs' := sound_created hs
      have hfree' := isFull_created hfree
      have hsmallest : ∀ k, SmallestFree (n + 1) (created node) k → SmallestFree (n + 1) node k :=
        fun _ h => h.of_created
      have hsets : ∀ node' k, Sets (n + 1) (created node) node' k true → Sets (n + 1) node node' k true :=
        fun _ _ h => sets_created h
      cases hnode : created node with
      | nil => exact absurd hnode (created_ne_nil node)
      | node full zero one =>
          rw [hnode] at hs' hfree' hsmallest hsets
          obtain ⟨hmark, hzero, hone⟩ := hs'
          obtain rfl : full = false := hfree'
          rw [allocateSmallestIp, if_neg Bool.false_ne_true]
          by_cases hz : isFull zero = true
          · -- the hosts at zero are occupied
            have ho : isFull one = false := by
              rw [hz, Bool.true_and] at hmark
              exact hmark.symm
            obtain ⟨k, hk, hok, hson, hset, hip⟩ := ih (by omega) hone ho
            rw [if_pos hz]
            simp only [hok, if_true]
            refine ⟨k + 2 ^ n, hsmallest _ (hk.right hzero hz), trivial, ⟨rfl, hzero, hson⟩,
              hsets _ _ (updateFullness_sets hset.right), ?_⟩
            exact toNat_assemble_host (by omega) hip true
          · -- the smallest free host is at zero
            have hz' : isFull zero = false := Bool.eq_false_iff.mpr hz
            obtain ⟨k, hk, hok, hson, hset, hip⟩ := ih (by omega) hzero hz'
            rw [if_neg hz]
            simp only [hok, if_true]
            refine ⟨k, hsmallest _ hk.left, trivial, ⟨rfl, hson, hone⟩,
              hsets _ _ (updateFullness_sets (hset.left hk.1)), ?_⟩
            exact toNat_assemble_host (by omega) hip false

/-- What the address was before has no influence on the trie. -/
theorem allocateSmallestIp_node (n : Nat) (node : Node) (a a' : Ip) :
    (allocateSmallestIp n node a).1 = (allocateSmallestIp n node a').1 ∧
      (allocateSmallestIp n node a).2.1 = (allocateSmallestIp n node a').2.1 := by
  induction n generalizing node with
  | zero =>
      cases node with
      | nil => exact ⟨rfl, rfl⟩
      | node full zero one => cases full <;> exact ⟨rfl, rfl⟩
  | succ n ih =>
      cases node with
      | nil => exact ⟨rfl, rfl⟩
      | node full zero one =>
          obtain ⟨hzero, hzero'⟩ := ih (created zero)
          obtain ⟨hone, hone'⟩ := ih (created one)
          simp only [allocateSmallestIp, hzero, hzero', hone, hone']
          cases full with
          | true => exact ⟨rfl, rfl⟩
          | false =>
              cases isFull zero <;> simp only [Bool.false_eq_true, if_false, if_true] <;> split <;> exact ⟨rfl, rfl⟩

/-- A node that is full stays as it is. -/
theorem allocateSmallestIp_full (hfull : isFull node = true) :
    allocateSmallestIp n node allocatedIp = (false, node, allocatedIp) := by
  cases node with
  | nil => cases hfull
  | node full zero one =>
      obtain rfl : full = true := hfull
      cases n <;> rfl

/-! ## Occupied hosts -/

/-- The leaf of the host is missing, and the node above it is there. -/
def Orphan (n : Nat) (node : Node) (h : Nat) : Prop := leaf n node h = none ∧ nodeAt (n - 1) node (h / 2) ≠ .nil

theorem orphan_nil : ¬ Orphan n .nil h := by
  rintro ⟨-, hparent⟩
  exact hparent (nodeAt_nil _ _)

theorem orphan_left (hlt : h < 2 ^ (n + 1)) :
    Orphan (n + 2) (.node full zero one) h ↔ Orphan (n + 1) zero h := by
  unfold Orphan
  rw [leaf_left hlt]
  show _ ∧ (if h / 2 < 2 ^ n then nodeAt n zero (h / 2) else _) ≠ _ ↔ _
  rw [if_pos (by omega)]
  rfl

theorem orphan_right : Orphan (n + 2) (.node full zero one) (h + 2 ^ (n + 1)) ↔ Orphan (n + 1) one h := by
  unfold Orphan
  have hhalf : (h + 2 ^ (n + 1)) / 2 = h / 2 + 2 ^ n := by
    rw [Nat.pow_succ]
    omega
  rw [leaf_right, hhalf]
  show _ ∧ (if h / 2 + 2 ^ n < 2 ^ n then _ else nodeAt n one (h / 2 + 2 ^ n - 2 ^ n)) ≠ _ ↔ _
  rw [if_neg (by omega), Nat.add_sub_cancel]
  rfl

/-- The next bit says the son. -/
theorem orphan_mod (n h : Nat) (full : Bool) (zero one : Node) :
    Orphan (n + 2) (.node full zero one) (h % 2 ^ (n + 2)) ↔
      Orphan (n + 1) (if h.testBit (n + 1) then one else zero) (h % 2 ^ (n + 1)) := by
  rw [mod_bit (n + 1)]
  by_cases hbit : h.testBit (n + 1) = true
  · rw [if_pos hbit, if_pos hbit]
    exact orphan_right
  · rw [if_neg hbit, if_neg hbit]
    exact orphan_left (Nat.mod_lt _ (Nat.two_pow_pos _))

theorem isOccupiedLoop_node (hn : n ≤ 32) : isOccupiedLoop reqIp (.node full zero one) (BitVec.ofNat 64 (n + 1)) =
    (full || isOccupiedLoop reqIp (if reqIp.toNat.testBit n then one else zero) (BitVec.ofNat 64 n)) := by
  have hpred : BitVec.ofNat 64 (n + 1) - 1 = BitVec.ofNat 64 n := by
    rw [BitVec.ofNat_add]
    exact BitVec.add_sub_cancel ..
  have hindex : (BitVec.ofNat 64 n).toNat = n := by
    rw [BitVec.toNat_ofNat]
    omega
  have hmore : 0 < BitVec.ofNat 64 (n + 1) + 1 := by
    have hnext : BitVec.ofNat 64 (n + 1) + 1 = BitVec.ofNat 64 (n + 2) := (BitVec.ofNat_add ..).symm
    rw [hnext, BitVec.lt_def, BitVec.toNat_ofNat]
    show 0 < _
    omega
  rw [isOccupiedLoop, if_pos hmore, hpred, hindex]
  show _ = (full || isOccupiedLoop reqIp (if reqIp.getLsbD n then one else zero) _)
  cases full with
  | true => rfl
  | false =>
      cases reqIp.getLsbD n <;> rfl

/-- The loop at a leaf: a leaf that is missing counts as occupied. -/
theorem isOccupiedLoop_leaf (hs : Sound 0 node) :
    isOccupiedLoop reqIp node (BitVec.ofNat 64 0) = true ↔ leaf 0 node 0 = some true ∨ node = .nil := by
  cases node with
  | nil => exact iff_of_true rfl (.inr rfl)
  | node full zero one =>
      obtain ⟨rfl, rfl⟩ := hs
      cases full with
      | true => exact iff_of_true rfl (.inl rfl)
      | false =>
          refine iff_of_false ?_ ?_
          · show ¬ (if _ then _ else _) = true
            simp [isOccupiedLoop]
          · rintro (h | h) <;> cases h

/-- A son of a leaf's parent. -/
theorem orphan_one : Orphan 1 (.node full zero one) h ↔ leaf 1 (.node full zero one) h = none :=
  and_iff_left nofun

theorem sound_son {b : Bool} (hzero : Sound n zero) (hone : Sound n one) : Sound n (if b then one else zero) := by
  split
  · exact hone
  · exact hzero

/-- At the last level a leaf that is missing counts as occupied. -/
theorem isOccupiedLoop_last (hs : Sound 1 (.node full zero one)) :
    isOccupiedLoop reqIp (.node full zero one) (BitVec.ofNat 64 (0 + 1)) = true ↔
      leaf 1 (.node full zero one) (reqIp.toNat % 2 ^ 1) = some true ∨
        Orphan 1 (.node full zero one) (reqIp.toNat % 2 ^ 1) := by
  have hfull := isFull_iff hs
  obtain ⟨-, hzero, hone⟩ := hs
  rw [orphan_one, isOccupiedLoop_node (by omega), leaf_mod, Bool.or_eq_true, Nat.pow_zero, Nat.mod_one]
  have hall : full = true → leaf 0 (if reqIp.toNat.testBit 0 then one else zero) 0 = some true := by
    intro h
    have hleaf := hfull.mp h (reqIp.toNat % 2 ^ 1) (Nat.mod_lt _ (by decide))
    rw [leaf_mod, Nat.pow_zero, Nat.mod_one] at hleaf
    exact hleaf
  have hson : Sound 0 (if reqIp.toNat.testBit 0 then one else zero) := sound_son hzero hone
  generalize (if reqIp.toNat.testBit 0 then one else zero) = son at hall hson
  rw [isOccupiedLoop_leaf hson]
  -- a leaf that is missing ends the loop with no bits left
  cases son with
  | nil => exact iff_of_true (.inr (.inr rfl)) (.inr rfl)
  | node full' zero' one' =>
      constructor
      · rintro (h | h | h)
        · exact .inl (hall h)
        · exact .inl h
        · cases h
      · rintro (h | h)
        · exact .inr (.inl h)
        · cases h

theorem isOccupiedLoop_nil (hn : n ≤ 31) : isOccupiedLoop reqIp .nil (BitVec.ofNat 64 (n + 1)) = false := by
  have hne : BitVec.ofNat 64 (n + 1) ≠ 0 := by
    intro heq
    have heq' := congrArg BitVec.toNat heq
    rw [BitVec.toNat_ofNat] at heq'
    have hzero : BitVec.toNat (0 : BitVec 64) = 0 := rfl
    omega
  show (_ == (0 : BitVec 64)) = false
  exact beq_eq_false_iff_ne.mpr hne

/-- **A host counts as occupied** if its leaf is marked, or if the leaf is missing under a node that is there. -/
theorem isOccupiedLoop_iff (hn : n ≤ 31) (hs : Sound (n + 1) node) :
    isOccupiedLoop reqIp node (BitVec.ofNat 64 (n + 1)) = true ↔
      leaf (n + 1) node (reqIp.toNat % 2 ^ (n + 1)) = some true ∨
        Orphan (n + 1) node (reqIp.toNat % 2 ^ (n + 1)) := by
  induction n generalizing node with
  | zero =>
      cases node with
      | nil =>
          rw [isOccupiedLoop_nil hn]
          refine iff_of_false Bool.false_ne_true ?_
          rintro (h | h)
          · cases h
          · exact orphan_nil h
      | node full zero one => exact isOccupiedLoop_last hs
  | succ n ih =>
      cases node with
      | nil =>
          rw [leaf_nil, isOccupiedLoop_nil hn]
          refine iff_of_false Bool.false_ne_true ?_
          rintro (h | h)
          · cases h
          · exact orphan_nil h
      | node full zero one =>
          have hfull := isFull_iff hs
          obtain ⟨-, hzero, hone⟩ := hs
          rw [isOccupiedLoop_node (by omega), Bool.or_eq_true, orphan_mod, leaf_mod,
            ih (by omega) (sound_son hzero hone)]
          -- a mark says that the host is occupied already
          refine or_iff_right_of_imp fun h => .inl ?_
          rw [← leaf_mod]
          exact hfull.mp h _ (Nat.mod_lt _ (Nat.two_pow_pos _))

/-! ## Freeing -/

theorem freeIp_spec (reqIp : Ip) (hs : Sound n node) (hleaf : leaf n node (reqIp.toNat % 2 ^ n) ≠ none) :
    ∃ node', freeIp reqIp n node = some node' ∧ Sound n node' ∧ isFull node' = false ∧
      Sets n node node' (reqIp.toNat % 2 ^ n) false := by
  induction n generalizing node with
  | zero =>
      cases node with
      | nil => exact absurd rfl hleaf
      | node full zero one =>
          refine ⟨_, rfl, hs, rfl, fun h hlt => ?_⟩
          rw [Nat.lt_one_iff.mp hlt, Nat.pow_zero, Nat.mod_one, if_pos rfl]
          rfl
  | succ n ih =>
      cases node with
      | nil => exact absurd rfl hleaf
      | node full zero one =>
          obtain ⟨-, hzero, hone⟩ := hs
          rw [leaf_mod] at hleaf
          rw [freeIp, show reqIp.getLsbD n = reqIp.toNat.testBit n from rfl, mod_bit]
          by_cases hbit : reqIp.toNat.testBit n = true
          · -- the son is not full any more, and neither is the node
            rw [if_pos hbit] at hleaf
            obtain ⟨one', hfree, hone', hnot, hsets⟩ := ih hone hleaf
            rw [if_pos hbit, if_pos hbit, hfree]
            refine ⟨_, rfl, ⟨?_, hzero, hone'⟩, rfl, hsets.right⟩
            rw [hnot, Bool.and_false]
          · rw [if_neg hbit] at hleaf
            obtain ⟨zero', hfree, hzero', hnot, hsets⟩ := ih hzero hleaf
            rw [if_neg hbit, if_neg hbit, hfree]
            refine ⟨_, rfl, ⟨?_, hzero', hone⟩, rfl, hsets.left (Nat.mod_lt _ (Nat.two_pow_pos n))⟩
            rw [hnot, Bool.false_and]

/-- A leaf that is missing is dereferenced. -/
theorem freeIp_none (hleaf : leaf n node (reqIp.toNat % 2 ^ n) = none) : freeIp reqIp n node = none := by
  induction n generalizing node with
  | zero =>
      cases node with
      | nil => rfl
      | node full zero one => cases hleaf
  | succ n ih =>
      cases node with
      | nil => rfl
      | node full zero one =>
          rw [leaf_mod] at hleaf
          rw [freeIp, show reqIp.getLsbD n = reqIp.toNat.testBit n from rfl]
          by_cases hbit : reqIp.toNat.testBit n = true
          · rw [if_pos hbit] at hleaf
            rw [if_pos hbit, ih hleaf]
            rfl
          · rw [if_neg hbit] at hleaf
            rw [if_neg hbit, ih hleaf]
            rfl

/-! ## Counting -/

theorem countOccupied_eq (hn : n ≤ 32) (hs : Sound n node) :
    countOccupied node (BitVec.ofNat 64 n) = (leaves n node true).card := by
  induction n generalizing node with
  | zero =>
      cases node with
      | nil => rw [leaves_nil]; rfl
      | node full zero one =>
          obtain ⟨rfl, rfl⟩ := hs
          cases full <;> rfl
  | succ n ih =>
      cases node with
      | nil => rw [leaves_nil]; rfl
      | node full zero one =>
          obtain ⟨-, hzero, hone⟩ := hs
          have hpred : BitVec.ofNat 64 (n + 1) - 1 = BitVec.ofNat 64 n := by
            rw [BitVec.ofNat_add]
            exact BitVec.add_sub_cancel ..
          -- only at a leaf a mark counts
          have hne : BitVec.ofNat 64 (n + 1) ≠ 0 := by
            intro heq
            have heq' := congrArg BitVec.toNat heq
            rw [BitVec.toNat_ofNat] at heq'
            have hzero : BitVec.toNat (0 : BitVec 64) = 0 := rfl
            omega
          rw [countOccupied, if_neg fun h => hne h.1, hpred, ih (by omega) hzero, ih (by omega) hone, leaves_card]

/-! ## The first trie -/

theorem sound_runner (b : Bool) (k : Nat) : Sound k (runner b k) := by
  induction k with
  | zero => exact ⟨rfl, rfl⟩
  | succ k ih =>
      cases b with
      | false => exact ⟨(Bool.and_false _).symm, ih, sound_nil k⟩
      | true => exact ⟨rfl, sound_nil k, ih⟩

theorem leaf_runner_zero (k : Nat) (hlt : h < 2 ^ k) :
    leaf k (runner false k) h = if h = 0 then some true else none := by
  induction k with
  | zero =>
      rw [Nat.lt_one_iff.mp hlt]
      rfl
  | succ k ih =>
      show leaf (k + 1) (.node false (runner false k) .nil) h = _
      by_cases hleft : h < 2 ^ k
      · rw [leaf_left hleft]
        exact ih hleft
      · have hpos := Nat.two_pow_pos k
        rw [leaf_not_left hleft, leaf_nil, if_neg (by omega)]

theorem leaf_runner_one (k : Nat) (hlt : h < 2 ^ k) :
    leaf k (runner true k) h = if h + 1 = 2 ^ k then some true else none := by
  induction k generalizing h with
  | zero =>
      rw [Nat.lt_one_iff.mp hlt]
      rfl
  | succ k ih =>
      show leaf (k + 1) (.node false .nil (runner true k)) h = _
      have hpos := Nat.two_pow_pos k
      by_cases hleft : h < 2 ^ k
      · rw [leaf_left hleft, leaf_nil, if_neg (by omega)]
      · rw [leaf_not_left hleft, ih (by omega)]
        by_cases hlast : h + 1 = 2 ^ (k + 1)
        · rw [if_pos hlast, if_pos (by omega)]
        · rw [if_neg hlast, if_neg (by omega)]

/-- The first and the last host are reserved, and no other leaf is there. -/
theorem leaf_dhcpInit (hn : n ≠ 0) (hlt : h < 2 ^ n) :
    leaf n (dhcpInit n) h = if h = 0 ∨ h + 1 = 2 ^ n then some true else none := by
  obtain ⟨k, rfl⟩ := Nat.exists_eq_succ_of_ne_zero hn
  show leaf (k + 1) (.node false (runner false k) (runner true k)) h = _
  have hpos := Nat.two_pow_pos k
  -- the first host is at the end of one runner, the last one at the end of the other
  by_cases hleft : h < 2 ^ k
  · rw [leaf_left hleft, leaf_runner_zero k hleft]
    by_cases hzero : h = 0
    · rw [if_pos hzero, if_pos (.inl hzero)]
    · rw [if_neg hzero, if_neg (by omega)]
  · rw [leaf_not_left hleft, leaf_runner_one k (by omega)]
    by_cases hlast : h + 1 = 2 ^ (k + 1)
    · rw [if_pos (by omega), if_pos (.inr hlast)]
    · rw [if_neg (by omega), if_neg (by omega)]

theorem sound_dhcpInit (k : Nat) : Sound (k + 2) (dhcpInit (k + 2)) :=
  ⟨rfl, sound_runner false (k + 1), sound_runner true (k + 1)⟩

end Workbench.Dhcp
