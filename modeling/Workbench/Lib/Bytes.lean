import Mathlib.Tactic.Common

/-!
# `Lib.Bytes` — memory as bytes, and words in it

A memory has a byte at every address. A word is eight bytes, the least significant first, at any address.

## Main results
* `load_store` — what was stored is loaded;
* `load_congr` — a load depends on eight bytes only;
* `store_outside` — a store changes eight bytes only;
* `SameOutside` — memories that differ in a range only.
-/

namespace Workbench

/-- A byte at every address. -/
abbrev Mem := Nat → BitVec 8

namespace Mem

variable {m m' : Mem} {a b k v : Nat}

def setByte (m : Mem) (a : Nat) (x : BitVec 8) : Mem := fun b => if b = a then x else m b

@[simp] theorem setByte_self (m : Mem) (a : Nat) (x : BitVec 8) : m.setByte a x a = x := if_pos rfl

@[simp] theorem setByte_ne (m : Mem) (x : BitVec 8) (h : b ≠ a) : m.setByte a x b = m b := if_neg h

/-! ## Numbers of `k` bytes -/

/-- The number in the `k` bytes from `a`. -/
def readBytes (m : Mem) (a : Nat) : Nat → Nat
  | 0 => 0
  | k + 1 => (m a).toNat + 256 * readBytes m (a + 1) k

/-- The last `k` bytes of a number, from `a`. -/
def writeBytes (m : Mem) (a : Nat) : Nat → Nat → Mem
  | 0, _ => m
  | k + 1, v => writeBytes (m.setByte a (BitVec.ofNat 8 v)) (a + 1) k (v / 256)

/-- The numbers of `k` bytes are those below this one. -/
def byteLimit : Nat → Nat
  | 0 => 1
  | k + 1 => 256 * byteLimit k

theorem readBytes_congr (h : ∀ i, i < k → m (a + i) = m' (a + i)) : readBytes m a k = readBytes m' a k := by
  induction k generalizing a with
  | zero => rfl
  | succ k ih =>
      have hfirst : m a = m' a := h 0 (by omega)
      have hrest : readBytes m (a + 1) k = readBytes m' (a + 1) k := by
        apply ih
        intro i hi
        rw [Nat.add_right_comm, Nat.add_assoc]
        exact h (i + 1) (by omega)
      rw [readBytes, readBytes, hfirst, hrest]

theorem writeBytes_outside (h : b < a ∨ a + k ≤ b) : writeBytes m a k v b = m b := by
  induction k generalizing m a v with
  | zero => rfl
  | succ k ih =>
      rw [writeBytes, ih (by omega)]
      exact setByte_ne m _ (by omega)

theorem readBytes_writeBytes : readBytes (writeBytes m a k v) a k = v % byteLimit k := by
  induction k generalizing m a v with
  | zero => exact (Nat.mod_one v).symm
  | succ k ih =>
      have hfirst : writeBytes m a (k + 1) v a = BitVec.ofNat 8 v := by
        rw [writeBytes, writeBytes_outside (by omega)]
        exact setByte_self ..
      rw [readBytes, hfirst, writeBytes, ih, byteLimit, Nat.mod_mul, BitVec.toNat_ofNat]

theorem readBytes_lt (m : Mem) (a k : Nat) : m.readBytes a k < byteLimit k := by
  induction k generalizing a with
  | zero => exact Nat.zero_lt_one
  | succ k ih =>
      have hfirst : (m a).toNat < 256 := (m a).isLt
      have hrest := ih (a + 1)
      rw [readBytes, byteLimit]
      omega

theorem byteLimit_le {l : Nat} (h : k ≤ l) : byteLimit k ≤ byteLimit l := by
  induction h with
  | refl => exact Nat.le_refl _
  | step _ ih =>
      refine Nat.le_trans ih ?_
      rw [byteLimit]
      omega

/-- A byte again and again is the same number everywhere. -/
theorem readBytes_const (x : BitVec 8) (a b k : Nat) : readBytes (fun _ => x) a k = readBytes (fun _ => x) b k := by
  induction k generalizing a b with
  | zero => rfl
  | succ k ih => rw [readBytes, readBytes, ih (a + 1) (b + 1)]

/-- The bytes of a number that was read. -/
theorem writeBytes_readBytes {i : Nat} (hi : i < k) : m.writeBytes a k (m'.readBytes b k) (a + i) = m' (b + i) := by
  induction k generalizing m a b i with
  | zero => exact absurd hi (Nat.not_lt_zero i)
  | succ k ih =>
      rw [writeBytes, readBytes]
      cases i with
      | zero =>
          rw [writeBytes_outside (by omega)]
          show m.setByte a _ a = m' b
          rw [setByte_self]
          refine BitVec.eq_of_toNat_eq ?_
          rw [BitVec.toNat_ofNat, show 2 ^ 8 = 256 from rfl, Nat.add_mul_mod_self_left]
          exact Nat.mod_eq_of_lt (m' b).isLt
      | succ i =>
          have hbyte : (m' b).toNat / 256 = 0 := Nat.div_eq_of_lt (m' b).isLt
          rw [Nat.add_mul_div_left _ _ (by omega), hbyte, Nat.zero_add, ← Nat.add_assoc, Nat.add_right_comm,
            ih (Nat.lt_of_succ_lt_succ hi), Nat.add_right_comm, Nat.add_assoc]

/-! ## Words -/

/-- The word at `a`. -/
def load (m : Mem) (a : Nat) : BitVec 64 := BitVec.ofNat 64 (m.readBytes a 8)

def store (m : Mem) (a : Nat) (w : BitVec 64) : Mem := m.writeBytes a 8 w.toNat

theorem load_store (m : Mem) (a : Nat) (w : BitVec 64) : (m.store a w).load a = w := by
  unfold load store
  rw [readBytes_writeBytes]
  apply BitVec.eq_of_toNat_eq
  show w.toNat % 18446744073709551616 % 18446744073709551616 = w.toNat
  have hlt : w.toNat < 18446744073709551616 := w.isLt
  omega

/-- A word that was loaded is stored byte by byte. -/
theorem store_load {i : Nat} (hi : i < 8) : m.store a (m'.load b) (a + i) = m' (b + i) := by
  have hword : (m'.load b).toNat = m'.readBytes b 8 := by
    rw [load, BitVec.toNat_ofNat]
    exact Nat.mod_eq_of_lt (readBytes_lt m' b 8)
  rw [store, hword]
  exact writeBytes_readBytes hi

theorem store_outside (w : BitVec 64) (h : b < a ∨ a + 8 ≤ b) : m.store a w b = m b := writeBytes_outside h

/-- A load depends on the eight bytes of the word only. -/
theorem load_congr (h : ∀ b, a ≤ b → b < a + 8 → m b = m' b) : m.load a = m'.load a := by
  unfold load
  rw [readBytes_congr]
  intro i hi
  exact h (a + i) (by omega) (by omega)

theorem load_store_ne (w : BitVec 64) (h : b + 8 ≤ a ∨ a + 8 ≤ b) : (m.store a w).load b = m.load b := by
  apply load_congr
  intro c hc hc'
  exact store_outside w (by omega)

theorem load_setByte_ne (x : BitVec 8) (h : b < a ∨ a + 8 ≤ b) : (m.setByte b x).load a = m.load a := by
  apply load_congr
  intro c hc hc'
  exact setByte_ne m x (by omega)

/-! ## Words as natural numbers -/

/-- The word at `a`, without sign. -/
def readWord (m : Mem) (a : Nat) : Nat := (m.load a).toNat

def writeWord (m : Mem) (a n : Nat) : Mem := m.store a (BitVec.ofNat 64 n)

/-- The words without sign are those below this one. -/
def wordLimit : Nat := 18446744073709551616

theorem readWord_writeWord {n : Nat} (hn : n < wordLimit) : (m.writeWord a n).readWord a = n := by
  unfold readWord writeWord
  rw [load_store, BitVec.toNat_ofNat]
  exact Nat.mod_eq_of_lt hn

theorem readWord_writeWord_ne {n : Nat} (h : b + 8 ≤ a ∨ a + 8 ≤ b) : (m.writeWord a n).readWord b = m.readWord b := by
  unfold readWord writeWord
  rw [load_store_ne _ h]

theorem readWord_setByte_ne (x : BitVec 8) (h : b < a ∨ a + 8 ≤ b) : (m.setByte b x).readWord a = m.readWord a := by
  unfold readWord
  rw [load_setByte_ne x h]

/-! ## Changes in a range -/

/-- The memories differ between `lo` and `hi` only. -/
def SameOutside (lo hi : Nat) (m m' : Mem) : Prop := ∀ b, b < lo ∨ hi ≤ b → m b = m' b

namespace SameOutside

variable {lo hi lo' hi' : Nat} {m'' : Mem}

theorem refl (lo hi : Nat) (m : Mem) : SameOutside lo hi m m := fun _ _ => rfl

theorem trans (h : SameOutside lo hi m m') (h' : SameOutside lo hi m' m'') : SameOutside lo hi m m'' :=
  fun b hb => (h b hb).trans (h' b hb)

theorem mono (h : SameOutside lo hi m m') (hlo : lo' ≤ lo) (hhi : hi ≤ hi') : SameOutside lo' hi' m m' := by
  intro b hb
  apply h
  omega

theorem store (m : Mem) (w : BitVec 64) (hlo : lo ≤ a) (hhi : a + 8 ≤ hi) : SameOutside lo hi m (m.store a w) := by
  intro b hb
  exact (store_outside w (by omega)).symm

theorem setByte (m : Mem) (x : BitVec 8) (hlo : lo ≤ a) (hhi : a < hi) : SameOutside lo hi m (m.setByte a x) := by
  intro b hb
  exact (setByte_ne m x (by omega)).symm

theorem load (h : SameOutside lo hi m m') (ha : a + 8 ≤ lo ∨ hi ≤ a) : m.load a = m'.load a := by
  apply load_congr
  intro b hb hb'
  exact h b (by omega)

end SameOutside

end Mem

end Workbench
