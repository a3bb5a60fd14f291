import Mathlib.Tactic.Common
import Workbench.Lib.While
import Workbench.Lib.Words

/-!
# `Buffer.BitsArr` — `BitsArrMirror` and `BitsArrCountOn`, with and without a table

An index outside of a table gives no result. The loop of `BitsArrCountOn` has fuel.

## Contents
* `getLsbD_bitsArrMirror`, `getLsbD_bitsArrMirrorLut` — where a bit goes in the network and in the table's loop;
* `bitsArrCountOn_eq`, `bitsArrCountOnLut_eq` — what the two loops count;
* `bitsArr_agree` — both pairs agree.
-/

namespace Workbench.BitsArr

open Words

/-- `bit_array_t`. -/
abbrev BitArray := BitVec 64

def sizeOfBitArray : Nat := 64

def allNibbleOn : BitArray := 0xf

/-! ## The functions -/

def bitsArrMirror (arr : BitArray) : BitArray :=
  let arr := arr >>> (sizeOfBitArray / 2) ||| arr <<< (sizeOfBitArray / 2)
  let arr := (arr &&& 0xFFFF0000FFFF0000) >>> (sizeOfBitArray / 4) |||
    (arr &&& 0x0000FFFF0000FFFF) <<< (sizeOfBitArray / 4)
  let arr := (arr &&& 0xFF00FF00FF00FF00) >>> (sizeOfBitArray / 8) |||
    (arr &&& 0x00FF00FF00FF00FF) <<< (sizeOfBitArray / 8)
  let arr := (arr &&& 0xF0F0F0F0F0F0F0F0) >>> (sizeOfBitArray / 16) |||
    (arr &&& 0x0F0F0F0F0F0F0F0F) <<< (sizeOfBitArray / 16)
  let arr := (arr &&& 0xCCCCCCCCCCCCCCCC) >>> (sizeOfBitArray / 32) |||
    (arr &&& 0x3333333333333333) <<< (sizeOfBitArray / 32)
  (arr &&& 0xAAAAAAAAAAAAAAAA) >>> (sizeOfBitArray / 64) |||
    (arr &&& 0x5555555555555555) <<< (sizeOfBitArray / 64)

def arrLutMirror : List BitArray := [0, 8, 4, 12, 2, 10, 6, 14, 1, 9, 5, 13, 3, 11, 7, 15]

def arrLutCount : List Nat := [0, 1, 1, 2, 1, 2, 2, 3, 1, 2, 2, 3, 2, 3, 3, 4]

/-- The locals of a loop: `i`, `arr`, and the mirrored array or the count. -/
structure Locals (α : Type) where
  i : Nat
  arr : BitArray
  result : α

def mirrorTurn (s : Locals BitArray) : Option (Locals BitArray) := do
  let entry ← arrLutMirror[(s.arr &&& allNibbleOn).toNat]?
  return ⟨s.i + 1, s.arr >>> 4, s.result <<< 4 ||| entry⟩

def bitsArrMirrorLut (arr : BitArray) : Option BitArray := do
  let s ← whileDo (fun s => some (decide (s.i < 16))) mirrorTurn 17 ⟨0, arr, 0⟩
  return s.result

def countTurn (s : Locals Nat) : Option (Locals Nat) := do
  let entry ← arrLutCount[(s.arr &&& allNibbleOn).toNat]?
  return ⟨s.i + 1, s.arr >>> 4, s.result + entry⟩

def bitsArrCountOnLut (arr : BitArray) : Option Nat := do
  let s ← whileDo (fun s => some (decide (s.i < 16))) countTurn 17 ⟨0, arr, 0⟩
  return s.result

/-- The locals are `arr` and `count`. -/
def bitsArrCountOn (fuel : Nat) (arr : BitArray) : Option Nat := do
  let s ← whileDo (fun s => some (decide (0 ≠ s.1))) (fun s => some (s.1 &&& (s.1 - 1), s.2 + 1)) fuel (arr, 0)
  return s.2

variable {arr : BitArray} {i : Nat}

/-! ## The network -/

theorem masks_16 : Masks 16 (0xFFFF0000FFFF0000 : BitArray) 0x0000FFFF0000FFFF := ⟨by decide, by decide⟩

theorem masks_8 : Masks 8 (0xFF00FF00FF00FF00 : BitArray) 0x00FF00FF00FF00FF := ⟨by decide, by decide⟩

theorem masks_4 : Masks 4 (0xF0F0F0F0F0F0F0F0 : BitArray) 0x0F0F0F0F0F0F0F0F := ⟨by decide, by decide⟩

theorem masks_2 : Masks 2 (0xCCCCCCCCCCCCCCCC : BitArray) 0x3333333333333333 := ⟨by decide, by decide⟩

theorem masks_1 : Masks 1 (0xAAAAAAAAAAAAAAAA : BitArray) 0x5555555555555555 := ⟨by decide, by decide⟩

/-- A bit comes from the levels one after the other. -/
theorem swapIndex_levels : ∀ i, i < 64 →
    swapIndex 1 i < 64 ∧ swapIndex 2 (swapIndex 1 i) < 64 ∧ swapIndex 4 (swapIndex 2 (swapIndex 1 i)) < 64 ∧
      swapIndex 8 (swapIndex 4 (swapIndex 2 (swapIndex 1 i))) < 64 ∧
      swapIndex 16 (swapIndex 8 (swapIndex 4 (swapIndex 2 (swapIndex 1 i)))) < 64 ∧
      swapIndex 32 (swapIndex 16 (swapIndex 8 (swapIndex 4 (swapIndex 2 (swapIndex 1 i))))) = 63 - i := by
  decide

theorem getLsbD_bitsArrMirror (arr : BitArray) (hi : i < 64) :
    (bitsArrMirror arr).getLsbD i = arr.getLsbD (63 - i) := by
  obtain ⟨h1, h2, h4, h8, h16, hmirror⟩ := swapIndex_levels i hi
  rw [← hmirror, ← getLsbD_swap_halves arr rfl h16, ← getLsbD_swap masks_16 (by decide) h8,
    ← getLsbD_swap masks_8 (by decide) h4, ← getLsbD_swap masks_4 (by decide) h2,
    ← getLsbD_swap masks_2 (by decide) h1, ← getLsbD_swap masks_1 (by decide) hi]
  rfl

/-! ## The table of mirrored nibbles -/

theorem getLsbD_nibble (arr : BitArray) (hi : i < 4) : (arr &&& allNibbleOn).toNat.testBit i = arr.getLsbD i := by
  have hmask : ∀ i, i < 4 → allNibbleOn.getLsbD i = true := by decide
  rw [BitVec.testBit_toNat, BitVec.getLsbD_and, hmask i hi, Bool.and_true]

theorem nibble_lt (arr : BitArray) : (arr &&& allNibbleOn).toNat < 16 := by
  rw [BitVec.toNat_and]
  exact Nat.lt_of_le_of_lt Nat.and_le_right (by decide)

theorem arrLutMirror_eq (arr : BitArray) : ∃ entry, arrLutMirror[(arr &&& allNibbleOn).toNat]? = some entry ∧
    ∀ j, j < 64 → entry.getLsbD j = (decide (j < 4) && arr.getLsbD (3 - j)) := by
  have hall : ∀ n : Fin 16, ∀ j, j < 64 →
      arrLutMirror[n.val]?.map (fun entry => entry.getLsbD j) = some (decide (j < 4) && n.val.testBit (3 - j)) := by
    decide +kernel
  have hlt : (arr &&& allNibbleOn).toNat < arrLutMirror.length := nibble_lt arr
  have hentry := List.getElem?_eq_getElem hlt
  refine ⟨_, hentry, fun j hj => ?_⟩
  have hbit := hall ⟨_, nibble_lt arr⟩ j hj
  rw [hentry, Option.map_some, getLsbD_nibble arr (by omega)] at hbit
  exact Option.some.inj hbit

/-- The nibbles that are mirrored so far. -/
structure Mirrored (arr : BitArray) (s : Locals BitArray) : Prop where
  shifted : s.arr = arr >>> (4 * s.i)
  result (j : Nat) : j < 64 → s.result.getLsbD j = (decide (j < 4 * s.i) && arr.getLsbD (4 * s.i - 1 - j))

theorem mirrorTurn_mirrored (s : Locals BitArray) (h : Mirrored arr s) :
    ∃ s', mirrorTurn s = some s' ∧ Mirrored arr s' ∧ s'.i = s.i + 1 := by
  obtain ⟨entry, hentry, hbits⟩ := arrLutMirror_eq s.arr
  refine ⟨⟨s.i + 1, s.arr >>> 4, s.result <<< 4 ||| entry⟩, ?_, ⟨?_, fun j hj => ?_⟩, rfl⟩
  · rw [mirrorTurn, hentry]
    rfl
  · rw [h.shifted]
    exact (BitVec.shiftRight_add arr (4 * s.i) 4).symm
  show (s.result <<< 4 ||| entry).getLsbD j = (decide (j < 4 * (s.i + 1)) && arr.getLsbD (4 * (s.i + 1) - 1 - j))
  rw [BitVec.getLsbD_or, BitVec.getLsbD_shiftLeft, decide_eq_true hj, Bool.true_and, hbits j hj, h.shifted,
    BitVec.getLsbD_ushiftRight]
  by_cases hlow : j < 4
  · have hfrom : 4 * s.i + (3 - j) = 4 * (s.i + 1) - 1 - j := by omega
    rw [decide_eq_true hlow, decide_eq_true (by omega), hfrom]
    rfl
  · have hfrom : 4 * s.i - 1 - (j - 4) = 4 * (s.i + 1) - 1 - j := by omega
    have hbelow : decide (j - 4 < 4 * s.i) = decide (j < 4 * (s.i + 1)) := decide_eq_decide.mpr (by omega)
    rw [decide_eq_false hlow, h.result _ (by omega), hbelow, hfrom, Bool.false_and, Bool.or_false]
    rfl

theorem getLsbD_bitsArrMirrorLut (arr : BitArray) :
    ∃ mirror, bitsArrMirrorLut arr = some mirror ∧ ∀ i, i < 64 → mirror.getLsbD i = arr.getLsbD (63 - i) := by
  have hinit : Mirrored arr ⟨0, arr, 0⟩ := ⟨rfl, fun j _ => by simp⟩
  obtain ⟨s, hloop, hmirrored, hi⟩ := whileDo_upTo mirrorTurn (Mirrored arr) Locals.i 16
    (fun s h _ => mirrorTurn_mirrored s h) hinit (Nat.zero_le 16) (by decide : 16 - 0 < 17)
  refine ⟨s.result, by rw [bitsArrMirrorLut, hloop]; rfl, fun i hlt => ?_⟩
  rw [hmirrored.result i hlt, hi, decide_eq_true hlt]
  rfl

/-- **The network and the table.** -/
theorem bitsArrMirrorLut_eq (arr : BitArray) : bitsArrMirrorLut arr = some (bitsArrMirror arr) := by
  obtain ⟨mirror, hlut, hbits⟩ := getLsbD_bitsArrMirrorLut arr
  have hmirror : mirror = bitsArrMirror arr :=
    BitVec.eq_of_getLsbD_eq fun i hi => by rw [hbits i hi, getLsbD_bitsArrMirror arr hi]
  rw [hlut, hmirror]

theorem bitsArrMirror_bitsArrMirror (arr : BitArray) : bitsArrMirror (bitsArrMirror arr) = arr :=
  BitVec.eq_of_getLsbD_eq fun i hi => by
    rw [getLsbD_bitsArrMirror _ hi, getLsbD_bitsArrMirror _ (by omega), show 63 - (63 - i) = i by omega]

/-! ## Counting -/

/-- The number of bits that are 1. -/
def ones (arr : BitArray) : Nat := (List.range 64).countP arr.getLsbD

theorem bitsArrCountOn_eq (arr : BitArray) {fuel : Nat} (hfuel : ones arr < fuel) :
    bitsArrCountOn fuel arr = some (ones arr) := by
  have hturn : ∀ s : BitArray × Nat, s.2 + s.1.cpop.toNat = ones arr →
      some (decide (0 ≠ s.1)) = some false ∨ some (decide (0 ≠ s.1)) = some true ∧
        ∃ s' : BitArray × Nat, some (s.1 &&& (s.1 - 1), s.2 + 1) = some s' ∧ s'.2 + s'.1.cpop.toNat = ones arr ∧
          s'.1.cpop.toNat < s.1.cpop.toNat := by
    intro s hcount
    by_cases hzero : 0 = s.1
    · exact .inl (by rw [decide_eq_false (not_not_intro hzero)])
    · -- the lowest bit goes
      have hless := cpop_and_sub_one (Ne.symm hzero)
      refine .inr ⟨by rw [decide_eq_true hzero], _, rfl, ?_, ?_⟩
      · show s.2 + 1 + (s.1 &&& (s.1 - 1)).cpop.toNat = ones arr
        omega
      · show (s.1 &&& (s.1 - 1)).cpop.toNat < s.1.cpop.toNat
        omega
  have hinit : 0 + arr.cpop.toNat = ones arr := by
    rw [Nat.zero_add]
    exact toNat_cpop_eq arr
  have hlt : arr.cpop.toNat < fuel := Nat.lt_of_le_of_lt (Nat.le_of_eq (toNat_cpop_eq arr)) hfuel
  obtain ⟨s, hloop, hcount, hend⟩ := whileDo_ends (fun s => some (decide (0 ≠ s.1)))
    (fun s => some (s.1 &&& (s.1 - 1), s.2 + 1)) (fun s : BitArray × Nat => s.2 + s.1.cpop.toNat = ones arr)
    (fun s => s.1.cpop.toNat) hturn (s := (arr, 0)) hinit hlt
  have hzero : 0 = s.1 := not_not.mp (of_decide_eq_false (Option.some.inj hend))
  have hnone : s.1.cpop.toNat = 0 := by
    rw [← hzero]
    exact congrArg BitVec.toNat BitVec.cpop_zero
  rw [bitsArrCountOn, hloop, ← hcount, hnone]
  rfl

theorem arrLutCount_eq (arr : BitArray) :
    arrLutCount[(arr &&& allNibbleOn).toNat]? = some ((List.range 4).countP arr.getLsbD) := by
  have hall : ∀ n : Fin 16, arrLutCount[n.val]? = some ((List.range 4).countP n.val.testBit) := by decide
  rw [hall ⟨_, nibble_lt arr⟩]
  exact congrArg some (List.countP_congr fun i hi => by rw [getLsbD_nibble arr (List.mem_range.mp hi)])

/-- What is counted and what is left. -/
def Counted (arr : BitArray) (s : Locals Nat) : Prop :=
  s.arr = arr >>> (4 * s.i) ∧ s.result + s.arr.cpop.toNat = ones arr

theorem countTurn_counted (s : Locals Nat) (h : Counted arr s) :
    ∃ s', countTurn s = some s' ∧ Counted arr s' ∧ s'.i = s.i + 1 := by
  obtain ⟨harr, hcount⟩ := h
  refine ⟨⟨s.i + 1, s.arr >>> 4, s.result + (List.range 4).countP s.arr.getLsbD⟩, ?_, ⟨?_, ?_⟩, rfl⟩
  · rw [countTurn, arrLutCount_eq]
    rfl
  · rw [harr]
    exact (BitVec.shiftRight_add arr (4 * s.i) 4).symm
  · show s.result + (List.range 4).countP s.arr.getLsbD + (s.arr >>> 4).cpop.toNat = ones arr
    rw [Nat.add_assoc, ← cpop_split s.arr (by decide : 4 ≤ 64), hcount]

theorem bitsArrCountOnLut_eq (arr : BitArray) : bitsArrCountOnLut arr = some (ones arr) := by
  have hinit : Counted arr ⟨0, arr, 0⟩ := ⟨rfl, by rw [Nat.zero_add, toNat_cpop_eq]; rfl⟩
  obtain ⟨s, hloop, ⟨harr, hcount⟩, hi⟩ := whileDo_upTo countTurn (Counted arr) Locals.i 16
    (fun s h _ => countTurn_counted s h) hinit (Nat.zero_le 16) (by decide : 16 - 0 < 17)
  have hnone : s.arr.cpop.toNat = 0 := by
    rw [harr, hi, BitVec.ushiftRight_eq_zero (by decide), BitVec.cpop_zero]
    rfl
  rw [bitsArrCountOnLut, hloop, ← hcount, hnone]
  rfl

/-- **The tables and the arithmetic agree.** -/
theorem bitsArr_agree (arr : BitArray) :
    bitsArrMirrorLut arr = some (bitsArrMirror arr) ∧
      (∀ i, i < 64 → (bitsArrMirror arr).getLsbD (63 - i) = arr.getLsbD i) ∧
      bitsArrMirror (bitsArrMirror arr) = arr ∧
      (∀ fuel, 64 < fuel → bitsArrCountOn fuel arr = some (ones arr)) ∧
      bitsArrCountOnLut arr = some (ones arr) := by
  refine ⟨bitsArrMirrorLut_eq arr, fun i hi => ?_, bitsArrMirror_bitsArrMirror arr, fun fuel hfuel => ?_,
    bitsArrCountOnLut_eq arr⟩
  · rw [getLsbD_bitsArrMirror arr (by omega), show 63 - (63 - i) = i by omega]
  · have hle : ones arr ≤ 64 := Nat.le_trans List.countP_le_length (Nat.le_of_eq List.length_range)
    exact bitsArrCountOn_eq arr (Nat.lt_of_le_of_lt hle hfuel)

end Workbench.BitsArr
