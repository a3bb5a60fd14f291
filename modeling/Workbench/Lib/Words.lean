import Mathlib.Tactic.Common

/-!
# `Lib.Words` — the bits of a word, moved and counted

Two masks with alternating blocks of bits swap the blocks. The lowest bit that is 1 is cleared by an `and` with the word
before.

## Main results
* `getLsbD_swap`, `getLsbD_swap_halves` — the bits after a swap;
* `cpop_and_sub_one` — one bit less;
* `cpop_split` — the bits of a word in two parts.
-/

namespace Workbench.Words

variable {w s : Nat} {x hi lo : BitVec w}

/-! ## Swaps -/

/-- Where a bit comes from when blocks of a size are swapped. -/
def swapIndex (s i : Nat) : Nat := if i / s % 2 = 0 then i + s else i - s

/-- The masks of the blocks that go down and of those that go up. -/
structure Masks (s : Nat) (hi lo : BitVec w) : Prop where
  hi (i : Nat) : i < w → hi.getLsbD i = decide (i / s % 2 = 1)
  lo (i : Nat) : i < w → lo.getLsbD i = decide (i / s % 2 = 0)

/-- A mask matters below the width only. -/
theorem getLsbD_and_mask {mask : BitVec w} {p : Nat → Bool} (hmask : ∀ i, i < w → mask.getLsbD i = p i) (i : Nat) :
    (x &&& mask).getLsbD i = (x.getLsbD i && p i) := by
  rw [BitVec.getLsbD_and]
  rcases Nat.lt_or_ge i w with hlt | hge
  · rw [hmask i hlt]
  · rw [BitVec.getLsbD_of_ge x i hge, Bool.false_and, Bool.false_and]

/-- **A swap of blocks.** -/
theorem getLsbD_swap (hmasks : Masks s hi lo) (hs : 0 < s) {i : Nat} (hlt : i < w) :
    ((x &&& hi) >>> s ||| (x &&& lo) <<< s).getLsbD i = x.getLsbD (swapIndex s i) := by
  have hup : (s + i) / s = i / s + 1 := Nat.add_div_left i hs
  have hdown : s ≤ i → i / s = (i - s) / s + 1 := fun hle => by rw [← Nat.add_div_right _ hs, Nat.sub_add_cancel hle]
  rw [BitVec.getLsbD_or, BitVec.getLsbD_ushiftRight, BitVec.getLsbD_shiftLeft, getLsbD_and_mask hmasks.hi,
    getLsbD_and_mask hmasks.lo, decide_eq_true hlt, Bool.true_and, hup, swapIndex]
  by_cases heven : i / s % 2 = 0
  · -- from above, where the block is odd
    have hbelow : (!decide (i < s) && (x.getLsbD (i - s) && decide ((i - s) / s % 2 = 0))) = false := by
      by_cases hle : s ≤ i
      · have hodd := hdown hle
        rw [decide_eq_false (p := (i - s) / s % 2 = 0) (by omega), Bool.and_false, Bool.and_false]
      · rw [decide_eq_true (Nat.not_le.mp hle)]
        rfl
    rw [if_pos heven, hbelow, Bool.or_false, decide_eq_true (by omega), Bool.and_true, Nat.add_comm]
  · have hle : s ≤ i := by
      by_contra hless
      exact heven (by rw [Nat.div_eq_of_lt (Nat.not_le.mp hless)])
    have hodd := hdown hle
    rw [if_neg heven, decide_eq_false (p := (i / s + 1) % 2 = 1) (by omega), Bool.and_false, Bool.false_or,
      decide_eq_false (Nat.not_lt.mpr hle), decide_eq_true (by omega), Bool.and_true]
    rfl

/-- The two halves need no masks. -/
theorem getLsbD_swap_halves (x : BitVec w) (hw : w = s + s) {i : Nat} (hlt : i < w) :
    (x >>> s ||| x <<< s).getLsbD i = x.getLsbD (swapIndex s i) := by
  rw [BitVec.getLsbD_or, BitVec.getLsbD_ushiftRight, BitVec.getLsbD_shiftLeft, decide_eq_true hlt, Bool.true_and,
    swapIndex]
  by_cases hlow : i < s
  · rw [Nat.div_eq_of_lt hlow, if_pos rfl, decide_eq_true hlow, Nat.add_comm]
    exact Bool.or_false _
  · have hone : i / s = 1 := Nat.div_eq_of_lt_le (by omega) (by omega)
    rw [hone, if_neg (by decide), decide_eq_false hlow, BitVec.getLsbD_of_ge x (s + i) (by omega)]
    rfl

/-! ## Counts -/

theorem exists_concat (x : BitVec (w + 1)) : ∃ (y : BitVec w) (b : Bool), x = y.concat b := by
  refine ⟨(x >>> 1).setWidth w, x.getLsbD 0, ?_⟩
  refine BitVec.eq_of_getLsbD_eq fun i hi => ?_
  cases i with
  | zero => rw [BitVec.getLsbD_concat_zero]
  | succ i =>
      rw [BitVec.getLsbD_concat_succ, BitVec.getLsbD_setWidth, BitVec.getLsbD_ushiftRight,
        decide_eq_true (Nat.lt_of_succ_lt_succ hi), Bool.true_and]
      exact congrArg x.getLsbD (Nat.add_comm i 1)

theorem concat_true_sub_one (y : BitVec w) : y.concat true - 1 = y.concat false := by
  apply BitVec.eq_of_toNat_eq
  have hone : (1 : BitVec (w + 1)).toNat = 1 := BitVec.toNat_one (Nat.succ_pos w)
  have hle : (1 : BitVec (w + 1)) ≤ y.concat true := by
    rw [BitVec.le_def, hone, BitVec.toNat_concat, Bool.toNat_true]
    omega
  rw [BitVec.toNat_sub_of_le hle, hone, BitVec.toNat_concat, BitVec.toNat_concat]
  rfl

theorem concat_false_sub_one {y : BitVec w} (hy : y ≠ 0) : y.concat false - 1 = (y - 1).concat true := by
  have hpos : 0 < y.toNat := Nat.pos_of_ne_zero fun hzero => hy (BitVec.eq_of_toNat_eq hzero)
  have hw : 0 < w := by
    by_contra hzero
    obtain rfl := Nat.le_zero.mp (Nat.not_lt.mp hzero)
    exact hy (BitVec.eq_nil y)
  apply BitVec.eq_of_toNat_eq
  have hone : (1 : BitVec (w + 1)).toNat = 1 := BitVec.toNat_one (Nat.succ_pos w)
  have hone' : (1 : BitVec w).toNat = 1 := BitVec.toNat_one hw
  have hle : (1 : BitVec (w + 1)) ≤ y.concat false := by
    rw [BitVec.le_def, hone, BitVec.toNat_concat]
    omega
  have hle' : (1 : BitVec w) ≤ y := by
    rw [BitVec.le_def, hone']
    exact hpos
  rw [BitVec.toNat_sub_of_le hle, BitVec.toNat_concat, BitVec.toNat_concat, BitVec.toNat_sub_of_le hle', hone, hone',
    Bool.toNat_false, Bool.toNat_true]
  omega

/-- **One bit less.** -/
theorem cpop_and_sub_one (hx : x ≠ 0) : (x &&& (x - 1)).cpop.toNat + 1 = x.cpop.toNat := by
  induction w with
  | zero => exact absurd (BitVec.eq_nil x) hx
  | succ w ih =>
      obtain ⟨y, b, rfl⟩ := exists_concat x
      cases b with
      | true =>
          rw [concat_true_sub_one, BitVec.concat_and_concat, BitVec.and_self, BitVec.toNat_cpop_concat,
            BitVec.toNat_cpop_concat]
          simp [Nat.add_comm]
      | false =>
          have hy : y ≠ 0 := by
            rintro rfl
            exact hx (BitVec.eq_of_toNat_eq (by rw [BitVec.toNat_concat]; rfl))
          rw [concat_false_sub_one hy, BitVec.concat_and_concat, BitVec.toNat_cpop_concat, BitVec.toNat_cpop_concat]
          simpa using ih hy

/-- The bits that are 1, one after the other. -/
theorem toNat_cpop_eq (x : BitVec w) : x.cpop.toNat = (List.range w).countP x.getLsbD := by
  have hrec : ∀ n acc, x.cpopNatRec n acc = acc + (List.range n).countP x.getLsbD := by
    intro n
    induction n with
    | zero => exact fun acc => rfl
    | succ n ih =>
        intro acc
        rw [BitVec.cpopNatRec_succ, ih, List.range_succ, List.countP_append, List.countP_singleton]
        cases x.getLsbD n
        · rfl
        · exact Nat.add_right_comm acc 1 _
  rw [BitVec.toNat_cpop, hrec, Nat.zero_add]

/-- **The low bits and the others.** -/
theorem cpop_split (x : BitVec w) (hs : s ≤ w) :
    x.cpop.toNat = (List.range s).countP x.getLsbD + (x >>> s).cpop.toNat := by
  have hhigh : ((List.range s).map (w - s + ·)).countP (x >>> s).getLsbD = 0 := by
    rw [List.countP_map, List.countP_eq_zero]
    intro i _
    show ¬ (x >>> s).getLsbD (w - s + i) = true
    rw [BitVec.getLsbD_ushiftRight, BitVec.getLsbD_of_ge x _ (by omega)]
    exact Bool.false_ne_true
  have hrange : (List.range w).countP (x >>> s).getLsbD = (List.range (w - s)).countP (x >>> s).getLsbD := by
    have hsplit : List.range w = List.range (w - s) ++ (List.range s).map (w - s + ·) := by
      rw [← List.range_add, Nat.sub_add_cancel hs]
    rw [hsplit, List.countP_append, hhigh, Nat.add_zero]
  have hx : List.range w = List.range s ++ (List.range (w - s)).map (s + ·) := by
    rw [← List.range_add, Nat.add_sub_cancel' hs]
  rw [toNat_cpop_eq, toNat_cpop_eq, hrange, hx, List.countP_append, List.countP_map]
  congr 1
  refine List.countP_congr fun i _ => ?_
  show x.getLsbD (s + i) = true ↔ _
  rw [BitVec.getLsbD_ushiftRight]

end Workbench.Words
