import Workbench.Alloc.Fsa

/-!
# `Alloc.FsaSizes` — the sizes that `FSAInit` gets

The check of `FSAInit` compares with a sum of 64 bits, and divides by a size of 64 bits. For a block size near the
largest one the first wraps around, or the second is 0.

## Main results
* `fsaSuggestSize_eq` — `FSASuggestSize` is the true size, up to the wraparound;
* `init_suggested` — a pool of the suggested size has the blocks that were asked for;
* `init_safe_iff` — for which sizes `FSAInit` does not fail, and keeps all blocks in the pool.
-/

namespace Workbench.Fsa

variable {M size n : Nat} {m m' : Mem}

/-- The division goes well, and a pool that is returned has room for its blocks. -/
def Safe (M size : Nat) : Prop :=
  ∀ m, fsaInit m M size ≠ .error .divisionByZero ∧
    ∀ m', fsaInit m M size = .ok (some m') → structSize + roundUp size ≤ M ∧
      ∃ fs, Linked m' (nextFree m') fs ∧ fs.length = numOfFreeBlocks m' ∧ ∀ f ∈ fs, f + blockSize m' ≤ M

/-- A pool of the suggested size has `n` free blocks. -/
def Suggested (size n : Nat) : Prop :=
  ∀ m, ∃ m', fsaInit m (fsaSuggestSize size n) size = .ok (some m') ∧ fsaCountFree m' = n ∧
    ∃ fs, Linked m' (nextFree m') fs ∧ fs.length = n

/-! ## The arithmetic -/

theorem fsaSuggestSize_eq : fsaSuggestSize size n = (structSize + roundUp size * n) % Mem.wordLimit := by
  unfold fsaSuggestSize calculateBlockSize
  rw [Nat.add_mod, Nat.mod_mul_mod, ← Nat.add_mod]

theorem fsaSuggestSize_one : fsaSuggestSize size 1 = (structSize + roundUp size) % Mem.wordLimit := by
  rw [fsaSuggestSize_eq, Nat.mul_one]

/-- What `FSAInit` does behind its check. -/
theorem fsaInit_enough (hsize : 0 < size) (henough : fsaSuggestSize size 1 ≤ M) :
    fsaInit m M size = .error .divisionByZero ∧ calculateBlockSize size = 0 ∨
      ∃ m', fsaInit m M size = .ok (some m') ∧ calculateBlockSize size ≠ 0 := by
  unfold fsaInit
  rw [if_neg (Nat.ne_of_gt hsize), if_neg (Nat.not_lt.mpr henough)]
  by_cases hzero : calculateBlockSize size = 0
  · left
    exact ⟨if_pos hzero, hzero⟩
  · right
    exact ⟨_, if_neg hzero, hzero⟩

/-! ## The sizes -/

/-- Without wraparound the blocks are in the pool. -/
theorem safe_of_noWrap (hwrap : NoWrap M size) (hsize : 0 < size) : Safe M size := by
  intro m
  have hround : structSize + roundUp size < Mem.wordLimit := hwrap.1
  have hcalculate : calculateBlockSize size = roundUp size :=
    Nat.mod_eq_of_lt (Nat.lt_of_le_of_lt (Nat.le_add_left _ _) hround)
  have hpos := (roundUp_spec hsize).2
  constructor
  · intro herror
    by_cases henough : fsaSuggestSize size 1 ≤ M
    · rcases fsaInit_enough (m := m) hsize henough with ⟨-, hzero⟩ | ⟨m', hinit, -⟩
      · omega
      · rw [hinit] at herror
        cases herror
    · unfold fsaInit at herror
      rw [if_neg (Nat.ne_of_gt hsize), if_pos (Nat.not_le.mp henough)] at herror
      cases herror
  · intro m' hinit
    obtain ⟨hs, hinv⟩ := init_inv hwrap hinit
    refine ⟨hs.one, _, hinv.linked, hinv.count.symm, ?_⟩
    intro f hf
    rw [hinv.size]
    exact (bounds_of_mem hs.word (Nat.le_of_add_right_le hs.one) hf).2.2

/-- Below the size that the check compares with, null is returned. -/
theorem safe_of_small (hsize : 0 < size) (hsmall : M < fsaSuggestSize size 1) : Safe M size := by
  intro m
  have hinit : fsaInit m M size = .ok none := by
    unfold fsaInit
    rw [if_neg (Nat.ne_of_gt hsize), if_pos hsmall]
  rw [hinit]
  constructor
  · intro herror
    cases herror
  · intro m' hsome
    cases hsome

theorem safe_iff (hsize : 0 < size) (hM : M < Mem.wordLimit) :
    Safe M size ↔ structSize + roundUp size < Mem.wordLimit ∨
      M < (structSize + roundUp size) % Mem.wordLimit := by
  constructor
  · intro hsafe
    by_contra hcond
    obtain ⟨hround, henough⟩ := not_or.mp hcond
    rw [Nat.not_lt, ← fsaSuggestSize_one] at henough
    obtain ⟨hdivision, hroom⟩ := hsafe fun _ => 0
    rcases fsaInit_enough hsize henough with ⟨herror, -⟩ | ⟨m', hinit, -⟩
    · exact hdivision herror
    · -- the sum does not fit in a word, so the pool is smaller than one block
      have hone := (hroom m' hinit).1
      omega
  · rintro (hround | hsmall)
    · exact safe_of_noWrap ⟨hround, hM⟩ hsize
    · rw [← fsaSuggestSize_one] at hsmall
      exact safe_of_small hsize hsmall

/-- `FSAInit` of the suggested size succeeds with the number of blocks asked for. -/
theorem init_suggested (hsize : 0 < size) (hn : 0 < n) (hround : structSize + n * roundUp size < Mem.wordLimit) :
    Suggested size n := by
  intro m
  have hpos := (roundUp_spec hsize).2
  have hblock : roundUp size ≤ n * roundUp size := Nat.le_mul_of_pos_left _ hn
  have hsuggest : fsaSuggestSize size n = structSize + n * roundUp size := by
    rw [fsaSuggestSize_eq, Nat.mul_comm]
    exact Nat.mod_eq_of_lt hround
  have hwrap : NoWrap (fsaSuggestSize size n) size := by
    rw [hsuggest]
    exact ⟨by omega, hround⟩
  have henough : fsaSuggestSize size 1 ≤ fsaSuggestSize size n := by
    rw [hsuggest, fsaSuggestSize_one]
    exact Nat.le_trans (Nat.mod_le _ _) (Nat.add_le_add_left hblock _)
  rcases fsaInit_enough (m := m) hsize henough with ⟨herror, -⟩ | ⟨m', hinit, -⟩
  · exact absurd herror (safe_of_noWrap hwrap hsize m).1
  · obtain ⟨-, hinv⟩ := init_inv hwrap hinit
    have hlength : (blocks (fsaSuggestSize size n) (roundUp size)).length = n := by
      rw [blocks, length_blocksFrom, hsuggest, Nat.add_sub_cancel_left]
      exact Nat.mul_div_cancel n (Nat.lt_of_lt_of_le (by decide) hpos)
    refine ⟨m', hinit, ?_, _, hinv.linked, hlength⟩
    rw [← hlength]
    exact hinv.count

/-- **The sizes.** `FSAInit` does not divide by zero, and has room for the blocks of the pool that it returns, if and
    only if one block behind the three words fits in a word, or the pool is smaller than what is left of that sum.
    A pool of the suggested size has exactly the blocks that were asked for, if the sum fits in a word. -/
theorem init_safe_iff (hsize : 0 < size) :
    (∀ M < Mem.wordLimit, (Safe M size ↔ structSize + roundUp size < Mem.wordLimit ∨
      M < (structSize + roundUp size) % Mem.wordLimit)) ∧
      ∀ n, 0 < n → structSize + n * roundUp size < Mem.wordLimit → Suggested size n :=
  ⟨fun _ hM => safe_iff hsize hM, fun _ hn hround => init_suggested hsize hn hround⟩

theorem init_safe_sample : Safe 44 5 ∧ Suggested 5 2 := by
  obtain ⟨hsafe, hsuggested⟩ := init_safe_iff (show 0 < 5 by decide)
  exact ⟨(hsafe 44 (by decide)).mpr (.inl (by decide)), hsuggested 2 (by decide) (by decide)⟩

/-- The largest block size rounds up to 0, and the division is by it. -/
theorem divided_by_zero : ¬ Safe 24 18446744073709551615 := by
  intro hsafe
  exact (hsafe fun _ => 0).1 rfl

end Workbench.Fsa
