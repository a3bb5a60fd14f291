import Workbench.Alloc.VsaTiling

/-!
# `Alloc.VsaCalls` — what the calls do with the blocks

Every call keeps the tiling of the pool, as long as the search of `VSAAlloc` does not pass a run of free blocks.

## Main results
* `Tiled`, the invariant of the pool, and `tiled_replace`;
* `find_spec`, `allocate_spec` — the search, and the block that is found;
* `alloc_spec`, `free_spec`, `largest_spec`, `write_spec` — one for each call.
-/

namespace Workbench.Vsa

open Mem (SameOutside)

variable {M : Nat} {m m' : Mem} {s t : Int} {ss ts pre mid mid' post : List Int}

/-- The blocks `ss` tile the pool of `M` bytes, and behind them is the end. In the smallest pool the only block is
    empty. -/
structure Tiled (M : Nat) (m : Mem) (ss : List Int) : Prop where
  chain : Chain m 0 ss
  span : span ss + 16 = M
  last : blockSize m (M - 16) = 0
  magic : magicNum m 0 = specialMagicNum
  nonzero : M = 32 ∨ ∀ s ∈ ss, s ≠ 0

theorem mem_middle : s ∈ pre ++ (mid ++ post) ↔ s ∈ pre ∨ s ∈ mid ∨ s ∈ post := by
  rw [List.mem_append, List.mem_append]

/-- Blocks in the middle are replaced by blocks that span as much. -/
theorem tiled_replace (h : Tiled M m (pre ++ (mid ++ post)))
    (hm : SameOutside (Vsa.span pre) (Vsa.span pre + Vsa.span mid) m m') (hmid : Chain m' (Vsa.span pre) mid')
    (hspan : Vsa.span mid' = Vsa.span mid) (hmagic : magicNum m' 0 = specialMagicNum)
    (hnonzero : ∀ s ∈ mid', s ≠ 0) : Tiled M m' (pre ++ (mid' ++ post)) where
  chain := by
    apply chain_replace h.chain
    · rwa [Nat.zero_add]
    · rwa [Nat.zero_add]
    · exact hspan
  span := by
    rw [← h.span]
    simp only [span_append, hspan]
  last := by
    rw [← h.last]
    apply (blockSize_same hm _).symm
    have hall := h.span
    simp only [span_append] at hall
    omega
  magic := hmagic
  nonzero := by
    apply h.nonzero.imp_right
    intro hall s hs
    rcases mem_middle.mp hs with hs | hs | hs
    · exact hall s (mem_middle.mpr (.inl hs))
    · exact hnonzero s hs
    · exact hall s (mem_middle.mpr (.inr (.inr hs)))

/-- The header of a block says its size. -/
theorem Tiled.block (h : Tiled M m (pre ++ ([s] ++ post))) :
    blockSize m (Vsa.span pre) = s ∧ Vsa.span pre + s.natAbs + 32 ≤ M := by
  obtain ⟨-, hrest⟩ := chain_append.mp h.chain
  rw [Nat.zero_add] at hrest
  refine ⟨hrest.1, ?_⟩
  have hall := h.span
  simp only [span_append, span_cons, span_nil] at hall
  omega

/-- Behind a block is the next one, or the end. -/
theorem Tiled.next (h : Tiled M m (pre ++ ([s] ++ post))) :
    blockSize m (getNextBlock m (Vsa.span pre)) = post.headD 0 := by
  obtain ⟨-, hrest⟩ := chain_append.mp h.chain
  rw [Nat.zero_add] at hrest
  unfold getNextBlock
  rw [h.block.1]
  cases post with
  | nil =>
      have hend : Vsa.span pre + s.natAbs + headerSize = M - 16 := by
        have hall := h.span
        simp only [span_append, span_cons, span_nil] at hall
        show Vsa.span pre + s.natAbs + 16 = M - 16
        omega
      rw [hend]
      exact h.last
  | cons t ts => exact hrest.2.1

/-- Behind the last block is the end. -/
theorem Tiled.end (h : Tiled M m (pre ++ [])) : blockSize m (Vsa.span pre) = 0 := by
  have hall := h.span
  rw [List.append_nil] at hall
  rw [← h.last]
  congr 1
  omega

/-- A block of size 0 is the whole of the smallest pool. -/
theorem Tiled.zero_alone (h : Tiled M m (pre ++ s :: post)) (hs : s = 0) : pre = [] ∧ post = [] := by
  have hsmall : M = 32 :=
    h.nonzero.resolve_right fun hall => hall s (List.mem_append_right pre List.mem_cons_self) hs
  have hall := h.span
  rw [span_append, span_cons] at hall
  have hnil : ∀ ts : List Int, Vsa.span ts = 0 → ts = [] := by
    intro ts hts
    cases ts with
    | nil => rfl
    | cons t ts =>
        rw [span_cons] at hts
        omega
  exact ⟨hnil _ (by omega), hnil _ (by omega)⟩

theorem Tiled.getNextBlock (h : Tiled M m (pre ++ ([s] ++ post))) :
    getNextBlock m (Vsa.span pre) = Vsa.span (pre ++ [s]) := by
  unfold Vsa.getNextBlock
  rw [h.block.1, span_append, span_cons, span_nil]
  rfl

/-- The assertion of `VSAAlloc` and `VSALargestChunkAvailable` is met. -/
theorem Tiled.check (h : Tiled M m ss) : checkMagicNum m 0 = true := by
  unfold checkMagicNum
  rw [h.magic]
  exact beq_self_eq_true _

theorem magicNum_set (h : Tiled M m (pre ++ ([s] ++ post))) (v : Int) :
    magicNum (setBlockSize m (Vsa.span pre) v) 0 = specialMagicNum := by
  have hstart : Vsa.span pre = 0 ∨ 16 ≤ Vsa.span pre := span_eq_zero_or
  rw [magicNum_set_ne (by omega)]
  exact h.magic

theorem magicNum_vsaSet_span (h : Tiled M m (pre ++ ([s] ++ post))) (v : Int) :
    magicNum (vsaSetBlockSize m (Vsa.span pre) v) 0 = specialMagicNum := by
  have hstart : Vsa.span pre = 0 ∨ 16 ≤ Vsa.span pre := span_eq_zero_or
  rcases hstart with hpre | hpre
  · rw [hpre]
    exact magicNum_vsaSet
  · rw [← h.magic]
    exact (magicNum_same (sameOutside_vsaSet (Nat.le_refl _) (Nat.le_refl _)) (.inl (by omega))).symm

/-! ## Merging -/

/-- Two free blocks that follow each other are merged, by a new header for the first. -/
theorem tiled_merge (h : Tiled M m (pre ++ ([s, t] ++ post))) (hM : M ≤ longMax) (hs : 0 < s) (ht : 0 < t)
    (hm : SameOutside (Vsa.span pre) (Vsa.span pre + 16) m m')
    (hsize : IsLong (s + t + 16) → blockSize m' (Vsa.span pre) = s + t + 16)
    (hmagic : magicNum m' 0 = specialMagicNum) :
    Tiled M m' (pre ++ ([s + t + 16] ++ post)) ∧
      used 0 (pre ++ ([s + t + 16] ++ post)) = used 0 (pre ++ ([s, t] ++ post)) := by
  have hspan : Vsa.span [s + t + 16] = Vsa.span [s, t] := by
    simp only [span_cons, span_nil]
    omega
  refine ⟨?_, ?_⟩
  · apply tiled_replace h (hm.mono (Nat.le_refl _) (by rw [span_cons]; omega)) _ hspan hmagic
    · intro x hx
      obtain rfl := List.mem_singleton.mp hx
      omega
    · -- the merged size is still a `long`, as the blocks are in the pool
      refine ⟨hsize ?_, trivial⟩
      have hall := h.span
      simp only [span_append, span_cons, span_nil] at hall
      unfold longMax at hM
      exact ⟨by omega, by omega⟩
  · apply used_replace hspan
    rw [used_cons_pos (by omega), used_cons_pos (by omega), used_cons_pos (by omega)]
    rfl

/-- The blocks when all that are free and adjacent are merged, and the first one is `s` so far. -/
def mergeFrom : Int → List Int → List Int
  | s, [] => [s]
  | s, t :: ts => if 0 < s ∧ 0 < t then mergeFrom (s + t + 16) ts else s :: mergeFrom t ts

/-- The blocks when all that are free and adjacent are merged. -/
def mergeAll : List Int → List Int
  | [] => []
  | s :: ss => mergeFrom s ss

/-- The headers and the payloads of these blocks are as they were. -/
def Kept (m m' : Mem) (blocks : List (Nat × Nat)) : Prop := ∀ p ∈ blocks, ∀ b, p.1 ≤ b + 16 → b < p.1 + p.2 → m' b = m b

/-! ## The search -/

/-- The size of the free blocks from the first on, when they are merged: the first has the size `s`. -/
def runSize : Int → List Int → Int
  | s, [] => s
  | s, t :: ts => if 0 < t then runSize (s + t + 16) ts else s

/-- The first run of free blocks: its offset and its size. -/
def firstRun : Nat → List Int → Option (Nat × Int)
  | _, [] => none
  | a, s :: ss => if s < 0 then firstRun (a + s.natAbs + headerSize) ss else some (a, runSize s ss)

theorem le_runSize (hs : 0 < s) : s ≤ runSize s ss := by
  induction ss generalizing s with
  | nil => exact Int.le_refl s
  | cons t ts ih =>
      unfold runSize
      split
      · next ht =>
          have hmerged : s + t + 16 ≤ runSize (s + t + 16) ts := ih (by omega)
          omega
      · exact Int.le_refl s

/-- The offset of the first run of free blocks, if it is large enough. -/
def aim (size : Int) (a : Nat) (ss : List Int) : Option Nat :=
  (firstRun a ss).bind fun (k, run) => if size ≤ run then some k else none

theorem aim_none {size : Int} {a : Nat} (hrun : firstRun a ss = none) : aim size a ss = none := by
  unfold aim
  rw [hrun]
  rfl

theorem aim_enough {size run : Int} {a k : Nat} (hrun : firstRun a ss = some (k, run)) (hlarge : size ≤ run) :
    aim size a ss = some k := by
  unfold aim
  rw [hrun]
  exact if_pos hlarge

theorem aim_short {size run : Int} {a k : Nat} (hrun : firstRun a ss = some (k, run)) (hshort : ¬ size ≤ run) :
    aim size a ss = none := by
  unfold aim
  rw [hrun]
  exact if_neg hshort

/-- What the search may come to: a block that is large enough, or a header that says 0. -/
def Found (size : Int) (m : Mem) (runner : Nat) (ss : List Int) : Option Nat → Prop
  | none => blockSize m runner = 0
  | some k => runner = k ∧ ∃ pre s post, ss = pre ++ ([s] ++ post) ∧ runner = Vsa.span pre ∧ size ≤ s

/-- The search returns, with the pool tiled and the same blocks allocated. -/
def Finds (M : Nat) (size : Int) (m : Mem) (runner : Nat) (ss : List Int) (target : Option Nat) : Prop :=
  ∃ fuel m' runner' ss', findEnoughBlockSize size fuel m runner = some (m', runner') ∧ Tiled M m' ss' ∧
    used 0 ss' = used 0 ss ∧ Found size m' runner' ss' target

theorem finds_now {size : Int} {runner : Nat} {target : Option Nat} (h : Tiled M m ss)
    (hnow : ¬ (blockSize m runner < size ∧ blockSize m runner ≠ 0)) (hfound : Found size m runner ss target) :
    Finds M size m runner ss target :=
  ⟨1, m, runner, ss, if_neg hnow, h, rfl, hfound⟩

theorem finds_step {size : Int} {runner : Nat} {target : Option Nat}
    (hgo : blockSize m runner < size ∧ blockSize m runner ≠ 0) (hused : used 0 ts = used 0 ss)
    (h : Finds M size (findStep m runner).1 (findStep m runner).2 ts target) : Finds M size m runner ss target := by
  obtain ⟨fuel, m', runner', ss', hfind, htiled, hsame, hfound⟩ := h
  refine ⟨fuel + 1, m', runner', ss', ?_, htiled, hsame.trans hused, hfound⟩
  unfold findEnoughBlockSize
  rw [if_pos hgo]
  exact hfind

/-- The search passes a free block that is too small, to the word that is read instead of the next header. -/
theorem finds_pass {size : Int} (hs : 0 < s) (h : Tiled M m (pre ++ ([s] ++ post))) (hnext : ¬ 0 < post.headD 0)
    (hshort : ¬ size ≤ s) (hword : blockSize m (Vsa.span pre + s.toNat) = 0) :
    Finds M size m (Vsa.span pre) (pre ++ ([s] ++ post)) none := by
  have hsize := h.block.1
  have hstep : findStep m (Vsa.span pre) = (m, Vsa.span pre + s.toNat) := by
    unfold findStep
    rw [if_neg (by omega)]
    show (if 0 < blockSize m (getNextBlock m (Vsa.span pre)) then _ else _) = _
    rw [h.next, if_neg hnext, hsize]
  apply finds_step (by omega) rfl
  rw [hstep]
  exact finds_now h (by rw [hword]; simp) hword

/-- The target of a search that has come to a run of free blocks. -/
theorem finds_here {size : Int} (h : Tiled M m (pre ++ ([s] ++ post))) (hlarge : size ≤ s)
    (hrun : size ≤ runSize s post) :
    Finds M size m (Vsa.span pre) (pre ++ ([s] ++ post))
      (if size ≤ runSize s post then some (Vsa.span pre) else none) := by
  have hsize := h.block.1
  rw [if_pos hrun]
  exact finds_now h (by omega) ⟨rfl, pre, s, post, rfl, rfl, hlarge⟩

/-- A run of free blocks is merged until it is large enough. If it does not get large enough, then the search goes on
    at a word that is not a header, and this word is 0. -/
theorem finds_run {size : Int} (hM : M ≤ longMax) (hs : 0 < s) (h : Tiled M m (pre ++ ([s] ++ post)))
    (hfits : size ≤ runSize s post ∨ blockSize m (Vsa.span pre + (runSize s post).toNat) = 0) :
    Finds M size m (Vsa.span pre) (pre ++ ([s] ++ post))
      (if size ≤ runSize s post then some (Vsa.span pre) else none) := by
  have hsize := h.block.1
  induction post generalizing s m with
  | nil =>
      by_cases henough : size ≤ s
      · exact finds_here h henough henough
      · rw [runSize, if_neg henough]
        exact finds_pass hs h (by decide) henough (hfits.resolve_left henough)
  | cons t ts ih =>
      by_cases henough : size ≤ s
      · exact finds_here h henough (Int.le_trans henough (le_runSize hs))
      · by_cases ht : 0 < t
        · -- the next block is free
          have hrun : runSize s (t :: ts) = runSize (s + t + 16) ts := if_pos ht
          rw [hrun] at hfits ⊢
          have hstep : findStep m (Vsa.span pre) =
              (setBlockSize m (Vsa.span pre) (s + t + 16), Vsa.span pre) := by
            unfold findStep
            rw [if_neg (by omega)]
            show (if 0 < blockSize m (getNextBlock m (Vsa.span pre)) then _ else _) = _
            rw [h.next, List.headD_cons, if_pos ht, hsize]
            rfl
          obtain ⟨htiled, hused⟩ := tiled_merge h hM hs ht (sameOutside_set (Nat.le_refl _) (by omega))
            blockSize_set (magicNum_set h (s + t + 16))
          apply finds_step (by omega) hused
          rw [hstep]
          apply ih (by omega) htiled _ htiled.block.1
          refine hfits.imp_right fun hword => ?_
          have hlong : s + t + 16 ≤ runSize (s + t + 16) ts := le_runSize (by omega)
          rw [blockSize_set_ne (by omega)]
          exact hword
        · -- the next block is allocated: the search passes the run
          have hrun : runSize s (t :: ts) = s := if_neg ht
          rw [hrun] at hfits ⊢
          rw [if_neg henough]
          exact finds_pass hs h ht henough (hfits.resolve_left henough)

/-- The search finds its way: the first run of free blocks is large enough, or the word that is read instead of the
    next header is 0. -/
def Fits (m : Mem) (ss : List Int) (size : Int) : Prop :=
  ∀ h run, firstRun 0 ss = some (h, run) → size ≤ run ∨ blockSize m (h + run.toNat) = 0

/-- **The search** from a block on, when no free block was before: it comes to the first run, if this is large
    enough. -/
theorem find_spec {size : Int} (hM : M ≤ longMax) (hpos : 1 ≤ size) (h : Tiled M m (pre ++ ss))
    (hfits : ∀ k run, firstRun (Vsa.span pre) ss = some (k, run) → size ≤ run ∨ blockSize m (k + run.toNat) = 0) :
    Finds M size m (Vsa.span pre) (pre ++ ss) (aim size (Vsa.span pre) ss) := by
  induction ss generalizing pre with
  | nil =>
      have hend : blockSize m (Vsa.span pre) = 0 := h.end
      exact finds_now h (by simp [hend]) hend
  | cons s ss ih =>
      have hsize := h.block.1
      by_cases hneg : s < 0
      · -- an allocated block is passed
        have hstep : findStep m (Vsa.span pre) = (m, Vsa.span (pre ++ [s])) := by
          unfold findStep
          rw [if_pos (by omega), h.getNextBlock]
        have hassoc : pre ++ s :: ss = (pre ++ [s]) ++ ss := by rw [List.append_assoc]; rfl
        have hrun : firstRun (Vsa.span pre) (s :: ss) = firstRun (Vsa.span (pre ++ [s])) ss := by
          rw [firstRun, if_pos hneg, span_append, span_cons, span_nil]
          rfl
        apply finds_step (by omega) rfl
        rw [hstep, hassoc, aim, hrun]
        rw [hassoc] at h
        rw [hrun] at hfits
        exact ih h hfits
      · have hrun : firstRun (Vsa.span pre) (s :: ss) = some (Vsa.span pre, runSize s ss) := if_neg hneg
        have htarget : aim size (Vsa.span pre) (s :: ss) =
            if size ≤ runSize s ss then some (Vsa.span pre) else none := by
          rw [aim, hrun]
          rfl
        rw [htarget]
        -- a free block; one of size 0 is the whole of the smallest pool
        by_cases hzero : s = 0
        · have hend : blockSize m (Vsa.span pre) = 0 := hsize.trans hzero
          obtain ⟨-, rfl⟩ := h.zero_alone hzero
          rw [runSize, if_neg (by omega)]
          exact finds_now h (by simp [hend]) hend
        · exact finds_run hM (by omega) h (hfits _ _ hrun)

/-! ## Allocation -/

theorem used_middle (hspan : Vsa.span mid' = Vsa.span mid) (hmid : used (Vsa.span pre) mid = []) :
    (used 0 (pre ++ (mid' ++ post))).Perm (used (Vsa.span pre) mid' ++ used 0 (pre ++ (mid ++ post))) := by
  simp only [used_append, Nat.zero_add, hmid, hspan, List.nil_append]
  exact List.perm_append_comm_assoc _ _ _

/-- The whole block is taken, when there is no room for another one behind it. -/
theorem allocate_whole (hs : 0 < s) (hsmall : s ≤ longMax) (h : Tiled M m (pre ++ ([s] ++ post))) :
    ∃ ss' k, Tiled M (vsaSetBlockSize m (Vsa.span pre) (-s)) ss' ∧ s ≤ (k : Nat) ∧
      (used 0 ss').Perm ((Vsa.span pre + 16, k) :: used 0 (pre ++ ([s] ++ post))) := by
  have hnone : used (Vsa.span pre) [s] = [] := used_cons_pos (by omega)
  unfold longMax at hsmall
  have hspan : Vsa.span [-s] = Vsa.span [s] := by rw [span_cons, span_cons, Int.natAbs_neg]
  have hused : used (Vsa.span pre) [-s] = [(Vsa.span pre + 16, (-s).natAbs)] := used_cons_neg (by omega)
  refine ⟨pre ++ ([-s] ++ post), (-s).natAbs, ?_, by omega, ?_⟩
  · apply tiled_replace h _ _ hspan (magicNum_vsaSet_span h (-s))
    · intro x hx
      obtain rfl := List.mem_singleton.mp hx
      omega
    · apply sameOutside_vsaSet (Nat.le_refl _)
      rw [span_cons]
      omega
    · exact ⟨blockSize_vsaSet ⟨by omega, by omega⟩, trivial⟩
  · show (used 0 (pre ++ ([-s] ++ post))).Perm ([(Vsa.span pre + 16, (-s).natAbs)] ++ _)
    rw [← hused]
    exact used_middle hspan hnone

/-- A block of the size is taken, and the rest is another free block behind it. -/
theorem allocate_split {size : Int} (hpos : 1 ≤ size) (hsplit : size + 16 < s) (hsmall : s ≤ longMax)
    (h : Tiled M m (pre ++ ([s] ++ post))) :
    ∃ ss' k, Tiled M (setBlockSize (setBlockSize m (Vsa.span pre + size.toNat + 16) (s - size - 16)) (Vsa.span pre)
        (-size)) ss' ∧ size ≤ (k : Nat) ∧
      (used 0 ss').Perm ((Vsa.span pre + 16, k) :: used 0 (pre ++ ([s] ++ post))) := by
  have hnone : used (Vsa.span pre) [s] = [] := used_cons_pos (by omega)
  unfold longMax at hsmall
  have hspan : Vsa.span [-size, s - size - 16] = Vsa.span [s] := by
    simp only [span_cons, span_nil]
    omega
  have hused : used (Vsa.span pre) [-size, s - size - 16] = [(Vsa.span pre + 16, (-size).natAbs)] := by
    rw [used_cons_neg (by omega), used_cons_pos (by omega)]
    rfl
  -- the header behind is written first
  let m₁ := setBlockSize m (Vsa.span pre + size.toNat + 16) (s - size - 16)
  have hfirst : SameOutside (Vsa.span pre) (Vsa.span pre + Vsa.span [s]) m m₁ := by
    apply sameOutside_set (by omega)
    rw [span_cons, span_nil]
    omega
  have hmagic : magicNum m₁ 0 = specialMagicNum := by
    show magicNum (setBlockSize m (Vsa.span pre + size.toNat + 16) (s - size - 16)) 0 = specialMagicNum
    rw [magicNum_set_ne (by omega)]
    exact h.magic
  refine ⟨pre ++ ([-size, s - size - 16] ++ post), (-size).natAbs, ?_, by omega, ?_⟩
  · apply tiled_replace h _ _ hspan
    · show magicNum (setBlockSize m₁ (Vsa.span pre) (-size)) 0 = specialMagicNum
      have hstart : Vsa.span pre = 0 ∨ 16 ≤ Vsa.span pre := span_eq_zero_or
      rw [magicNum_set_ne (by omega)]
      exact hmagic
    · intro x hx
      simp only [List.mem_cons, List.not_mem_nil, or_false] at hx
      omega
    · apply hfirst.trans
      apply sameOutside_set (Nat.le_refl _)
      rw [span_cons]
      omega
    · refine ⟨blockSize_set ⟨by omega, by omega⟩, ?_, trivial⟩
      have hnext : Vsa.span pre + (-size).natAbs + headerSize = Vsa.span pre + size.toNat + 16 := by
        show Vsa.span pre + (-size).natAbs + 16 = _
        omega
      rw [hnext, blockSize_set_ne (by omega)]
      exact blockSize_set ⟨by omega, by omega⟩
  · show (used 0 (pre ++ ([-size, s - size - 16] ++ post))).Perm ([(Vsa.span pre + 16, (-size).natAbs)] ++ _)
    rw [← hused]
    exact used_middle hspan hnone

/-- **The block that is found** is allocated as a whole, or split if another block fits behind. -/
theorem allocate_spec {size : Int} (hM : M ≤ longMax) (hpos : 1 ≤ size) (hs : size ≤ s)
    (h : Tiled M m (pre ++ ([s] ++ post))) :
    ∃ m' ss' k, allocateBlock m (Vsa.span pre) size = some (m', Vsa.span pre + 16) ∧ Tiled M m' ss' ∧ size ≤ (k : Nat) ∧
      (used 0 ss').Perm ((Vsa.span pre + 16, k) :: used 0 (pre ++ ([s] ++ post))) := by
  obtain ⟨hsize, hbound⟩ := h.block
  have hsmall : s ≤ longMax := by
    unfold longMax at hM ⊢
    omega
  unfold allocateBlock
  rw [hsize]
  split
  · obtain ⟨ss', k, htiled, hk, hperm⟩ := allocate_whole (by omega) hsmall h
    exact ⟨_, ss', k, rfl, htiled, by omega, hperm⟩
  · next hsplit =>
    obtain ⟨ss', k, htiled, hk, hperm⟩ := allocate_split hpos (Int.not_le.mp hsplit) hsmall h
    have hnext : ¬ ((Vsa.span pre : Int) + size + headerSize < 0) := by
      show ¬ ((Vsa.span pre : Int) + size + 16 < 0)
      omega
    have hoffset : ((Vsa.span pre : Int) + size + headerSize).toNat = Vsa.span pre + size.toNat + 16 := by
      show ((Vsa.span pre : Int) + size + 16).toNat = _
      omega
    refine ⟨_, ss', k, ?_, htiled, hk, hperm⟩
    rw [← hoffset]
    exact if_neg hnext

/-- What `VSAAlloc` returns, and which payloads are allocated then. -/
def Allocated (size : Nat) (before after : List (Nat × Nat)) : Option Nat → Prop
  | none => after = before
  | some block => ∃ k, size ≤ k ∧ after.Perm ((block, k) :: before)

theorem toLong_eq {n : Nat} (hn : n ≤ longMax) : toLong n = n := by
  unfold longMax at hn
  show (BitVec.ofInt 64 n).toInt = n
  exact toInt_ofInt ⟨by omega, by omega⟩

/-- **`VSAAlloc`** returns, with a block of a size that is enough or with nothing. -/
theorem alloc_spec {size : Nat} (hM : M ≤ longMax) (hpos : 1 ≤ size) (hmax : size ≤ longMax) (h : Tiled M m ss)
    (hfits : Fits m ss size) :
    ∃ fuel m' ss' r, vsaAlloc fuel m size = some (m', r) ∧ Tiled M m' ss' ∧
      Allocated size (used 0 ss) (used 0 ss') r ∧ r = (aim size 0 ss).map (· + headerSize) := by
  have hfinds : Finds M size m (Vsa.span []) ([] ++ ss) (aim size 0 ss) := find_spec hM (by omega) h hfits
  rw [span_nil, List.nil_append] at hfinds
  obtain ⟨fuel, m₁, runner, ss₁, hfind, htiled, hused, hfound⟩ := hfinds
  refine ⟨fuel, ?_⟩
  unfold vsaAlloc
  rw [if_pos h.check, toLong_eq hmax, hfind]
  -- null is returned at the end of the pool only
  cases haim : aim size 0 ss with
  | none =>
      rw [haim] at hfound
      exact ⟨m₁, ss₁, none, if_pos hfound, htiled, hused, rfl⟩
  | some k =>
      rw [haim] at hfound
      obtain ⟨rfl, pre, s, post, rfl, rfl, hs⟩ := hfound
      have hend : ¬ blockSize m₁ (Vsa.span pre) = 0 := by
        rw [htiled.block.1]
        omega
      obtain ⟨m', ss', k, hblock, htiled', hk, hperm⟩ := allocate_spec hM (by omega) hs htiled
      refine ⟨m', ss', some (Vsa.span pre + 16), ?_, htiled', ⟨k, by omega, ?_⟩, rfl⟩
      · show (if blockSize m₁ (Vsa.span pre) = 0 then _ else _) = _
        rw [if_neg hend, hblock]
        rfl
      · rw [← hused]
        exact hperm

/-! ## The other calls -/

/-- `VSAInit` makes one free block. -/
theorem init_spec (hM : M ≤ longMax) (h : vsaInit m M = some m') : Tiled M m' [(M : Int) - 32] := by
  unfold longMax at hM
  unfold vsaInit at h
  split at h
  · cases h
  · next hlarge =>
    have hlarge : 32 ≤ M := Nat.not_lt.mp hlarge
    let m₁ := vsaSetBlockSize m 0 ((M : Int) - 32)
    have hfirst : blockSize m₁ 0 = (M : Int) - 32 := blockSize_vsaSet ⟨by omega, by omega⟩
    have hnext : getNextBlock m₁ 0 = M - 16 := by
      unfold getNextBlock
      rw [hfirst]
      show 0 + ((M : Int) - 32).natAbs + 16 = M - 16
      omega
    have hsame : SameOutside (M - 16) M m₁ (vsaSetBlockSize m₁ (M - 16) 0) :=
      sameOutside_vsaSet (Nat.le_refl _) (by omega)
    have hm' : m' = vsaSetBlockSize m₁ (M - 16) 0 := by
      rw [← hnext]
      exact (Option.some.inj h).symm
    subst hm'
    refine ⟨⟨?_, trivial⟩, ?_, ?_, ?_, ?_⟩
    · rw [← blockSize_same hsame (.inl (by omega))]
      exact hfirst
    · rw [span_cons, span_nil]
      omega
    · exact blockSize_vsaSet ⟨by decide, by decide⟩
    · rw [← magicNum_same hsame (.inl (by omega))]
      exact magicNum_vsaSet
    · -- the smallest pool has no room for a block
      by_cases hsmall : M = 32
      · exact .inl hsmall
      · right
        intro s hs
        obtain rfl := List.mem_singleton.mp hs
        omega

/-- `VSAFree` frees the block. -/
theorem free_spec (hM : M ≤ longMax) (h : Tiled M m ss) {p : Nat × Nat} (hp : p ∈ used 0 ss) :
    ∃ ss', Tiled M (vsaFree m p.1) ss' ∧ (used 0 ss).Perm (p :: used 0 ss') := by
  obtain ⟨pre, s, post, rfl, hneg, hfst, hsnd⟩ := exists_block hp
  obtain ⟨hsize, hbound⟩ := h.block
  unfold longMax at hM
  have hspan : Vsa.span [(s.natAbs : Int)] = Vsa.span [s] := by
    simp only [span_cons, span_nil]
    omega
  have hfree : vsaFree m p.1 = setBlockSize m (Vsa.span pre) s.natAbs := by
    unfold vsaFree
    rw [hfst, Nat.zero_add]
    show setBlockSize m (Vsa.span pre + 16 - 16) (blockSize m (Vsa.span pre + 16 - 16)).natAbs = _
    rw [Nat.add_sub_cancel, hsize]
  refine ⟨pre ++ ([(s.natAbs : Int)] ++ post), ?_, ?_⟩
  · rw [hfree]
    apply tiled_replace h _ _ hspan (magicNum_set h _)
    · intro x hx
      obtain rfl := List.mem_singleton.mp hx
      omega
    · apply sameOutside_set (Nat.le_refl _)
      rw [span_cons]
      omega
    · exact ⟨blockSize_set ⟨by omega, by omega⟩, trivial⟩
  · have hpair : p = (Vsa.span pre + 16, s.natAbs) := Prod.ext (by rw [hfst, Nat.zero_add]) hsnd
    have hused : used (Vsa.span pre) [s] = [p] := by
      rw [used_cons_neg hneg, hpair]
      rfl
    show (used 0 (pre ++ ([s] ++ post))).Perm ([p] ++ _)
    rw [← hused]
    exact used_middle hspan.symm (used_cons_pos (by omega))

/-- A client that writes into its block does not change the blocks. -/
theorem write_spec (h : Tiled M m ss) {p : Nat × Nat} (hp : p ∈ used 0 ss) {address : Nat} (x : BitVec 8)
    (hlo : p.1 ≤ address) (hhi : address < p.1 + p.2) : Tiled M (m.setByte address x) ss := by
  obtain ⟨pre, s, post, rfl, hneg, hfst, hsnd⟩ := exists_block hp
  obtain ⟨hsize, hbound⟩ := h.block
  have hsame : SameOutside (Vsa.span pre + 16) (Vsa.span pre + Vsa.span [s]) m (m.setByte address x) := by
    apply Mem.SameOutside.setByte
    · omega
    · rw [span_cons, span_nil]
      omega
  apply tiled_replace h (hsame.mono (by omega) (Nat.le_refl _)) _ rfl
  · -- the client writes behind the header, so the magic number of the pool stays
    rw [← h.magic]
    exact (magicNum_same hsame (.inl (by omega))).symm
  · intro x hx
    obtain rfl := List.mem_singleton.mp hx
    omega
  · refine ⟨?_, trivial⟩
    rw [← blockSize_same hsame (.inl (by omega))]
    exact hsize

/-- What the inner loop of `VSALargestChunkAvailable` makes of the block `s`, which the blocks `post` follow. -/
structure Merged (M : Nat) (pre : List Int) (m : Mem) (s : Int) (post : List Int) (m' : Mem) (s' : Int)
    (post' : List Int) : Prop where
  tiled : Tiled M m' (pre ++ ([s'] ++ post'))
  used : used 0 (pre ++ ([s'] ++ post')) = used 0 (pre ++ ([s] ++ post))
  shorter : post'.length ≤ post.length
  blocks : mergeFrom s post = s' :: mergeAll post'
  run : 0 < s → runSize s post = s'
  /-- Nothing is done, or the header is written. -/
  memory : (m' = m ∧ s' = s ∧ post' = post) ∨
    (0 < s ∧ s + 17 ≤ s' ∧ SameOutside (Vsa.span pre) (Vsa.span pre + 16) m m')

/-- The inner loop of `VSALargestChunkAvailable` merges the free blocks that follow. -/
theorem merge_spec (hM : M ≤ longMax) (h : Tiled M m (pre ++ ([s] ++ post))) {fuel : Nat} (hfuel : post.length < fuel) :
    ∃ m' s' post', mergeFollowing fuel m (Vsa.span pre) = some m' ∧ Merged M pre m s post m' s' post' := by
  induction post generalizing s m fuel with
  | nil =>
      obtain ⟨fuel, rfl⟩ := Nat.exists_eq_succ_of_ne_zero (by omega : fuel ≠ 0)
      refine ⟨m, s, [], ?_, h, rfl, Nat.le_refl _, rfl, fun _ => rfl, .inl ⟨rfl, rfl, rfl⟩⟩
      unfold mergeFollowing
      show (if _ ∧ 0 < blockSize m (getNextBlock m (Vsa.span pre)) then _ else _) = _
      rw [h.next, List.headD_nil, if_neg (by omega)]
  | cons t ts ih =>
      obtain ⟨fuel, rfl⟩ := Nat.exists_eq_succ_of_ne_zero (by omega : fuel ≠ 0)
      rw [List.length_cons] at hfuel
      unfold mergeFollowing
      show ∃ m' s' post', (if _ ∧ 0 < blockSize m (getNextBlock m (Vsa.span pre)) then
        mergeFollowing fuel (vsaSetBlockSize m (Vsa.span pre)
          (mergeFreeBlocks (blockSize m (Vsa.span pre)) (blockSize m (getNextBlock m (Vsa.span pre)))))
          (Vsa.span pre) else some m) = _ ∧ _
      rw [h.next, List.headD_cons, h.block.1]
      -- the loop goes on while this block and the next one are free
      by_cases hboth : 0 < s ∧ 0 < t
      · rw [if_pos hboth]
        have hwrite : SameOutside (Vsa.span pre) (Vsa.span pre + 16) m
            (vsaSetBlockSize m (Vsa.span pre) (s + t + 16)) :=
          sameOutside_vsaSet (Nat.le_refl _) (Nat.le_refl _)
        obtain ⟨htiled, hused⟩ := tiled_merge h hM hboth.1 hboth.2 hwrite blockSize_vsaSet
          (magicNum_vsaSet_span h (s + t + 16))
        obtain ⟨m', s', post', hmerge, hmerged⟩ := ih htiled (by omega : ts.length < fuel)
        refine ⟨m', s', post', hmerge, hmerged.tiled, hmerged.used.trans hused, Nat.le_succ_of_le hmerged.shorter, ?_,
          fun _ => ?_, .inr ⟨hboth.1, ?_⟩⟩
        · rw [mergeFrom, if_pos hboth]
          exact hmerged.blocks
        · rw [runSize, if_pos hboth.2]
          exact hmerged.run (by omega)
        · rcases hmerged.memory with ⟨rfl, rfl, -⟩ | ⟨-, hgrown, hsame⟩
          · exact ⟨by omega, hwrite⟩
          · exact ⟨by omega, hwrite.trans hsame⟩
      · rw [if_neg hboth]
        refine ⟨m, s, t :: ts, rfl, h, rfl, Nat.le_refl _, ?_, fun hs => ?_, .inl ⟨rfl, rfl, rfl⟩⟩
        · rw [mergeFrom, if_neg hboth]
          rfl
        · rw [runSize, if_neg fun ht => hboth ⟨hs, ht⟩]

theorem Merged.sameOutside {m' : Mem} {s' : Int} {post' : List Int} (h : Merged M pre m s post m' s' post') :
    SameOutside (Vsa.span pre) (Vsa.span pre + 16) m m' := by
  rcases h.memory with ⟨rfl, -⟩ | ⟨-, -, hsame⟩
  · exact fun _ _ => rfl
  · exact hsame

/-- What `VSALargestChunkAvailable` does from a block on. -/
structure Sweeps (M : Nat) (pre ss : List Int) (m m' : Mem) : Prop where
  tiled : Tiled M m' (pre ++ mergeAll ss)
  used : used 0 (pre ++ mergeAll ss) = used 0 (pre ++ ss)
  before : ∀ b < Vsa.span pre, m' b = m b
  kept : Kept m m' (Vsa.used (Vsa.span pre) ss)
  /-- What a search reads behind the first run is as it was. -/
  stale : ∀ k run, firstRun (Vsa.span pre) ss = some (k, run) → ∀ b, k + run.toNat ≤ b → b < k + run.toNat + 16 →
    m' b = m b
  idle : mergeAll ss = ss → m' = m

/-- A block that is allocated is this one, with nothing done, or behind it. -/
theorem Merged.used_cases (h : Merged M pre m s post m₁ s' post') {p : Nat × Nat}
    (hp : p ∈ Vsa.used (Vsa.span pre) (s :: post)) :
    (m₁ = m ∧ p = (Vsa.span pre + 16, s'.natAbs)) ∨ p ∈ Vsa.used (Vsa.span (pre ++ [s'])) post' := by
  have hsplit : Vsa.used (Vsa.span pre) (s :: post) = Vsa.used (Vsa.span pre) (s' :: post') := by
    have hall : Vsa.used 0 (pre ++ s' :: post') = Vsa.used 0 (pre ++ s :: post) := h.used
    rw [used_append, used_append, Nat.zero_add] at hall
    exact (List.append_cancel_left hall).symm
  have hbehind : Vsa.span (pre ++ [s']) = Vsa.span pre + s'.natAbs + 16 := by
    rw [span_append, span_cons, span_nil]
    omega
  rw [hsplit] at hp
  by_cases hneg : s' < 0
  · rw [used_cons_neg hneg, ← hbehind] at hp
    refine (List.mem_cons.mp hp).imp_left fun heq => ⟨?_, heq⟩
    rcases h.memory with ⟨hidle, -⟩ | ⟨hfree, hgrown, -⟩
    · exact hidle
    · omega
  · rw [used_cons_pos hneg, ← hbehind] at hp
    exact .inr hp

/-- A block is merged with those that follow, and then the blocks behind it. -/
theorem Merged.sweeps {m₁ m' : Mem} {s' : Int} {post' : List Int} (hs : s ≠ 0) (h : Merged M pre m s post m₁ s' post')
    (hrest : Sweeps M (pre ++ [s']) post' m₁ m') : Sweeps M pre (s :: post) m m' := by
  have hblocks : pre ++ mergeAll (s :: post) = pre ++ [s'] ++ mergeAll post' := by
    rw [List.append_assoc]
    exact congrArg (pre ++ ·) h.blocks
  have hused : Vsa.used 0 (pre ++ [s'] ++ post') = Vsa.used 0 (pre ++ ([s] ++ post)) := by
    rw [List.append_assoc]
    exact h.used
  have hbehind : Vsa.span (pre ++ [s']) = Vsa.span pre + s'.natAbs + 16 := by
    rw [span_append, span_cons, span_nil]
    omega
  refine ⟨?_, ?_, ?_, ?_, ?_, ?_⟩
  · rw [hblocks]
    exact hrest.tiled
  · rw [hblocks]
    exact hrest.used.trans hused
  · intro b hb
    rw [hrest.before b (by omega)]
    exact (h.sameOutside b (.inl hb)).symm
  · intro p hp b hlo hhi
    rcases h.used_cases hp with ⟨hidle, rfl⟩ | hp
    · rw [hrest.before b, hidle]
      show b < Vsa.span (pre ++ [s'])
      omega
    · rw [hrest.kept p hp b hlo hhi]
      have hbound := (used_bounds hp).1
      exact (h.sameOutside b (.inr (by omega))).symm
  · intro k run hrun b hlo hhi
    by_cases hneg : s < 0
    · -- an allocated block is in front of the run
      obtain ⟨rfl, rfl, rfl⟩ := h.memory.resolve_right fun hfree => by omega
      apply hrest.stale k run _ b hlo hhi
      rw [← hrun, firstRun, if_pos hneg, hbehind]
      rfl
    · -- the run is the block that was merged: the next header is behind what is read
      rw [firstRun, if_neg hneg, h.run (by omega)] at hrun
      obtain ⟨rfl, rfl⟩ := Prod.mk.inj (Option.some.inj hrun)
      rw [hrest.before b (by omega)]
      rcases h.memory with ⟨rfl, -⟩ | ⟨-, hgrown, hsame⟩
      · rfl
      · exact (hsame b (.inr (by omega))).symm
  · intro hidle
    have hcons : s' :: mergeAll post' = s :: post := h.blocks.symm.trans hidle
    rcases h.memory with ⟨rfl, rfl, rfl⟩ | ⟨-, hgrown, -⟩
    · exact hrest.idle (List.cons.inj hcons).2
    · have hsame := (List.cons.inj hcons).1
      omega

theorem largestFrom_spec (hM : M ≤ longMax) {fuel : Nat} (hfuel : ss.length < fuel) (h : Tiled M m (pre ++ ss))
    {most : Int} (hmost : 0 ≤ most) :
    ∃ m', largestFrom fuel m (Vsa.span pre) most = some (m', (mergeAll ss).foldl max most) ∧
      Sweeps M pre ss m m' := by
  induction fuel generalizing pre ss m most with
  | zero => omega
  | succ fuel ih =>
      unfold largestFrom
      cases ss with
      | nil =>
          exact ⟨m, if_pos h.end, h, rfl, fun _ _ => rfl, fun p hp => absurd hp List.not_mem_nil,
            fun _ _ _ _ _ _ => rfl, fun _ => rfl⟩
      | cons s post =>
          have hsize := h.block.1
          by_cases hend : blockSize m (Vsa.span pre) = 0
          · -- the block of the smallest pool is empty
            obtain rfl : s = 0 := hsize.symm.trans hend
            obtain ⟨-, rfl⟩ := h.zero_alone rfl
            refine ⟨m, ?_, h, rfl, fun _ _ => rfl, fun p hp => absurd hp List.not_mem_nil, fun _ _ _ _ _ _ => rfl,
              fun _ => rfl⟩
            rw [if_pos hend]
            show some (m, most) = some (m, max most 0)
            rw [Int.max_eq_left hmost]
          · rw [if_neg hend]
            rw [List.length_cons] at hfuel
            obtain ⟨m₁, s₁, post₁, hmerge, hmerged⟩ := merge_spec hM h (by omega : post.length < fuel)
            have hlen := hmerged.shorter
            have htiled := hmerged.tiled
            rw [hmerge]
            show ∃ m', largestFrom fuel m₁ (getNextBlock m₁ (Vsa.span pre)) _ = _ ∧ _
            rw [htiled.getNextBlock, htiled.block.1]
            rw [← List.append_assoc] at htiled
            obtain ⟨m', hrest, hsweeps⟩ := ih (by omega : post₁.length < fuel) htiled (by omega : 0 ≤ max most s₁)
            refine ⟨m', ?_, hmerged.sweeps (fun hzero => hend (hsize.trans hzero)) hsweeps⟩
            rw [hrest]
            show _ = some (m', (mergeFrom s post).foldl max most)
            rw [hmerged.blocks]
            rfl

/-- **`VSALargestChunkAvailable`** returns, and no block is allocated or freed. -/
theorem largest_spec (hM : M ≤ longMax) (h : Tiled M m ss) :
    ∃ fuel m', vsaLargestChunkAvailable fuel m = some (m', (mergeAll ss).foldl max 0) ∧ Sweeps M [] ss m m' := by
  have htiled : Tiled M m ([] ++ ss) := h
  obtain ⟨m', hrun, hsweeps⟩ := largestFrom_spec hM (Nat.lt_succ_self ss.length) htiled (Int.le_refl 0)
  refine ⟨ss.length + 1, m', ?_, hsweeps⟩
  unfold vsaLargestChunkAvailable
  rw [if_pos h.check]
  exact hrun

end Workbench.Vsa
