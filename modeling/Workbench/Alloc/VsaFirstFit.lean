import Workbench.Alloc.VsaLargest

/-!
# `Alloc.VsaFirstFit` — what `VSAAlloc` returns, and the largest chunk

`VSAAlloc` takes the first run of free blocks if it is large enough. If not, the search reads a word of the run in
place of the next header, and does not look at the runs behind. A size of more than `LONG_MAX` is negative in the
search, and any free block is large enough for it.

## Main results
* `firstFit_of_run`, `firstRun_merged` — the first run, before and after the merging;
* `serves_of_fits`, `serves_huge` — when `VSAAlloc` returns what the largest chunk promises;
* `serves_iff` — both, also when `VSALargestChunkAvailable` was called before.
-/

namespace Workbench.Vsa

variable {M n fuel k : Nat} {m m₁ : Mem} {s t size most run : Int} {ss ts pre : List Int} {a : Nat}

/-- The payload of the first block that is large enough. -/
def firstFit (size : Int) : Nat → List Int → Option Nat
  | _, [] => none
  | a, s :: ss => if size ≤ s then some (a + headerSize) else firstFit size (a + s.natAbs + headerSize) ss

/-- `VSAAlloc` returns a block exactly if the largest chunk is large enough: the first run that is. -/
def Serves (m : Mem) (ss : List Int) (most : Int) (n : Nat) : Prop :=
  ∃ fuel m' r, vsaAlloc fuel m n = some (m', r) ∧ (r ≠ none ↔ (n : Int) ≤ most) ∧
    ∀ block, r = some block → firstFit n 0 (merged ss) = some block

/-- The condition. Up to `LONG_MAX`, the first run is large enough, or no run is and the word that is read in place of
    the next header is 0. From there on, every block is allocated and larger than what the size lacks to 2^64. -/
def Straight (m : Mem) (ss : List Int) (n : Nat) : Prop :=
  (n ≤ longMax → ∀ k run, firstRun 0 ss = some (k, run) →
    n ≤ run ∨ blockSize m (k + run.toNat) = 0 ∧ ∀ s ∈ merged ss, s < n) ∧
  (longMax < n → ∀ s ∈ ss, s < toLong n ∨ s = 0)

/-- The search passes the first run, and takes another word than 0 for the next header. -/
def Stray (m : Mem) (ss : List Int) (n : Nat) : Prop :=
  n ≤ longMax ∧ ∃ k run, firstRun 0 ss = some (k, run) ∧ run < n ∧ blockSize m (k + run.toNat) ≠ 0

/-! ## The first run -/

theorem Tiled.nonzero_or (h : Tiled M m ss) : ss = [0] ∨ ∀ s ∈ ss, s ≠ 0 := by
  by_cases hall : ∀ s ∈ ss, s ≠ 0
  · exact .inr hall
  · left
    push Not at hall
    obtain ⟨s, hs, hzero⟩ := hall
    obtain ⟨pre, post, rfl⟩ := List.append_of_mem hs
    obtain ⟨rfl, rfl⟩ := h.zero_alone hzero
    rw [hzero]
    rfl

theorem mergeFrom_neg (hs : s < 0) (ts : List Int) : mergeFrom s ts = s :: mergeAll ts := by
  cases ts with
  | nil => rfl
  | cons t ts => exact if_neg fun hboth => by omega

theorem mergeFrom_pos (hs : 0 < s) (ts : List Int) :
    ∃ rest, mergeFrom s ts = runSize s ts :: rest ∧ ∀ t rest', rest = t :: rest' → ¬ 0 < t := by
  induction ts generalizing s with
  | nil => exact ⟨[], rfl, nofun⟩
  | cons t ts ih =>
      rw [mergeFrom, runSize]
      by_cases ht : 0 < t
      · rw [if_pos ⟨hs, ht⟩, if_pos ht]
        exact ih (by omega)
      · rw [if_neg fun hboth => ht hboth.2, if_neg ht]
        obtain ⟨t', rest, heq, hfree⟩ := mergeFrom_head t ts
        refine ⟨_, rfl, fun u rest' hu => ?_⟩
        obtain ⟨rfl, -⟩ := List.cons.inj (heq.symm.trans hu)
        exact fun hpos => ht (hfree.mp hpos)

/-- The first run is the first free block when the runs are merged. -/
theorem firstRun_mergeAll (hnonzero : ∀ s ∈ ss, s ≠ 0) : firstRun a (mergeAll ss) = firstRun a ss := by
  induction ss generalizing a with
  | nil => rfl
  | cons s ss ih =>
      have hs := hnonzero s List.mem_cons_self
      show firstRun a (mergeFrom s ss) = _
      by_cases hneg : s < 0
      · rw [mergeFrom_neg hneg, firstRun, firstRun, if_pos hneg, if_pos hneg]
        exact ih fun t ht => hnonzero t (List.mem_cons_of_mem s ht)
      · obtain ⟨rest, heq, hend⟩ := mergeFrom_pos (show 0 < s by omega) ss
        have hgrown : s ≤ runSize s ss := le_runSize (by omega)
        have hwhole : runSize (runSize s ss) rest = runSize s ss := by
          cases rest with
          | nil => rfl
          | cons t rest' => exact if_neg (hend t rest' rfl)
        rw [heq, firstRun, firstRun, if_neg hneg, if_neg (by omega), hwhole]

theorem firstRun_merged (h : Tiled M m ss) : firstRun 0 (merged ss) = firstRun 0 ss := by
  rw [← mergeAll_eq]
  rcases h.nonzero_or with rfl | hnonzero
  · rfl
  · exact firstRun_mergeAll hnonzero

/-- The first run, if it is large enough, is the first block that is when the runs are merged. -/
theorem firstFit_mergeAll (hpos : 1 ≤ size) (hnonzero : ∀ s ∈ ss, s ≠ 0) (hrun : firstRun a ss = some (k, run))
    (hlarge : size ≤ run) : firstFit size a (mergeAll ss) = some (k + headerSize) := by
  induction ss generalizing a with
  | nil => cases hrun
  | cons s ss ih =>
      have hs := hnonzero s List.mem_cons_self
      show firstFit size a (mergeFrom s ss) = _
      rw [firstRun] at hrun
      by_cases hneg : s < 0
      · rw [if_pos hneg] at hrun
        rw [mergeFrom_neg hneg, firstFit, if_neg (by omega)]
        exact ih (fun t ht => hnonzero t (List.mem_cons_of_mem s ht)) hrun
      · rw [if_neg hneg] at hrun
        obtain ⟨rfl, rfl⟩ := Prod.mk.inj (Option.some.inj hrun)
        obtain ⟨rest, heq, -⟩ := mergeFrom_pos (show 0 < s by omega) ss
        rw [heq, firstFit, if_pos hlarge]

theorem firstFit_of_run (hpos : 1 ≤ size) (h : Tiled M m ss) (hrun : firstRun 0 ss = some (k, run))
    (hlarge : size ≤ run) : firstFit size 0 (merged ss) = some (k + headerSize) := by
  rw [← mergeAll_eq]
  rcases h.nonzero_or with rfl | hnonzero
  · obtain ⟨-, rfl⟩ := Prod.mk.inj (Option.some.inj hrun)
    exact absurd hlarge (by simp [runSize]; omega)
  · exact firstFit_mergeAll hpos hnonzero hrun hlarge

theorem exists_of_firstFit (h : firstFit size a ss = some k) : ∃ s ∈ ss, size ≤ s := by
  induction ss generalizing a with
  | nil => cases h
  | cons s ss ih =>
      rw [firstFit] at h
      by_cases hlarge : size ≤ s
      · exact ⟨s, List.mem_cons_self, hlarge⟩
      · rw [if_neg hlarge] at h
        obtain ⟨t, ht, hlarge'⟩ := ih h
        exact ⟨t, List.mem_cons_of_mem s ht, hlarge'⟩

theorem neg_of_firstRun_none (h : firstRun a ss = none) : ∀ s ∈ ss, s < 0 := by
  induction ss generalizing a with
  | nil => exact fun s hs => absurd hs List.not_mem_nil
  | cons s ss ih =>
      rw [firstRun] at h
      by_cases hneg : s < 0
      · rw [if_pos hneg] at h
        intro t ht
        rcases List.mem_cons.mp ht with rfl | ht
        · exact hneg
        · exact ih h t ht
      · rw [if_neg hneg] at h
        cases h

/-- Merging makes no block that is below 0, and takes none away. -/
theorem mergeFrom_forall {lo : Int} (hlo : lo < 0) (s : Int) (ts : List Int) :
    (∀ x ∈ mergeFrom s ts, x < lo ∨ x = 0) ↔ ∀ x ∈ s :: ts, x < lo ∨ x = 0 := by
  induction ts generalizing s with
  | nil => rfl
  | cons t ts ih =>
      rw [mergeFrom]
      split
      · next hboth =>
        -- free blocks are on neither side
        rw [ih]
        refine iff_of_false (fun h => ?_) fun h => ?_
        · have hfirst := h (s + t + 16) List.mem_cons_self
          omega
        · have hfirst := h s List.mem_cons_self
          omega
      · rw [List.forall_mem_cons, List.forall_mem_cons, ih]

theorem merged_forall {lo : Int} (hlo : lo < 0) (ss : List Int) :
    (∀ x ∈ merged ss, x < lo ∨ x = 0) ↔ ∀ x ∈ ss, x < lo ∨ x = 0 := by
  rw [← mergeAll_eq]
  cases ss with
  | nil => rfl
  | cons s ss => exact mergeFrom_forall hlo s ss

/-- The largest run is large enough if some run is. -/
theorem le_most_iff (hpos : 1 ≤ size) (h : IsLargest ss most) : size ≤ most ↔ ∃ s ∈ merged ss, size ≤ s := by
  obtain ⟨hupper, hattained⟩ := h
  constructor
  · intro hle
    rcases hattained with ⟨g, hg, rfl⟩ | ⟨-, rfl⟩
    · exact ⟨_, List.mem_map_of_mem (List.mem_filter.mp hg).1, hle⟩
    · omega
  · rintro ⟨s, hs, hle⟩
    obtain ⟨g, hg, rfl⟩ := List.mem_map.mp hs
    rcases group_cases hg with hrun | hnot
    · exact Int.le_trans hle (hupper g hrun)
    · omega

/-! ## Sizes up to `LONG_MAX` -/

/-- When nothing is returned, the promise is kept if no run is large enough. -/
theorem serves_of_none {m' : Mem} (hpos : 1 ≤ n) (hlargest : IsLargest ss most)
    (halloc : vsaAlloc fuel m n = some (m', none)) : Serves m ss most n ↔ ∀ s ∈ merged ss, s < n := by
  have hle : (n : Int) ≤ most ↔ ∃ s ∈ merged ss, (n : Int) ≤ s := le_most_iff (by omega) hlargest
  constructor
  · rintro ⟨fuel', m'', r', halloc', hiff, -⟩ s hs
    obtain ⟨rfl, rfl⟩ := Prod.mk.inj (alloc_unique halloc halloc')
    by_contra hge
    exact hiff.mpr (hle.mpr ⟨s, hs, Int.not_lt.mp hge⟩) rfl
  · intro hall
    refine ⟨fuel, m', none, halloc, iff_of_false (not_not.mpr rfl) ?_, fun block hblock => ?_⟩
    · rw [hle]
      rintro ⟨s, hs, hlarge⟩
      exact absurd (hall s hs) (Int.not_lt.mpr hlarge)
    · cases hblock

/-- **The search finds its way**: the promise is kept if the first run is large enough, or no run is. -/
theorem serves_of_fits (hM : M ≤ longMax) (h : Tiled M m ss) (hpos : 1 ≤ n) (hmax : n ≤ longMax)
    (hlargest : IsLargest ss most) (hfits : Fits m ss n) :
    Serves m ss most n ↔ ∀ k run, firstRun 0 ss = some (k, run) → n ≤ run ∨ ∀ s ∈ merged ss, s < n := by
  obtain ⟨fuel, m', _, r, halloc, -, -, hr⟩ := alloc_spec hM hpos hmax h hfits
  cases hrun : firstRun 0 ss with
  | none =>
      -- all blocks are allocated
      rw [aim_none hrun] at hr
      obtain rfl : r = none := hr
      have hneg := neg_of_firstRun_none ((firstRun_merged h).trans hrun)
      rw [serves_of_none hpos hlargest halloc]
      refine iff_of_true (fun s hs => ?_) fun k run hsome => ?_
      · have hlive := hneg s hs
        omega
      · cases hsome
  | some found =>
      obtain ⟨k, run⟩ := found
      by_cases hlarge : (n : Int) ≤ run
      · -- the first run is large enough, so the largest one is
        rw [aim_enough hrun hlarge] at hr
        obtain rfl : r = some (k + headerSize) := hr
        have hfirst := firstFit_of_run (by omega) h hrun hlarge
        have hle : (n : Int) ≤ most := (le_most_iff (by omega) hlargest).mpr (exists_of_firstFit hfirst)
        refine iff_of_true ⟨fuel, m', _, halloc, iff_of_true (Option.some_ne_none _) hle, ?_⟩ ?_
        · intro block hblock
          rw [hfirst, ← hblock]
        · intro k' run' hsome
          obtain ⟨rfl, rfl⟩ := Prod.mk.inj (Option.some.inj hsome)
          exact .inl hlarge
      · rw [aim_short hrun hlarge] at hr
        obtain rfl : r = none := hr
        rw [serves_of_none hpos hlargest halloc]
        constructor
        · exact fun hall _ _ _ => .inr hall
        · exact fun hcond => (hcond k run rfl).resolve_left hlarge

/-! ## Sizes from `LONG_MAX` on -/

theorem toLong_neg (hn : longMax < n) (hlimit : n < Mem.wordLimit) : toLong n < 0 := by
  unfold longMax at hn
  unfold Mem.wordLimit at hlimit
  have hvalue : toLong n = (n : Int).bmod 18446744073709551616 := BitVec.toInt_ofNat' ..
  rw [hvalue, Int.bmod_def]
  omega

/-- A negative size: the search passes the blocks that are allocated and larger, and stops at any other. -/
theorem find_negative (hneg : size < 0) (h : Tiled M m (pre ++ ss)) :
    ∃ fuel runner, findEnoughBlockSize size fuel m (Vsa.span pre) = some (m, runner) ∧
      (blockSize m runner = 0 ↔ ∀ s ∈ ss, s < size ∨ s = 0) := by
  induction ss generalizing pre with
  | nil =>
      have hend : blockSize m (Vsa.span pre) = 0 := h.end
      refine ⟨1, Vsa.span pre, if_neg fun hgo => hgo.2 hend, iff_of_true hend ?_⟩
      exact fun s hs => absurd hs List.not_mem_nil
  | cons s ss ih =>
      have hsize := h.block.1
      by_cases hpass : s < size
      · have hassoc : pre ++ s :: ss = (pre ++ [s]) ++ ss := List.append_cons pre s ss
        have hstep : findStep m (Vsa.span pre) = (m, Vsa.span (pre ++ [s])) := by
          unfold findStep
          rw [if_pos (by omega), h.getNextBlock]
        obtain ⟨fuel, runner, hfind, hend⟩ := ih (hassoc ▸ h : Tiled M m ((pre ++ [s]) ++ ss))
        refine ⟨fuel + 1, runner, ?_, ?_⟩
        · unfold findEnoughBlockSize
          rw [if_pos (by omega), hstep]
          exact hfind
        · rw [hend, List.forall_mem_cons, and_iff_right (.inl hpass)]
      · -- a free block, one that is allocated and small, or the empty block of the smallest pool
        refine ⟨1, Vsa.span pre, if_neg (by omega), ?_⟩
        rw [hsize, List.forall_mem_cons]
        by_cases hzero : s = 0
        · obtain ⟨-, rfl⟩ := h.zero_alone hzero
          exact iff_of_true hzero ⟨.inr hzero, fun t ht => absurd ht List.not_mem_nil⟩
        · refine iff_of_false hzero fun hall => ?_
          exact hall.1.elim hpass hzero

/-- What is done with the block that was found. -/
theorem alloc_of_find {m' : Mem} {runner : Nat} (hcheck : checkMagicNum m 0 = true)
    (hfind : findEnoughBlockSize (toLong n) fuel m 0 = some (m', runner)) :
    vsaAlloc fuel m n = if blockSize m' runner = 0 then some (m', none)
      else (allocateBlock m' runner (toLong n)).map fun (m, block) => (m, some block) := by
  unfold vsaAlloc
  rw [if_pos hcheck, hfind]

theorem find_of_alloc {r : Mem × Option Nat} (h : vsaAlloc fuel m n = some r) :
    ∃ found, findEnoughBlockSize (toLong n) fuel m 0 = some found := by
  unfold vsaAlloc at h
  split at h
  · cases hfind : findEnoughBlockSize (toLong n) fuel m 0 with
    | none =>
        rw [hfind] at h
        cases h
    | some found => exact ⟨found, rfl⟩
  · cases h

/-- **A size that is negative in the search**: the promise is kept only if no block stops it. -/
theorem serves_huge (h : Tiled M m ss) (hn : longMax < n) (hlimit : n < Mem.wordLimit) (hmost : most < n) :
    Serves m ss most n ↔ ∀ s ∈ ss, s < toLong n ∨ s = 0 := by
  have htiled : Tiled M m ([] ++ ss) := h
  obtain ⟨fuel, runner, hfind, hend⟩ := find_negative (toLong_neg hn hlimit) htiled
  rw [← hend]
  constructor
  · rintro ⟨fuel', m', r, halloc, hiff, -⟩
    obtain ⟨found, hfind'⟩ := find_of_alloc halloc
    obtain rfl := find_unique hfind hfind'
    have hnone : r = none := not_not.mp fun hsome => absurd (hiff.mp hsome) (by omega)
    by_contra hblock
    rw [alloc_of_find h.check hfind', if_neg hblock, hnone] at halloc
    -- what is returned is a block
    obtain ⟨taken, -, htaken⟩ := Option.map_eq_some_iff.mp halloc
    exact absurd (Prod.mk.inj htaken).2 nofun
  · intro hzero
    refine ⟨fuel, m, none, ?_, iff_of_false (not_not.mpr rfl) (by omega), nofun⟩
    rw [alloc_of_find h.check hfind, if_pos hzero]

/-! ## Both -/

theorem fits_of_not_stray (hmax : n ≤ longMax) (h : ¬ Stray m ss n) : Fits m ss n := by
  intro k run hrun
  by_cases hlarge : (n : Int) ≤ run
  · exact .inl hlarge
  · right
    by_contra hword
    exact h ⟨hmax, k, run, hrun, Int.not_le.mp hlarge, hword⟩

theorem Straight.not_stray (h : Straight m ss n) : ¬ Stray m ss n := by
  rintro ⟨hmax, k, run, hrun, hshort, hword⟩
  rcases h.1 hmax k run hrun with hlarge | ⟨hzero, -⟩
  · omega
  · exact hword hzero

theorem serves_iff_straight (hM : M ≤ longMax) (h : Tiled M m ss) (hpos : 1 ≤ n) (hlimit : n < Mem.wordLimit)
    (hlargest : IsLargest ss most) (hmost : most ≤ longMax) (hstray : ¬ Stray m ss n) :
    Serves m ss most n ↔ Straight m ss n := by
  by_cases hmax : n ≤ longMax
  · have hfits := fits_of_not_stray hmax hstray
    rw [serves_of_fits hM h hpos hmax hlargest hfits]
    constructor
    · intro hcond
      refine ⟨fun _ k run hrun => ?_, fun hn => absurd hmax (Nat.not_le.mpr hn)⟩
      by_cases hlarge : (n : Int) ≤ run
      · exact .inl hlarge
      · exact .inr ⟨(hfits k run hrun).resolve_left hlarge, (hcond k run hrun).resolve_left hlarge⟩
    · intro hstraight k run hrun
      exact (hstraight.1 hmax k run hrun).imp_right And.right
  · have hn : longMax < n := Nat.not_le.mp hmax
    rw [serves_huge h hn hlimit (by omega)]
    constructor
    · exact fun hall => ⟨fun hle => absurd hle hmax, fun _ => hall⟩
    · exact fun hstraight => hstraight.2 hn

/-- `VSALargestChunkAvailable` changes nothing that the condition is about. -/
theorem Sweeps.condition (h : Tiled M m ss) (hsweeps : Sweeps M [] ss m m₁) (hlimit : n < Mem.wordLimit) :
    (Straight m₁ (merged ss) n ↔ Straight m ss n) ∧ (Stray m₁ (merged ss) n ↔ Stray m ss n) := by
  have hword {k : Nat} {run : Int} (hrun : firstRun 0 ss = some (k, run)) :
      blockSize m₁ (k + run.toNat) = blockSize m (k + run.toNat) := by
    unfold blockSize
    rw [Mem.load_congr fun b hlo hhi => hsweeps.stale k run hrun b hlo (by omega)]
  unfold Straight Stray
  rw [firstRun_merged h, merged_merged]
  refine ⟨and_congr ?_ ?_, ?_⟩
  · refine forall_congr' fun _ => forall_congr' fun k => forall_congr' fun run => forall_congr' fun hrun => ?_
    rw [hword hrun]
  · exact forall_congr' fun hn => merged_forall (toLong_neg hn hlimit) ss
  · refine and_congr_right fun _ => exists_congr fun k => exists_congr fun run => and_congr_right fun hrun => ?_
    rw [hword hrun]

theorem vsaLargest_unique {fuel' : Nat} {r r' : Mem × Int} (h : vsaLargestChunkAvailable fuel m = some r)
    (h' : vsaLargestChunkAvailable fuel' m = some r') : r = r' := by
  unfold vsaLargestChunkAvailable at h h'
  split at h
  · next hcheck =>
    rw [if_pos hcheck] at h'
    exact largest_unique h h'
  · cases h

/-- The promise is kept exactly under the condition, before `VSALargestChunkAvailable` was called and after. -/
theorem serves_both (hM : M ≤ longMax) (h : Tiled M m ss) (hpos : 1 ≤ n) (hlimit : n < Mem.wordLimit)
    (hlargest : vsaLargestChunkAvailable fuel m = some (m₁, most)) (hnot : ¬ Stray m ss n) :
    (Serves m₁ ss most n ↔ Straight m ss n) ∧ (Serves m ss most n ↔ Straight m ss n) := by
  obtain ⟨fuel', m', hlargest', hsweeps⟩ := largest_spec hM h
  obtain ⟨rfl, rfl⟩ := Prod.mk.inj (vsaLargest_unique hlargest hlargest')
  have hrun := isLargest_foldl ss
  have hrun₁ := isLargest_foldl (merged ss)
  rw [mergeAll_eq]
  rw [merged_merged] at hrun₁
  have htiled : Tiled M m₁ (merged ss) := mergeAll_eq ss ▸ hsweeps.tiled
  -- the largest run is in the pool
  have hmost : (merged ss).foldl max 0 ≤ longMax := by
    by_contra hlarge
    have hlong : 1 ≤ (longMax : Int) + 1 := by omega
    obtain ⟨s, hs, hle⟩ := (le_most_iff hlong hrun).mp (by omega)
    obtain ⟨pre, post, heq⟩ := List.append_of_mem hs
    have hbound : Vsa.span pre + s.natAbs + 32 ≤ M := (heq ▸ htiled : Tiled M m₁ (pre ++ ([s] ++ post))).block.2
    omega
  obtain ⟨hstraight, hstray⟩ := hsweeps.condition h hlimit
  have hafter := serves_iff_straight hM htiled hpos hlimit hrun₁ hmost (hstray.not.mpr hnot)
  unfold Serves at hafter
  rw [merged_merged, hstraight] at hafter
  exact ⟨hafter, serves_iff_straight hM h hpos hlimit hrun hmost hnot⟩

/-- **`VSAAlloc` keeps what the largest chunk promises** under the condition, whether `VSALargestChunkAvailable` was
    called or not. Without the condition it does not, unless the search takes a word for a header that is none. -/
theorem serves_iff (hM : M ≤ longMax) (h : Tiled M m ss) (hpos : 1 ≤ n) (hlimit : n < Mem.wordLimit)
    (hlargest : vsaLargestChunkAvailable fuel m = some (m₁, most)) :
    (Straight m ss n → Serves m₁ ss most n ∧ Serves m ss most n) ∧
      (¬ Stray m ss n → Serves m₁ ss most n ∨ Serves m ss most n → Straight m ss n) := by
  constructor
  · intro hcond
    obtain ⟨hafter, hbefore⟩ := serves_both hM h hpos hlimit hlargest hcond.not_stray
    exact ⟨hafter.mpr hcond, hbefore.mpr hcond⟩
  · intro hnot
    obtain ⟨hafter, hbefore⟩ := serves_both hM h hpos hlimit hlargest hnot
    exact Or.rec hafter.mp hbefore.mp

/-- A run of two free blocks is large enough. -/
theorem serves_sample : ∃ m₁ most, Serves m₁ [-16, 16, 16] most 40 ∧ Serves sampleRun [-16, 16, 16] most 40 := by
  obtain ⟨fuel, m₁, hlargest, -⟩ := largest_spec (by decide) tiled_sampleRun
  have hrun : firstRun 0 [-16, 16, 16] = some (32, 48) := by decide
  refine ⟨m₁, _, (serves_iff (by decide) tiled_sampleRun (by decide) (by decide) hlargest).1 ⟨?_, by decide⟩⟩
  intro _ k run heq
  obtain ⟨-, rfl⟩ := Prod.mk.inj (Option.some.inj (hrun.symm.trans heq))
  exact .inl (by decide)

/-- A pool of 144 bytes: two blocks are allocated, and the first is freed. -/
def sampleWide : Mem := (vsaInit (fun _ => 0) 144).getD fun _ => 0

def sampleSkipped : Mem := vsaFree (allocated (allocated sampleWide 16) 16) 16

theorem tiled_sampleSkipped : Tiled 144 sampleSkipped [16, -16, 48] where
  chain := ⟨by decide +kernel, by decide +kernel, by decide +kernel, trivial⟩
  span := rfl
  last := by decide +kernel
  magic := by decide +kernel
  nonzero := .inr (by decide)

/-- The first run has 16 bytes, and the one behind it 48: `VSAAlloc` of 17 bytes reads a 0 in the first run and does
    not come to the second. -/
theorem run_skipped : ∃ σ ss m₁ most fuel, (system 144).Reachable System.Any σ ∧ Tiled 144 σ.mem ss ∧
    vsaLargestChunkAvailable fuel σ.mem = some (m₁, most) ∧ ¬ Serves m₁ ss most 17 ∧ ¬ Serves σ.mem ss most 17 := by
  have hinit : (system 144).Reachable System.Any ⟨sampleWide, []⟩ := .init ⟨fun _ => 0, rfl, rfl⟩
  have hfirst : Step ⟨sampleWide, []⟩ (.alloc 16) ⟨allocated sampleWide 16, [(16, 16)]⟩ :=
    .alloc (by decide) (by decide) (alloc_eq (by decide +kernel))
  have hsecond : Step ⟨allocated sampleWide 16, [(16, 16)]⟩ (.alloc 16)
      ⟨allocated (allocated sampleWide 16) 16, [(48, 16), (16, 16)]⟩ :=
    .alloc (by decide) (by decide) (alloc_eq (by decide +kernel))
  have hfree : Step ⟨allocated (allocated sampleWide 16) 16, [(48, 16), (16, 16)]⟩ (.free 16)
      ⟨sampleSkipped, [(48, 16)]⟩ := .free (show (16, 16) ∈ [((48 : Nat), (16 : Nat)), (16, 16)] by decide)
  obtain ⟨fuel, m₁, hlargest, -⟩ := largest_spec (by decide) tiled_sampleSkipped
  refine ⟨_, _, m₁, _, fuel, .step (.step (.step hinit trivial hfirst) trivial hsecond) trivial hfree,
    tiled_sampleSkipped, hlargest, ?_⟩
  have hrun : firstRun 0 [16, -16, 48] = some (0, 16) := by decide
  have hstraight : ¬ Straight sampleSkipped [16, -16, 48] 17 := by
    intro hcond
    rcases hcond.1 (by decide) 0 16 hrun with hlarge | ⟨-, hall⟩
    · exact absurd hlarge (by decide)
    · exact absurd (hall 48 (by decide)) (by decide)
  have hstray : ¬ Stray sampleSkipped [16, -16, 48] 17 := by
    rintro ⟨-, k, run, heq, -, hword⟩
    obtain ⟨rfl, rfl⟩ := Prod.mk.inj (Option.some.inj (hrun.symm.trans heq))
    exact hword (by decide +kernel)
  obtain ⟨hafter, hbefore⟩ := serves_both (by decide) tiled_sampleSkipped (by decide) (by decide) hlargest hstray
  exact ⟨fun hserves => hstraight (hafter.mp hserves), fun hserves => hstraight (hbefore.mp hserves)⟩

end Workbench.Vsa
