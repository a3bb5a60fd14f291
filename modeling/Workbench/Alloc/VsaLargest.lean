import Mathlib.Algebra.Order.BigOperators.Group.List
import Mathlib.Algebra.Order.Ring.Int
import Mathlib.Data.List.SplitBy
import Workbench.Alloc.VsaRuns

/-!
# `Alloc.VsaLargest` — the largest chunk

A run is a maximal sequence of adjacent free blocks; as one block it has the headers between as well.

## Main results
* `freeRuns`, `merged` — the runs, and the blocks with every run as one block; `mergeAll_eq`;
* `isLargest_foldl` — the largest run, as `VSALargestChunkAvailable` finds it;
* `largest_chunk` — what the call returns, and what it leaves.
-/

namespace Workbench.Vsa

variable {M : Nat} {m : Mem} {s t most : Int} {ss ts g : List Int}

/-! ## Runs of free blocks -/

def bothFree (s t : Int) : Bool := 0 < s && 0 < t

/-- The blocks in groups: a group is a run, or one block that is allocated. -/
def groups (ss : List Int) : List (List Int) := ss.splitBy bothFree

/-- The runs of adjacent free blocks, as long as possible. -/
def freeRuns (ss : List Int) : List (List Int) := (groups ss).filter fun g => g.all fun s => 0 < s

/-- The size of a group of `k` blocks as one block: `k - 1` headers are in it. -/
def runTotal (g : List Int) : Int := g.sum + 16 * (g.length - 1 : Nat)

/-- The blocks with each run as one block. -/
def merged (ss : List Int) : List Int := (groups ss).map runTotal

/-- The largest run, or 0 if there is none. -/
def IsLargest (ss : List Int) (most : Int) : Prop :=
  (∀ g ∈ freeRuns ss, runTotal g ≤ most) ∧
    ((∃ g ∈ freeRuns ss, most = runTotal g) ∨ freeRuns ss = [] ∧ most = 0)

theorem bothFree_iff : bothFree s t = true ↔ 0 < s ∧ 0 < t := by
  unfold bothFree
  rw [Bool.and_eq_true, decide_eq_true_iff, decide_eq_true_iff]

theorem runTotal_singleton : runTotal [s] = s := by
  simp [runTotal]

theorem runTotal_append : runTotal (g ++ [s]) = g.sum + s + 16 * g.length := by
  simp [runTotal]

theorem isChain_of_free (hfree : g = [] ∨ ∀ x ∈ g ++ [s], 0 < x) :
    (g ++ [s]).IsChain fun x y => bothFree x y = true := by
  rcases hfree with rfl | hfree
  · exact List.isChain_singleton s
  · apply List.Pairwise.isChain
    refine List.pairwise_of_forall_mem_list fun x hx y hy => ?_
    exact bothFree_iff.mpr ⟨hfree x hx, hfree y hy⟩

/-- A group is free if its last block is. -/
theorem runTotal_pos (hfree : g = [] ∨ ∀ x ∈ g ++ [s], 0 < x) : 0 < runTotal (g ++ [s]) ↔ 0 < s := by
  rw [runTotal_append]
  rcases hfree with rfl | hfree
  · simp
  · have hlast : 0 < s := hfree s (List.mem_append_right g (List.mem_singleton_self s))
    have hsum : 0 ≤ g.sum := List.sum_nonneg fun x hx => Int.le_of_lt (hfree x (List.mem_append_left _ hx))
    exact iff_of_true (by omega) hlast

theorem groups_of_free (hfree : g = [] ∨ ∀ x ∈ g ++ [s], 0 < x) : groups (g ++ [s]) = [g ++ [s]] :=
  List.splitBy_of_isChain (List.append_ne_nil_of_right_ne_nil g (List.cons_ne_nil s [])) (isChain_of_free hfree)

/-- A group that is begun goes on while the blocks are free. -/
theorem mergeFrom_eq (hfree : g = [] ∨ ∀ x ∈ g ++ [s], 0 < x) :
    merged (g ++ [s] ++ ts) = mergeFrom (runTotal (g ++ [s])) ts := by
  induction ts generalizing g s with
  | nil =>
      rw [List.append_nil, merged, groups_of_free hfree]
      rfl
  | cons t ts ih =>
      have hlast := runTotal_pos hfree
      rw [mergeFrom]
      by_cases hboth : 0 < s ∧ 0 < t
      · have hfree' : g ++ [s] = [] ∨ ∀ x ∈ g ++ [s] ++ [t], 0 < x := by
          right
          intro x hx
          rcases List.mem_append.mp hx with hx | hx
          · rcases hfree with rfl | hfree
            · exact (List.mem_singleton.mp hx) ▸ hboth.1
            · exact hfree x hx
          · exact (List.mem_singleton.mp hx) ▸ hboth.2
        have htotal : runTotal (g ++ [s] ++ [t]) = runTotal (g ++ [s]) + t + 16 := by
          rw [runTotal_append, runTotal_append, List.sum_append, List.sum_singleton, List.length_append,
            List.length_singleton]
          omega
        rw [if_pos ⟨hlast.mpr hboth.1, hboth.2⟩, ← htotal, List.append_cons]
        exact ih hfree'
      · -- the group ends here
        rw [if_neg fun h => hboth ⟨hlast.mp h.1, h.2⟩]
        have hend : ∀ x ∈ (g ++ [s]).getLast?, bothFree x t = false := by
          intro x hx
          rw [List.getLast?_concat, Option.mem_some_iff] at hx
          rw [← hx, Bool.eq_false_iff]
          exact fun h => hboth (bothFree_iff.mp h)
        have hsplit : groups (g ++ [s] ++ t :: ts) = [g ++ [s]] ++ groups (t :: ts) := by
          rw [← groups_of_free hfree]
          exact List.splitBy_append_cons ts hend
        have hrest : merged ([] ++ [t] ++ ts) = mergeFrom (runTotal ([] ++ [t])) ts := ih (.inl rfl)
        rw [List.nil_append, runTotal_singleton] at hrest
        rw [← hrest, merged, hsplit]
        rfl

/-- **What the loops make of the blocks.** -/
theorem mergeAll_eq (ss : List Int) : mergeAll ss = merged ss := by
  cases ss with
  | nil => rfl
  | cons s ss =>
      have hgroup : merged ([] ++ [s] ++ ss) = mergeFrom (runTotal ([] ++ [s])) ss := mergeFrom_eq (.inl rfl)
      rw [List.nil_append, runTotal_singleton] at hgroup
      exact hgroup.symm

/-! ## Merging again -/

theorem mergeFrom_head (s : Int) (ts : List Int) : ∃ s' rest, mergeFrom s ts = s' :: rest ∧ (0 < s' ↔ 0 < s) := by
  induction ts generalizing s with
  | nil => exact ⟨s, [], rfl, Iff.rfl⟩
  | cons t ts ih =>
      rw [mergeFrom]
      split
      · next hboth =>
        obtain ⟨s', rest, heq, hfree⟩ := ih (s + t + 16)
        exact ⟨s', rest, heq, hfree.trans (iff_of_true (by omega) hboth.1)⟩
      · exact ⟨s, _, rfl, Iff.rfl⟩

/-- Merged blocks are not merged again. -/
theorem mergeAll_mergeFrom (s : Int) (ts : List Int) : mergeAll (mergeFrom s ts) = mergeFrom s ts := by
  induction ts generalizing s with
  | nil => rfl
  | cons t ts ih =>
      rw [mergeFrom]
      split
      · exact ih _
      · next hnot =>
        obtain ⟨t', rest, heq, hfree⟩ := mergeFrom_head t ts
        have hagain := ih t
        rw [heq] at hagain ⊢
        show mergeFrom s (t' :: rest) = s :: t' :: rest
        rw [mergeFrom, if_neg fun hboth => hnot ⟨hboth.1, hfree.mp hboth.2⟩]
        exact congrArg (s :: ·) hagain

theorem merged_merged (ss : List Int) : merged (merged ss) = merged ss := by
  rw [← mergeAll_eq, ← mergeAll_eq]
  cases ss with
  | nil => rfl
  | cons s ss => exact mergeAll_mergeFrom s ss

/-! ## The largest run -/

theorem free_of_isChain (h : (s :: t :: ts).IsChain fun x y => bothFree x y = true) :
    ∀ x ∈ s :: t :: ts, 0 < x := by
  induction ts generalizing s t with
  | nil =>
      obtain ⟨hs, ht⟩ := bothFree_iff.mp (List.isChain_cons_cons.mp h).1
      intro x hx
      rcases List.mem_cons.mp hx with rfl | hx
      · exact hs
      · exact (List.mem_singleton.mp hx) ▸ ht
  | cons u ts ih =>
      obtain ⟨hfirst, hrest⟩ := List.isChain_cons_cons.mp h
      intro x hx
      rcases List.mem_cons.mp hx with rfl | hx
      · exact (bothFree_iff.mp hfirst).1
      · exact ih hrest x hx

theorem freeRun_pos (hg : g ∈ freeRuns ss) : 0 < runTotal g := by
  obtain ⟨hgroup, hall⟩ := List.mem_filter.mp hg
  have hsum : 0 < g.sum := by
    refine List.sum_pos g (fun x hx => ?_) (List.ne_nil_of_mem_splitBy hgroup)
    exact of_decide_eq_true (List.all_eq_true.mp hall x hx)
  unfold runTotal
  omega

/-- A group is a run, or one block that is not free. -/
theorem group_cases (hg : g ∈ groups ss) : g ∈ freeRuns ss ∨ runTotal g ≤ 0 := by
  -- all blocks of the group are free, or it has one block only
  have hall (hfree : ∀ x ∈ g, 0 < x) : g ∈ freeRuns ss :=
    List.mem_filter.mpr ⟨hg, List.all_eq_true.mpr fun x hx => decide_eq_true (hfree x hx)⟩
  have hchain := List.isChain_of_mem_splitBy hg
  rcases g with _ | ⟨s, _ | ⟨t, ts⟩⟩
  · exact absurd rfl (List.ne_nil_of_mem_splitBy hg)
  · by_cases hs : 0 < s
    · exact .inl (hall fun x hx => (List.mem_singleton.mp hx) ▸ hs)
    · right
      rw [runTotal_singleton]
      omega
  · exact .inl (hall (free_of_isChain hchain))

/-- **The maximum** of the loop is the largest run. -/
theorem isLargest_foldl (ss : List Int) : IsLargest ss ((merged ss).foldl max 0) := by
  have hmax : (0 :: merged ss).max? = some ((merged ss).foldl max 0) := List.max?_cons'
  obtain ⟨hmem, hupper⟩ := List.max?_eq_some_iff.mp hmax
  generalize (merged ss).foldl max 0 = most at hmem hupper
  have hzero : 0 ≤ most := hupper 0 List.mem_cons_self
  have hruns : ∀ g ∈ freeRuns ss, runTotal g ≤ most := by
    intro g hg
    exact hupper _ (List.mem_cons_of_mem _ (List.mem_map_of_mem (List.mem_filter.mp hg).1))
  -- if there is a run, then the maximum is positive
  have hnone (hle : most ≤ 0) : freeRuns ss = [] ∧ most = 0 := by
    refine ⟨List.eq_nil_iff_forall_not_mem.mpr fun g hg => ?_, by omega⟩
    have hle' := hruns g hg
    have hpos := freeRun_pos hg
    omega
  refine ⟨hruns, ?_⟩
  rcases List.mem_cons.mp hmem with rfl | hmem
  · exact .inr (hnone (Int.le_refl 0))
  · obtain ⟨g, hg, rfl⟩ := List.mem_map.mp hmem
    rcases group_cases hg with hrun | hnot
    · exact .inl ⟨g, hrun, rfl⟩
    · exact .inr (hnone hnot)

/-! ## The call -/

/-- **`VSALargestChunkAvailable`** returns the largest run, and leaves each run as one block and the blocks that are
    allocated as they are; called again, it returns the same and changes nothing. -/
theorem largest_chunk (hM : M ≤ longMax) (h : Tiled M m ss) (hnonzero : ∀ s ∈ ss, s ≠ 0) :
    ∃ fuel m' most, vsaLargestChunkAvailable fuel m = some (m', most) ∧ IsLargest ss most ∧
      Tiled M m' (merged ss) ∧ (∀ s ∈ merged ss, s ≠ 0) ∧ used 0 (merged ss) = used 0 ss ∧ Kept m m' (used 0 ss) ∧
      ∃ fuel', vsaLargestChunkAvailable fuel' m' = some (m', most) := by
  obtain ⟨fuel, m', hlargest, hsweeps⟩ := largest_spec hM h
  have htiled : Tiled M m' (mergeAll ss) := hsweeps.tiled
  have hused : used 0 (mergeAll ss) = used 0 ss := hsweeps.used
  -- the second call finds no blocks to merge
  obtain ⟨fuel', m'', hagain, hsweeps'⟩ := largest_spec hM htiled
  have hmerged : mergeAll (mergeAll ss) = mergeAll ss := by
    rw [mergeAll_eq, mergeAll_eq, merged_merged]
  obtain rfl : m'' = m' := hsweeps'.idle hmerged
  rw [hmerged] at hagain
  rw [mergeAll_eq] at hlargest hagain htiled hused
  refine ⟨fuel, _, _, hlargest, isLargest_foldl ss, htiled, ?_, hused, hsweeps.kept, fuel', hagain⟩
  refine htiled.nonzero.resolve_left fun hsmall => ?_
  -- the smallest pool has no room for a block that is not empty
  have hspan := h.span
  cases ss with
  | nil =>
      rw [span_nil] at hspan
      omega
  | cons s ss =>
      have hs := hnonzero s List.mem_cons_self
      rw [span_cons] at hspan
      omega

/-- Two blocks are allocated, and the second is freed: a run of two blocks is behind the first. -/
def sampleRun : Mem := vsaFree (allocated (allocated sampleMem 16) 16) 48

theorem tiled_sampleRun : Tiled 112 sampleRun [-16, 16, 16] where
  chain := ⟨by decide +kernel, by decide +kernel, by decide +kernel, trivial⟩
  span := rfl
  last := by decide +kernel
  magic := by decide +kernel
  nonzero := .inr (by decide)

theorem largest_chunk_sample :
    ∃ fuel m' most, vsaLargestChunkAvailable fuel sampleRun = some (m', most) ∧ IsLargest [-16, 16, 16] most ∧
      Tiled 112 m' (merged [-16, 16, 16]) ∧ (∀ s ∈ merged [-16, 16, 16], s ≠ 0) ∧
      used 0 (merged [-16, 16, 16]) = used 0 [-16, 16, 16] ∧ Kept sampleRun m' (used 0 [-16, 16, 16]) ∧
      ∃ fuel', vsaLargestChunkAvailable fuel' m' = some (m', most) :=
  largest_chunk (by decide) tiled_sampleRun (by decide)

end Workbench.Vsa
