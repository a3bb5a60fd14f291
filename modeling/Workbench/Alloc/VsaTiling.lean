import Mathlib.Data.List.Basic
import Workbench.Alloc.Vsa

/-!
# `Alloc.VsaTiling` — the blocks of the pool

The pool as a list of sizes, with the sign of the header. The functions of the allocator replace blocks of the list by
others that span as much, and do not touch the rest of the memory.

## Main results
* `Chain` — the headers say the sizes; `chain_replace`, the frame rule;
* `used` — the payloads of the blocks that are allocated; `used_replace`;
* `pairwise_used`, `used_no_header` — these payloads are disjoint, and contain no header.
-/

namespace Workbench.Vsa

open Mem (SameOutside)

variable {m m' : Mem} {h k a : Nat} {v s t : Int} {ss ts pre mid mid' post : List Int}

/-! ## Headers, lemmas -/

/-- The numbers that fit into a `long`. -/
def IsLong (v : Int) : Prop := -9223372036854775808 ≤ v ∧ v < 9223372036854775808

theorem toInt_ofInt (hv : IsLong v) : (BitVec.ofInt 64 v).toInt = v := by
  unfold IsLong at hv
  rw [BitVec.toInt_ofInt]
  apply Int.bmod_eq_of_le
  · show -9223372036854775808 ≤ v
    exact hv.1
  · show v < 9223372036854775808
    exact hv.2

theorem blockSize_set (hv : IsLong v) : blockSize (setBlockSize m h v) h = v := by
  unfold blockSize setBlockSize
  rw [Mem.load_store, toInt_ofInt hv]

theorem blockSize_set_ne (hk : k + 8 ≤ h ∨ h + 8 ≤ k) : blockSize (setBlockSize m h v) k = blockSize m k := by
  unfold blockSize setBlockSize
  rw [Mem.load_store_ne _ hk]

theorem blockSize_vsaSet (hv : IsLong v) : blockSize (vsaSetBlockSize m h v) h = v := by
  have hsize : blockSize (vsaSetBlockSize m h v) h = blockSize (setBlockSize m h v) h := by
    unfold blockSize vsaSetBlockSize
    rw [Mem.load_store_ne _ (by omega)]
  rw [hsize, blockSize_set hv]

theorem sameOutside_set {lo hi : Nat} (hlo : lo ≤ h) (hhi : h + 8 ≤ hi) : SameOutside lo hi m (setBlockSize m h v) :=
  .store m _ hlo hhi

theorem sameOutside_vsaSet {lo hi : Nat} (hlo : lo ≤ h) (hhi : h + 16 ≤ hi) :
    SameOutside lo hi m (vsaSetBlockSize m h v) := by
  have hsize : SameOutside lo hi m (setBlockSize m h v) := sameOutside_set hlo (by omega)
  exact hsize.trans (.store _ _ (by omega) (by omega))

theorem blockSize_same {lo hi : Nat} (hm : SameOutside lo hi m m') (hk : k + 8 ≤ lo ∨ hi ≤ k) :
    blockSize m k = blockSize m' k := by
  unfold blockSize
  rw [hm.load hk]

theorem magicNum_same {lo hi : Nat} (hm : SameOutside lo hi m m') (hk : k + 16 ≤ lo ∨ hi ≤ k + 8) :
    magicNum m k = magicNum m' k := by
  unfold magicNum
  rw [hm.load (by omega)]

theorem magicNum_set_ne (hk : h ≤ k ∨ k + 16 ≤ h) : magicNum (setBlockSize m h v) k = magicNum m k := by
  unfold magicNum setBlockSize
  rw [Mem.load_store_ne _ (by omega)]

theorem magicNum_vsaSet : magicNum (vsaSetBlockSize m h v) h = specialMagicNum := by
  unfold magicNum vsaSetBlockSize
  rw [Mem.load_store, toInt_ofInt]
  exact ⟨by decide, by decide⟩

/-! ## Blocks -/

/-- How many bytes the blocks have, with their headers. -/
def span : List Int → Nat
  | [] => 0
  | s :: ss => s.natAbs + headerSize + span ss

/-- The headers from `a` on say these sizes. -/
def Chain (m : Mem) : Nat → List Int → Prop
  | _, [] => True
  | a, s :: ss => blockSize m a = s ∧ Chain m (a + s.natAbs + headerSize) ss

/-- The offsets of the headers. -/
def heads : Nat → List Int → List Nat
  | _, [] => []
  | a, s :: ss => a :: heads (a + s.natAbs + headerSize) ss

/-- The payloads of the blocks that are allocated: offsets and sizes. -/
def used : Nat → List Int → List (Nat × Nat)
  | _, [] => []
  | a, s :: ss =>
      if s < 0 then (a + headerSize, s.natAbs) :: used (a + s.natAbs + headerSize) ss
      else used (a + s.natAbs + headerSize) ss

@[simp] theorem span_nil : span [] = 0 := rfl

@[simp] theorem span_cons : span (s :: ss) = s.natAbs + 16 + span ss := rfl

@[simp] theorem span_append : span (ss ++ ts) = span ss + span ts := by
  induction ss with
  | nil => simp
  | cons s ss ih =>
      rw [List.cons_append, span_cons, span_cons, ih]
      omega

@[simp] theorem chain_nil : Chain m a [] := trivial

theorem chain_cons : Chain m a (s :: ss) ↔ blockSize m a = s ∧ Chain m (a + s.natAbs + 16) ss := Iff.rfl

theorem chain_append : Chain m a (ss ++ ts) ↔ Chain m a ss ∧ Chain m (a + span ss) ts := by
  induction ss generalizing a with
  | nil => simp
  | cons s ss ih =>
      have hstart : a + s.natAbs + 16 + span ss = a + span (s :: ss) := by
        rw [span_cons]
        omega
      rw [List.cons_append, chain_cons, chain_cons, ih, hstart, and_assoc]

theorem used_cons_pos (hs : ¬ s < 0) : used a (s :: ss) = used (a + s.natAbs + 16) ss := if_neg hs

theorem used_cons_neg (hs : s < 0) : used a (s :: ss) = (a + 16, s.natAbs) :: used (a + s.natAbs + 16) ss :=
  if_pos hs

theorem used_append : used a (ss ++ ts) = used a ss ++ used (a + span ss) ts := by
  induction ss generalizing a with
  | nil => simp [used]
  | cons s ss ih =>
      have hstart : a + s.natAbs + 16 + span ss = a + span (s :: ss) := by
        rw [span_cons]
        omega
      rw [List.cons_append]
      by_cases hs : s < 0
      · rw [used_cons_neg hs, used_cons_neg hs, ih, hstart, List.cons_append]
      · rw [used_cons_pos hs, used_cons_pos hs, ih, hstart]

/-- The start of a block is the start of the pool, or behind a header. -/
theorem span_eq_zero_or : span pre = 0 ∨ 16 ≤ span pre := by
  cases pre with
  | nil => exact .inl rfl
  | cons s pre =>
      right
      rw [span_cons]
      omega

/-! ## The frame rule -/

theorem chain_same {lo hi : Nat} (hm : SameOutside lo hi m m') (h : Chain m a ss) (hout : a + span ss ≤ lo ∨ hi ≤ a) :
    Chain m' a ss := by
  induction ss generalizing a with
  | nil => trivial
  | cons s ss ih =>
      rw [span_cons] at hout
      refine ⟨?_, ih h.2 ?_⟩
      · rw [← blockSize_same hm (by omega)]
        exact h.1
      · show a + s.natAbs + 16 + span ss ≤ lo ∨ hi ≤ a + s.natAbs + 16
        omega

/-- **The frame rule**: the blocks around are as before when only the blocks in the middle are written, and the new
    blocks span as much. -/
theorem chain_replace (h : Chain m a (pre ++ (mid ++ post)))
    (hm : SameOutside (a + span pre) (a + span pre + span mid) m m') (hmid : Chain m' (a + span pre) mid')
    (hspan : span mid' = span mid) : Chain m' a (pre ++ (mid' ++ post)) := by
  obtain ⟨hpre, hrest⟩ := chain_append.mp h
  obtain ⟨-, hpost⟩ := chain_append.mp hrest
  refine chain_append.mpr ⟨chain_same hm hpre (.inl (Nat.le_refl _)), chain_append.mpr ⟨hmid, ?_⟩⟩
  -- the blocks behind start where they started
  rw [hspan]
  exact chain_same hm hpost (.inr (Nat.le_refl _))

theorem used_replace (hspan : span mid' = span mid) (hused : used (a + span pre) mid' = used (a + span pre) mid) :
    used a (pre ++ (mid' ++ post)) = used a (pre ++ (mid ++ post)) := by
  simp only [used_append, hused, hspan]

/-! ## Payloads -/

theorem used_bounds {p : Nat × Nat} (hp : p ∈ used a ss) : a + 16 ≤ p.1 ∧ p.1 + p.2 ≤ a + span ss := by
  induction ss generalizing a with
  | nil => cases hp
  | cons s ss ih =>
      rw [span_cons]
      by_cases hs : s < 0
      · rw [used_cons_neg hs] at hp
        rcases List.mem_cons.mp hp with rfl | hp
        · show a + 16 ≤ a + 16 ∧ a + 16 + s.natAbs ≤ _
          omega
        · have hrest := ih hp
          omega
      · rw [used_cons_pos hs] at hp
        have hrest := ih hp
        omega

theorem pairwise_used : (used a ss).Pairwise fun p q => p.1 + p.2 + 16 ≤ q.1 := by
  induction ss generalizing a with
  | nil => exact List.Pairwise.nil
  | cons s ss ih =>
      by_cases hs : s < 0
      · rw [used_cons_neg hs]
        refine List.pairwise_cons.mpr ⟨?_, ih⟩
        intro q hq
        have hbound := (used_bounds hq).1
        show a + 16 + s.natAbs + 16 ≤ q.1
        omega
      · rw [used_cons_pos hs]
        exact ih

/-- Different payloads do not overlap. -/
theorem disjoint_used {p q : Nat × Nat} (hp : p ∈ used a ss) (hq : q ∈ used a ss) (hne : p.1 ≠ q.1) :
    p.1 + p.2 ≤ q.1 ∨ q.1 + q.2 ≤ p.1 := by
  -- the payloads are in order, so the fact holds in one direction and by symmetry in the other
  have hall : ∀ p ∈ used a ss, ∀ q ∈ used a ss, p.1 ≠ q.1 → p.1 + p.2 ≤ q.1 ∨ q.1 + q.2 ≤ p.1 := by
    apply List.Pairwise.forall_of_forall_of_flip
    · intro p _ hne
      exact absurd rfl hne
    · apply pairwise_used.imp
      intro p q hpq _
      omega
    · apply pairwise_used.imp
      intro p q hpq _
      omega
  exact hall p hp q hq hne

theorem heads_bounds (hk : k ∈ heads a ss) : a ≤ k ∧ k + 16 ≤ a + span ss := by
  induction ss generalizing a with
  | nil => cases hk
  | cons s ss ih =>
      rw [span_cons]
      rcases List.mem_cons.mp hk with rfl | hk
      · omega
      · have hrest : a + s.natAbs + 16 ≤ k ∧ k + 16 ≤ a + s.natAbs + 16 + span ss := ih hk
        omega

/-- No header is in a payload, not even in part. -/
theorem used_no_header {p : Nat × Nat} (hp : p ∈ used a ss) (hk : k ∈ heads a ss) : k + 16 ≤ p.1 ∨ p.1 + p.2 ≤ k := by
  induction ss generalizing a with
  | nil => cases hk
  | cons s ss ih =>
      -- a payload of a later block: its header is behind the first one, which is at `a`
      have hrest (hp : p ∈ used (a + s.natAbs + 16) ss) : k + 16 ≤ p.1 ∨ p.1 + p.2 ≤ k := by
        rcases List.mem_cons.mp hk with rfl | hk
        · have hbound := (used_bounds hp).1
          omega
        · exact ih hp hk
      by_cases hs : s < 0
      · rw [used_cons_neg hs] at hp
        rcases List.mem_cons.mp hp with rfl | hp
        · -- the payload is the one of the first block
          show k + 16 ≤ a + 16 ∨ a + 16 + s.natAbs ≤ k
          rcases List.mem_cons.mp hk with rfl | hk
          · omega
          · have hbound : a + s.natAbs + 16 ≤ k := (heads_bounds hk).1
            omega
        · exact hrest hp
      · rw [used_cons_pos hs] at hp
        exact hrest hp

/-- The block of a payload. -/
theorem exists_block {p : Nat × Nat} (hp : p ∈ used a ss) :
    ∃ pre s post, ss = pre ++ ([s] ++ post) ∧ s < 0 ∧ p.1 = a + span pre + 16 ∧ p.2 = s.natAbs := by
  induction ss generalizing a with
  | nil => cases hp
  | cons s ss ih =>
      have hrest (hp : p ∈ used (a + s.natAbs + 16) ss) :
          ∃ pre s' post, s :: ss = pre ++ ([s'] ++ post) ∧ s' < 0 ∧ p.1 = a + span pre + 16 ∧ p.2 = s'.natAbs := by
        obtain ⟨pre, s', post, rfl, hneg, hfst, hsnd⟩ := ih hp
        refine ⟨s :: pre, s', post, rfl, hneg, ?_, hsnd⟩
        rw [hfst, span_cons]
        omega
      by_cases hs : s < 0
      · rw [used_cons_neg hs] at hp
        rcases List.mem_cons.mp hp with rfl | hp
        · exact ⟨[], s, ss, rfl, hs, rfl, rfl⟩
        · exact hrest hp
      · rw [used_cons_pos hs] at hp
        exact hrest hp

end Workbench.Vsa
