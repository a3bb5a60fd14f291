import Workbench.Alloc.VsaCalls

/-!
# `Alloc.VsaRuns` — runs of the variable size allocator

## Main results
* `reachable_safe` — while the searches of `VSAAlloc` find their way, the blocks tile the pool and the client has
  distinct and disjoint payloads;
* `overlapping` — a search that passes a free block reads what the client wrote there as a header.
-/

namespace Workbench.Vsa

variable {M : Nat} {m m' : Mem} {ss : List Int} {live : List (Nat × Nat)} {σ σ' : State}

/-! ## Fuel -/

/-- More fuel does not change what a search finds. -/
theorem find_unique {size : Int} {fuel fuel' runner : Nat} {r r' : Mem × Nat}
    (h : findEnoughBlockSize size fuel m runner = some r)
    (h' : findEnoughBlockSize size fuel' m runner = some r') : r = r' := by
  induction fuel generalizing fuel' m runner with
  | zero => cases h
  | succ fuel ih =>
      cases fuel' with
      | zero => cases h'
      | succ fuel' =>
          unfold findEnoughBlockSize at h h'
          split at h
          · next hgo =>
            rw [if_pos hgo] at h'
            exact ih h h'
          · next hstop =>
            rw [if_neg hstop] at h'
            exact Option.some.inj (h.symm.trans h')

theorem alloc_unique {size fuel fuel' : Nat} {r r' : Mem × Option Nat} (h : vsaAlloc fuel m size = some r)
    (h' : vsaAlloc fuel' m size = some r') : r = r' := by
  unfold vsaAlloc at h h'
  split at h
  · next hcheck =>
    rw [if_pos hcheck] at h'
    cases hfind : findEnoughBlockSize (toLong size) fuel m 0 with
    | none =>
        rw [hfind] at h
        cases h
    | some found =>
        cases hfind' : findEnoughBlockSize (toLong size) fuel' m 0 with
        | none =>
            rw [hfind'] at h'
            cases h'
        | some found' =>
            rw [hfind] at h
            rw [hfind', ← find_unique hfind hfind'] at h'
            exact Option.some.inj (h.symm.trans h')
  · cases h

theorem merge_unique {fuel fuel' runner : Nat} {r r' : Mem} (h : mergeFollowing fuel m runner = some r)
    (h' : mergeFollowing fuel' m runner = some r') : r = r' := by
  induction fuel generalizing fuel' m with
  | zero => cases h
  | succ fuel ih =>
      cases fuel' with
      | zero => cases h'
      | succ fuel' =>
          unfold mergeFollowing at h h'
          simp only at h h'
          split at h
          · next hgo =>
            rw [if_pos hgo] at h'
            exact ih h h'
          · next hstop =>
            rw [if_neg hstop] at h'
            exact Option.some.inj (h.symm.trans h')

theorem largest_unique {fuel fuel' runner : Nat} {most : Int} {r r' : Mem × Int}
    (h : largestFrom fuel m runner most = some r) (h' : largestFrom fuel' m runner most = some r') : r = r' := by
  induction fuel generalizing fuel' m runner most with
  | zero => cases h
  | succ fuel ih =>
      cases fuel' with
      | zero => cases h'
      | succ fuel' =>
          unfold largestFrom at h h'
          split at h
          · next hend =>
            rw [if_pos hend] at h'
            exact Option.some.inj (h.symm.trans h')
          · next hgo =>
            rw [if_neg hgo] at h'
            cases hmerge : mergeFollowing fuel m runner with
            | none =>
                rw [hmerge] at h
                cases h
            | some m₁ =>
                cases hmerge' : mergeFollowing fuel' m runner with
                | none =>
                    rw [hmerge'] at h'
                    cases h'
                | some m₁' =>
                    rw [hmerge] at h
                    rw [hmerge', ← merge_unique hmerge hmerge'] at h'
                    exact ih h h'

/-! ## The invariant -/

/-- The client has the payloads of the blocks that are allocated, and each is as large as it asked for. -/
structure Owns (live : List (Nat × Nat)) (payloads : List (Nat × Nat)) : Prop where
  perm : (live.map Prod.fst).Perm (payloads.map Prod.fst)
  enough : ∀ l ∈ live, ∃ k, (l.1, k) ∈ payloads ∧ l.2 ≤ k

/-- What holds of the pool and the client in every state. -/
def Inv (M : Nat) (σ : State) : Prop := ∃ ss, Tiled M σ.mem ss ∧ Owns σ.live (used 0 ss)

/-- The condition on a step: the search of `VSAAlloc` finds its way. -/
def Careful (M : Nat) (σ : State) : Call → Prop
  | .alloc size => ∀ ss, Tiled M σ.mem ss → Fits σ.mem ss size
  | _ => True

theorem Owns.alloc {payloads payloads' : List (Nat × Nat)} (h : Owns live payloads) {block size k : Nat}
    (hk : size ≤ k) (hperm : payloads'.Perm ((block, k) :: payloads)) : Owns ((block, size) :: live) payloads' where
  perm := ((h.perm.cons block).trans (hperm.map Prod.fst).symm)
  enough := by
    intro l hl
    rcases List.mem_cons.mp hl with rfl | hl
    · exact ⟨k, hperm.mem_iff.mpr List.mem_cons_self, hk⟩
    · obtain ⟨k', hmem, hle⟩ := h.enough l hl
      exact ⟨k', hperm.mem_iff.mpr (List.mem_cons_of_mem _ hmem), hle⟩

theorem nodup_used {a : Nat} : ((used a ss).map Prod.fst).Nodup := by
  apply List.Pairwise.map _ _ pairwise_used
  intro p q hpq heq
  omega

theorem Owns.free {payloads payloads' : List (Nat × Nat)} (h : Owns live payloads)
    (hnd : (payloads.map Prod.fst).Nodup) {block size k : Nat} (hmem : (block, size) ∈ live)
    (hperm : payloads.Perm ((block, k) :: payloads')) : Owns (live.erase (block, size)) payloads' := by
  have herase : live.Perm ((block, size) :: live.erase (block, size)) := List.perm_cons_erase hmem
  have hfst : (block :: (live.erase (block, size)).map Prod.fst).Perm (block :: payloads'.map Prod.fst) :=
    ((herase.map Prod.fst).symm.trans h.perm).trans (hperm.map Prod.fst)
  refine ⟨hfst.cons_inv, ?_⟩
  intro l hl
  obtain ⟨k', hk', hle⟩ := h.enough l (List.mem_of_mem_erase hl)
  rcases List.mem_cons.mp (hperm.mem_iff.mp hk') with heq | hrest
  · -- another live block at the same address
    exfalso
    have hlive : (live.map Prod.fst).Nodup := h.perm.nodup_iff.mpr hnd
    have hnot := ((herase.map Prod.fst).nodup_iff.mp hlive)
    apply (List.nodup_cons.mp hnot).1
    have hfst : l.1 = block := congrArg Prod.fst heq
    have hother : l.1 ∈ (live.erase (block, size)).map Prod.fst := List.mem_map_of_mem hl
    rwa [hfst] at hother
  · exact ⟨k', hrest, hle⟩

theorem Owns.payload {payloads : List (Nat × Nat)} (h : Owns live payloads) {l : Nat × Nat} (hl : l ∈ live) :
    ∃ k, (l.1, k) ∈ payloads ∧ l.2 ≤ k := h.enough l hl

/-- The size in the header of a payload. -/
theorem blockSize_of_used (h : Tiled M m ss) {p : Nat × Nat} (hp : p ∈ used 0 ss) :
    (blockSize m (p.1 - headerSize)).natAbs = p.2 := by
  obtain ⟨pre, s, post, rfl, -, hfst, hsnd⟩ := exists_block hp
  rw [hfst, hsnd, Nat.zero_add]
  show (blockSize m (Vsa.span pre + 16 - 16)).natAbs = s.natAbs
  rw [Nat.add_sub_cancel, h.block.1]

theorem inv_init (hM : M ≤ longMax) (h : (system M).init σ) : Inv M σ := by
  obtain ⟨m, hinit, hlive⟩ := h
  refine ⟨_, init_spec hM hinit, ?_⟩
  rw [hlive]
  have hlarge : ¬ ((M : Int) - 32 < 0) := by
    unfold vsaInit at hinit
    split at hinit
    · cases hinit
    · next hlarge =>
      have hlarge : 32 ≤ M := Nat.not_lt.mp hlarge
      omega
  rw [used_cons_pos hlarge]
  exact ⟨List.Perm.nil, fun l hl => absurd hl List.not_mem_nil⟩

/-- **One step** keeps the invariant. -/
theorem inv_step (hM : M ≤ longMax) {c : Call} (h : Inv M σ) (hcareful : Careful M σ c) (hstep : Step σ c σ') :
    Inv M σ' := by
  obtain ⟨ss, htiled, howns⟩ := h
  cases hstep with
  -- the fuel of the step and the one of the lemma give the same result
  | alloc hpos hmax halloc =>
      obtain ⟨fuel', m', ss', r, halloc', htiled', hallocated, -⟩ :=
        alloc_spec hM hpos hmax htiled (hcareful ss htiled)
      cases alloc_unique halloc halloc'
      obtain ⟨k, hk, hperm⟩ := hallocated
      exact ⟨ss', htiled', howns.alloc hk hperm⟩
  | null hpos hmax halloc =>
      obtain ⟨fuel', m', ss', r, halloc', htiled', hallocated, -⟩ :=
        alloc_spec hM hpos hmax htiled (hcareful ss htiled)
      cases alloc_unique halloc halloc'
      refine ⟨ss', htiled', ?_⟩
      rw [show used 0 ss' = used 0 ss from hallocated]
      exact howns
  | free hmem =>
      obtain ⟨k, hk, -⟩ := howns.payload hmem
      obtain ⟨ss', htiled', hperm⟩ := free_spec hM htiled hk
      exact ⟨ss', htiled', howns.free nodup_used hmem hperm⟩
  | largest hlargest =>
      obtain ⟨fuel', m', hlargest', hsweeps⟩ := largest_spec hM htiled
      unfold vsaLargestChunkAvailable at hlargest hlargest'
      split at hlargest
      · next hcheck =>
        rw [if_pos hcheck] at hlargest'
        cases largest_unique hlargest hlargest'
        refine ⟨mergeAll ss, hsweeps.tiled, ?_⟩
        rw [show used 0 (mergeAll ss) = used 0 ss from hsweeps.used]
        exact howns
      · cases hlargest
  | write hmem hlo hhi =>
      obtain ⟨k, hk, -⟩ := howns.payload hmem
      rw [blockSize_of_used htiled hk] at hhi
      exact ⟨ss, write_spec htiled hk _ hlo hhi, howns⟩

/-! ## Safety -/

/-- The pool and the blocks of the client are as they should be. -/
structure Safe (M : Nat) (σ : State) (ss : List Int) : Prop where
  /-- Walking the headers tiles the pool exactly, up to the end. -/
  tiled : Tiled M σ.mem ss
  /-- The blocks of the client are the payloads of distinct headers. -/
  distinct : (σ.live.map Prod.fst).Nodup
  header : ∀ l ∈ σ.live, ∃ h ∈ heads 0 ss, l.1 = h + headerSize ∧ blockSize σ.mem h < 0 ∧
    l.2 ≤ (blockSize σ.mem h).natAbs
  /-- They are in the pool, before the end. -/
  inside : ∀ l ∈ σ.live, l.1 + (blockSize σ.mem (l.1 - headerSize)).natAbs + headerSize ≤ M
  /-- They are disjoint. -/
  disjoint : ∀ l ∈ σ.live, ∀ l' ∈ σ.live, l.1 ≠ l'.1 →
    l.1 + (blockSize σ.mem (l.1 - headerSize)).natAbs ≤ l'.1 ∨
      l'.1 + (blockSize σ.mem (l'.1 - headerSize)).natAbs ≤ l.1
  /-- They contain no header, not even in part. -/
  no_header : ∀ l ∈ σ.live, ∀ h ∈ heads 0 ss ++ [M - headerSize],
    h + headerSize ≤ l.1 ∨ l.1 + (blockSize σ.mem (l.1 - headerSize)).natAbs ≤ h

theorem mem_heads {a : Nat} {pre post : List Int} {s : Int} : a + Vsa.span pre ∈ heads a (pre ++ ([s] ++ post)) := by
  induction pre generalizing a with
  | nil => exact List.mem_cons_self
  | cons t pre ih =>
      have hstart : a + Vsa.span (t :: pre) = a + t.natAbs + 16 + Vsa.span pre := by
        rw [span_cons]
        omega
      rw [hstart]
      exact List.mem_cons_of_mem _ ih

theorem safe_of_inv (h : Inv M σ) : ∃ ss, Safe M σ ss := by
  obtain ⟨ss, htiled, howns⟩ := h
  have hall := htiled.span
  refine ⟨ss, htiled, howns.perm.nodup_iff.mpr nodup_used, ?_, ?_, ?_, ?_⟩
  · intro l hl
    obtain ⟨k, hk, hle⟩ := howns.payload hl
    obtain ⟨pre, s, post, rfl, hneg, hfst, hsnd⟩ := exists_block hk
    refine ⟨0 + Vsa.span pre, mem_heads, hfst, ?_, ?_⟩
    · rw [Nat.zero_add, htiled.block.1]
      exact hneg
    · rw [Nat.zero_add, htiled.block.1, ← hsnd]
      exact hle
  · intro l hl
    obtain ⟨k, hk, -⟩ := howns.payload hl
    have hbound : l.1 + k ≤ 0 + Vsa.span ss := (used_bounds hk).2
    rw [blockSize_of_used htiled hk]
    show l.1 + k + 16 ≤ M
    omega
  · intro l hl l' hl' hne
    obtain ⟨k, hk, -⟩ := howns.payload hl
    obtain ⟨k', hk', -⟩ := howns.payload hl'
    rw [blockSize_of_used htiled hk, blockSize_of_used htiled hk']
    exact disjoint_used hk hk' hne
  · -- the headers of the blocks, and the one at the end of the pool
    intro l hl h hh
    obtain ⟨k, hk, -⟩ := howns.payload hl
    rw [blockSize_of_used htiled hk]
    rcases List.mem_append.mp hh with hh | hh
    · exact used_no_header hk hh
    · obtain rfl := List.mem_singleton.mp hh
      have hbound : l.1 + k ≤ 0 + Vsa.span ss := (used_bounds hk).2
      right
      show l.1 + k ≤ M - 16
      omega

/-- **The blocks tile the pool** in every state of a run, for every pool that `VSAInit` takes and whatever was in it
    and is written by the client, as long as the search of `VSAAlloc` finds its way. And every call returns. -/
theorem reachable_safe (hlarge : 32 ≤ M) (hM : M ≤ longMax) (h : (system M).Reachable (Careful M) σ) :
    (∃ ss, Safe M σ ss) ∧
      (∀ m, ∃ m', vsaInit m M = some m') ∧
      (∀ size, 1 ≤ size → size ≤ longMax → Careful M σ (.alloc size) → ∃ σ', Step σ (.alloc size) σ') ∧
      ∃ σ', Step σ .largest σ' := by
  have hinv : Inv M σ := System.invariant (fun _ => inv_init hM) (fun _ _ _ => inv_step hM) h
  refine ⟨safe_of_inv hinv, ?_, ?_, ?_⟩
  · intro m
    unfold vsaInit
    rw [if_neg (show ¬ M < 2 * headerSize from Nat.not_lt.mpr hlarge)]
    exact ⟨_, rfl⟩
  · intro size hpos hmax hcareful
    obtain ⟨ss, htiled, -⟩ := hinv
    obtain ⟨fuel, m', ss', r, halloc, -⟩ := alloc_spec hM hpos hmax htiled (hcareful ss htiled)
    cases r with
    | none => exact ⟨_, .null hpos hmax halloc⟩
    | some block => exact ⟨_, .alloc hpos hmax halloc⟩
  · obtain ⟨ss, htiled, -⟩ := hinv
    obtain ⟨fuel, m', hlargest, -⟩ := largest_spec hM htiled
    exact ⟨_, .largest hlargest⟩

/-! ## Samples -/

/-- A pool of 112 bytes. -/
def sampleMem : Mem := (vsaInit (fun _ => 0) 112).getD fun _ => 0

/-- The pool after an allocation. -/
def allocated (m : Mem) (size : Nat) : Mem := ((vsaAlloc 5 m size).map Prod.fst).getD m

theorem alloc_eq {size block : Nat} (h : (vsaAlloc 5 m size).map Prod.snd = some (some block)) :
    vsaAlloc 5 m size = some (allocated m size, some block) := by
  unfold allocated
  cases halloc : vsaAlloc 5 m size with
  | none =>
      rw [halloc] at h
      cases h
  | some r =>
      rw [halloc] at h
      exact congrArg some (Prod.ext rfl (Option.some.inj h))

theorem reachable_sample : (system 112).Reachable ok ⟨sampleMem, []⟩ :=
  .init ⟨fun _ => 0, rfl, rfl⟩

theorem reachable_safe_sample : ∃ ss, Safe 112 ⟨allocated sampleMem 16, [(16, 16)]⟩ ss := by
  have hstep : Step ⟨sampleMem, []⟩ (.alloc 16) ⟨allocated sampleMem 16, [(16, 16)]⟩ :=
    .alloc (by decide) (by decide) (alloc_eq (by decide +kernel))
  have hcareful : Careful 112 ⟨sampleMem, []⟩ (.alloc 16) := by
    intro ss htiled h run hrun
    left
    have hsize : blockSize sampleMem 0 = 80 := by decide +kernel
    cases ss with
    | nil => cases hrun
    | cons s ss =>
        -- the only block is the whole pool
        have hs : s = 80 := htiled.chain.1.symm.trans hsize
        have hall := htiled.span
        subst hs
        cases ss with
        | nil =>
            cases hrun
            decide
        | cons t ts =>
            rw [span_cons, span_cons] at hall
            omega
  exact (reachable_safe (by decide) (by decide) (.step reachable_sample hcareful hstep)).1

/-- Two blocks are allocated, the client writes 40 into the first and frees it. -/
def sampleStale : Mem := vsaFree ((allocated (allocated sampleMem 16) 16).setByte 16 40) 16

/-- The next `VSAAlloc` passes the free block, takes the 40 for the size of a block, and returns the address of a
    header: the new block overlaps the second one. -/
theorem overlapping : ∃ σ, (system 112).Reachable System.Any σ ∧ ¬ ∃ ss, Safe 112 σ ss := by
  have hfirst : Step ⟨sampleMem, []⟩ (.alloc 16) ⟨allocated sampleMem 16, [(16, 16)]⟩ :=
    .alloc (by decide) (by decide) (alloc_eq (by decide +kernel))
  have hsecond : Step ⟨allocated sampleMem 16, [(16, 16)]⟩ (.alloc 16)
      ⟨allocated (allocated sampleMem 16) 16, [(48, 16), (16, 16)]⟩ :=
    .alloc (by decide) (by decide) (alloc_eq (by decide +kernel))
  have hwrite : Step ⟨allocated (allocated sampleMem 16) 16, [(48, 16), (16, 16)]⟩ (.write 16 40)
      ⟨(allocated (allocated sampleMem 16) 16).setByte 16 40, [(48, 16), (16, 16)]⟩ :=
    .write (show (16, 16) ∈ [((48 : Nat), (16 : Nat)), (16, 16)] by decide) (by decide) (by decide +kernel)
  have hfree : Step ⟨(allocated (allocated sampleMem 16) 16).setByte 16 40, [(48, 16), (16, 16)]⟩ (.free 16)
      ⟨sampleStale, [(48, 16)]⟩ := .free (show (16, 16) ∈ [((48 : Nat), (16 : Nat)), (16, 16)] by decide)
  have hstale : Step ⟨sampleStale, [(48, 16)]⟩ (.alloc 17) ⟨allocated sampleStale 17, [(32, 17), (48, 16)]⟩ :=
    .alloc (by decide) (by decide) (alloc_eq (by decide +kernel))
  refine ⟨_, .step (.step (.step (.step (.step reachable_sample trivial hfirst) trivial hsecond) trivial hwrite)
    trivial hfree) trivial hstale, ?_⟩
  rintro ⟨ss, hsafe⟩
  have hdisjoint := hsafe.disjoint (32, 17) List.mem_cons_self (48, 16)
    (List.mem_cons_of_mem _ List.mem_cons_self) (by decide)
  have hfirstSize : (blockSize (allocated sampleStale 17) (32 - headerSize)).natAbs = 17 := by decide +kernel
  rcases hdisjoint with hle | hle
  · rw [hfirstSize] at hle
    exact absurd hle (by decide)
  · exact absurd (Nat.le_trans (Nat.le_add_right _ _) hle) (by decide)

end Workbench.Vsa
