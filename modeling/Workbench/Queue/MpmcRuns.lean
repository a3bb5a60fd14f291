import Workbench.Queue.Mpmc

/-!
# `Queue.MpmcRuns` — the invariant of `MPMCQueue` over every interleaving

A ticket is free, claimed by a producer, published, taken by a consumer and released. Each cell is at one ticket, and
its sequence number says which.

## Main results
* `Phases.current_unique` — a cell is at one ticket;
* `inv_step` — one step of one thread keeps the invariant;
* `mpmc_safe` — tickets are neither lost nor returned twice, and each is returned with its item.
-/

namespace Workbench.Mpmc

open RingBuffer

variable {ι T : Type} {C : Nat} {phase phase' : Nat → Phase} {q r : Phase} {s s' : State ι T} {i : ι} {p : Pc T}
variable {e d e' d' k l : Nat}

/-! ## The tickets of one cell -/

theorem Phases.released_of_lt (h : Phases C phase e d) (hlt : l < k) (hslot : l % C = k % C)
    (hready : Ready C phase k) : phase l = .released := by
  induction k using Nat.strong_induction_on with
  | _ k ih =>
      have hgap : l + C ≤ k := gap_of_slot_eq hlt hslot
      rcases hready with hfirst | hbefore
      · omega
      · by_cases heq : l = k - C
        · rw [heq]
          exact hbefore
        · -- the ticket before is released too, so it was ready
          have hslot' : (k - C) % C = k % C := by
            rw [← slot_round, Nat.sub_add_cancel (show C ≤ k by omega)]
          refine ih (k - C) ?_ (by omega) (hslot.trans hslot'.symm) (h.order _ (by rw [hbefore]; decide))
          by_contra hnot
          have hzero : C = 0 := by omega
          subst hzero
          rw [Nat.mod_zero, Nat.mod_zero] at hslot
          omega

/-- **A cell is at one ticket.** -/
theorem Phases.current_unique (h : Phases C phase e d) (hk : Current C phase k) (hl : Current C phase l)
    (hslot : k % C = l % C) : k = l := by
  rcases Nat.lt_trichotomy k l with hlt | heq | hlt
  · exact absurd (h.released_of_lt hlt hslot hl.1) hk.2
  · exact heq
  · exact absurd (h.released_of_lt hlt hslot.symm hk.1) hl.2

theorem Full.not_free (h : Full phase k) : phase k ≠ .free := by
  rcases h with h | h <;> rw [h] <;> decide

theorem Full.not_claimed (h : Full phase k) : phase k ≠ .claimed := by
  rcases h with h | h <;> rw [h] <;> decide

theorem Full.not_released (h : Full phase k) : phase k ≠ .released := by
  rcases h with h | h <;> rw [h] <;> decide

theorem Phases.current_of_full (h : Phases C phase e d) (hk : Full phase k) : Current C phase k :=
  ⟨h.order k hk.not_free, hk.not_released⟩

theorem Phases.current_of_claimed (h : Phases C phase e d) (hk : phase k = .claimed) : Current C phase k :=
  ⟨h.order k (by rw [hk]; decide), by rw [hk]; decide⟩

/-- The cell of a current ticket is empty or has the item. -/
theorem Current.empty_or_full (h : Current C phase k) : (phase k = .free ∨ phase k = .claimed) ∨ Full phase k := by
  have hnot := h.2
  unfold Full
  cases hphase : phase k with
  | free => exact .inl (.inl rfl)
  | claimed => exact .inl (.inr rfl)
  | published => exact .inr (.inl rfl)
  | taken => exact .inr (.inr rfl)
  | released => exact absurd hphase hnot

theorem current_of_empty (hready : Ready C phase k) (hk : phase k = .free ∨ phase k = .claimed) :
    Current C phase k := by
  refine ⟨hready, ?_⟩
  rcases hk with hk | hk <;> rw [hk] <;> decide

/-! ## One ticket moves on -/

theorem update_eq_iff : Function.update phase k q l = r ↔ l = k ∧ q = r ∨ l ≠ k ∧ phase l = r := by
  by_cases h : l = k
  · subst h
    rw [Function.update_self]
    simp
  · rw [Function.update_of_ne h]
    simp [h]

/-- The tickets of the other phases. -/
theorem update_iff (hk : phase k ≠ r) (hq : q ≠ r) : Function.update phase k q l = r ↔ phase l = r := by
  by_cases h : l = k
  · subst h
    rw [Function.update_self]
    exact ⟨fun h => absurd h hq, fun h => absurd h hk⟩
  · rw [Function.update_of_ne h]

/-- The tickets of a phase that the ticket neither leaves nor reaches. -/
theorem update_other {p₀ : Phase} (hk : phase k = p₀) (hr : r ≠ p₀) (hq : r ≠ q) :
    Function.update phase k q l = r ↔ phase l = r := by
  refine update_iff ?_ hq.symm
  rw [hk]
  exact hr.symm

/-- The tickets of the phase that the ticket leaves. -/
theorem update_iff_leave (hq : q ≠ r) :
    Function.update phase k q l = r ↔ l ≠ k ∧ phase l = r := by
  rw [update_eq_iff]
  constructor
  · rintro (⟨-, h⟩ | h)
    · exact absurd h hq
    · exact h
  · exact .inr

/-- The tickets of the phase that the ticket reaches. -/
theorem update_iff_reach : Function.update phase k q l = q ↔ l = k ∨ phase l = q := by
  rw [update_eq_iff]
  by_cases h : l = k
  · simp [h]
  · simp [h]

/-! The tickets that have items, after each of the four steps of a ticket. -/

theorem full_claim (hk : phase k = .free) : Full (Function.update phase k .claimed) l ↔ Full phase l :=
  or_congr (update_other hk (by decide) (by decide)) (update_other hk (by decide) (by decide))

theorem full_publish (hk : phase k = .claimed) :
    Full (Function.update phase k .published) l ↔ l = k ∨ Full phase l := by
  unfold Full
  rw [update_iff_reach, update_other hk (by decide) (by decide), or_assoc]

theorem full_take (hk : phase k = .published) : Full (Function.update phase k .taken) l ↔ Full phase l := by
  unfold Full
  rw [update_iff_reach, update_iff_leave (by decide)]
  by_cases heq : l = k
  · subst heq
    simp [hk]
  · simp [heq]

theorem full_release (hk : phase k = .taken) :
    Full (Function.update phase k .released) l ↔ l ≠ k ∧ Full phase l := by
  unfold Full
  rw [update_other hk (by decide) (by decide), update_iff_leave (by decide)]
  by_cases heq : l = k
  · subst heq
    simp [hk]
  · simp [heq]

/-- The cells of the other current tickets keep their sequence numbers. -/
theorem Phases.sequence_other (h : Phases C phase e d) (hk : Current C phase k) (sequence : Nat → Nat) (v : Nat)
    (hl : Current C phase l) (hne : l ≠ k) :
    Function.update sequence (k % C) v (l % C) = sequence (l % C) := by
  refine Function.update_of_ne ?_ ..
  exact fun hslot => hne (h.current_unique hl hk hslot)

/-- A ticket that is not released on the way changes nothing for the other tickets of its cell. -/
theorem ready_update (hk : phase k ≠ .released) (hq : q ≠ .released) :
    Ready C (Function.update phase k q) l ↔ Ready C phase l := by
  unfold Ready
  rw [update_iff hk hq]

theorem current_update (hk : phase k ≠ .released) (hq : q ≠ .released) :
    Current C (Function.update phase k q) l ↔ Current C phase l := by
  unfold Current
  rw [ready_update hk hq, Ne, update_iff hk hq]

theorem Phases.advance (h : Phases C phase e d) (hk : phase k ≠ .released) (hq : q ≠ .released)
    (hready : Ready C phase k) (hfree : ∀ l, Function.update phase k q l = .free ↔ e' ≤ l)
    (htaken : ∀ l, Function.update phase k q l = .taken ∨ Function.update phase k q l = .released ↔ l < d') :
    Phases C (Function.update phase k q) e' d' where
  free := hfree
  taken := htaken
  order l hl := by
    rw [ready_update hk hq]
    by_cases heq : l = k
    · rw [heq]
      exact hready
    · rw [Function.update_of_ne heq] at hl
      exact h.order l hl
  current c hc := by
    obtain ⟨l, hslot, hl⟩ := h.current c hc
    exact ⟨l, hslot, (current_update hk hq).mpr hl⟩

/-- The next ticket of the cell of a released ticket becomes ready. -/
theorem ready_release :
    Ready C (Function.update phase k .released) l ↔ Ready C phase l ∨ l = k + C := by
  unfold Ready
  rw [update_iff_reach]
  constructor
  · rintro (h | h | h)
    · exact .inl (.inl h)
    · by_cases hlt : l < C
      · exact .inl (.inl hlt)
      · exact .inr (by omega)
    · exact .inl (.inr h)
  · rintro ((h | h) | h)
    · exact .inl h
    · exact .inr (.inr h)
    · exact .inr (.inl (by omega))

theorem Phases.release (h : Phases C phase e d) (hk : phase k = .taken) :
    Phases C (Function.update phase k .released) e d where
  free l := by
    rw [update_iff (by rw [hk]; decide) (by decide)]
    exact h.free l
  -- the ticket goes on from taken, below `d` in both phases
  taken l := by
    rw [← h.taken l, update_iff_leave (by decide), update_iff_reach]
    by_cases heq : l = k
    · subst heq
      simp [hk]
    · simp [heq]
  order l hl := by
    rw [ready_release]
    by_cases heq : l = k
    · subst heq
      exact .inl (h.order l (by rw [hk]; decide))
    · rw [Function.update_of_ne heq] at hl
      exact .inl (h.order l hl)
  current c hc := by
    obtain ⟨l, hslot, hl⟩ := h.current c hc
    by_cases heq : l = k
    · -- the cell goes on to the next round
      subst heq
      refine ⟨l + C, slot_round.trans hslot, ready_release.mpr (.inr rfl), ?_⟩
      rw [Function.update_of_ne (show l + C ≠ l by omega)]
      intro hnext
      rcases h.order (l + C) (by rw [hnext]; decide) with hlt | hbefore
      · omega
      · rw [Nat.add_sub_cancel, hk] at hbefore
        cases hbefore
    · refine ⟨l, hslot, ready_release.mpr (.inl hl.1), ?_⟩
      rw [Function.update_of_ne heq]
      exact hl.2

/-! ## What the sequence numbers say -/

/-- A producer that finds its position in the cell may claim it. -/
theorem Inv.ready_of_sequence (h : Inv C phase s) (hC : 2 ≤ C) (hseq : s.sequence (k % C) = k) : Ready C phase k := by
  obtain ⟨l, hslot, hl⟩ := h.phases.current (k % C) (Nat.mod_lt _ (by omega))
  -- the cell is empty, and its number is its ticket; or full, and its number is the next one
  rcases hl.empty_or_full with hempty | hfull
  · have hl' := h.empty l hl.1 hempty
    rw [hslot, hseq] at hl'
    rw [hl']
    exact hl.1
  · -- the next number is never a ticket of the same cell
    have hl' := h.full l hfull
    rw [hslot, hseq] at hl'
    have hgap : l + C ≤ k := gap_of_slot_eq (by omega) hslot
    omega

/-- A consumer that finds the number after its position in the cell finds the item of its position there. -/
theorem Inv.full_of_sequence (h : Inv C phase s) (hC : 2 ≤ C) (hseq : s.sequence (k % C) = k + 1) : Full phase k := by
  obtain ⟨l, hslot, hl⟩ := h.phases.current (k % C) (Nat.mod_lt _ (by omega))
  -- the ticket of an empty cell with this number would be in the next cell
  rcases hl.empty_or_full with hempty | hfull
  · have hl' := h.empty l hl.1 hempty
    rw [hslot, hseq] at hl'
    have hgap : k + C ≤ l := gap_of_slot_eq (by omega) hslot.symm
    omega
  · have hl' := h.full l hfull
    rw [hslot, hseq] at hl'
    have heq : l = k := by omega
    rw [← heq]
    exact hfull

/-! ## What the invariant says -/

/-- The cell of the ticket that is written next has no published item that is still to be read. -/
theorem Inv.write_free (h : Inv C phase s) {item : T} (hpc : s.pc i = .enqueueWrite item k) (hl : l ∈ s.succeeded)
    (hslot : l % C = k % C) : l ∈ s.returned.map Prod.fst := by
  have hok := h.pcs i
  rw [hpc] at hok
  rw [h.returned]
  rcases (h.succeeded l).mp hl with hfull | hreleased
  · have heq := h.phases.current_unique (h.phases.current_of_full hfull) (h.phases.current_of_claimed hok.1) hslot
    subst heq
    exact absurd hok.1 hfull.not_claimed
  · exact hreleased

/-- When all calls have returned, the tickets from `dequeue_pos` up to `enqueue_pos` have the items that are left. -/
theorem Inv.left (h : Inv C phase s) (hidle : ∀ i, s.pc i = .idle) (k : Nat) :
    k ∈ s.succeeded ∧ k ∉ s.returned.map Prod.fst ↔ s.dequeuePos ≤ k ∧ k < s.enqueuePos := by
  -- a claimed or taken ticket has a thread that is not idle
  have hclaimed : phase k ≠ .claimed := by
    intro hk
    obtain ⟨i, hi⟩ := h.producing.owner k hk
    simp only [hidle i] at hi
    cases hi
  have htaken : phase k ≠ .taken := by
    intro hk
    obtain ⟨i, hi⟩ := h.consuming.owner k hk
    simp only [hidle i] at hi
    cases hi
  have hfree := h.phases.free k
  have hbelow := h.phases.taken k
  rw [h.succeeded, h.returned]
  unfold Full
  cases hphase : phase k with
  | free =>
      simp [hphase] at hfree hbelow ⊢
      omega
  | claimed => exact absurd hphase hclaimed
  | published =>
      simp [hphase] at hfree hbelow ⊢
      exact ⟨hbelow, hfree⟩
  | taken => exact absurd hphase htaken
  | released =>
      simp [hphase] at hbelow ⊢
      omega

/-! ## What a thread knows goes on to hold -/

theorem PcOk.keep (h : PcOk C phase s p)
    (hclaimed : ∀ (l : Nat) (x : T), s.claimed[l]? = some x → s'.claimed[l]? = some x)
    (hready : ∀ l, Ready C phase l → Ready C phase' l)
    (hfull : ∀ l, Full phase l ∨ phase l = .released → Full phase' l ∨ phase' l = .released)
    (hproducing : ∀ l, p.producing = some l → phase l = .claimed →
      phase' l = .claimed ∧ s'.data (l % C) = s.data (l % C))
    (hconsuming : ∀ l, p.consuming = some l → phase l = .taken → phase' l = .taken) : PcOk C phase' s' p := by
  cases p with
  | enqueueClaim item pos => exact hready pos h
  | enqueueWrite item pos => exact ⟨(hproducing pos rfl h.1).1, hclaimed pos item h.2⟩
  | enqueuePublish item pos =>
      obtain ⟨hphase, hdata⟩ := hproducing pos rfl h.1
      exact ⟨hphase, hclaimed pos item h.2.1, hdata.trans h.2.2⟩
  | dequeueClaim pos => exact hfull pos h
  | dequeueRead pos => exact hconsuming pos rfl h
  | dequeueRelease pos item => exact ⟨hconsuming pos rfl h.1, hclaimed pos item h.2⟩
  | _ => trivial

section

variable [DecidableEq ι]

@[simp] theorem goto_pc_self : (s.goto i p).pc i = p := by
  show Function.update s.pc i p i = p
  exact Function.update_self ..

@[simp] theorem goto_pc_ne {j : ι} (h : j ≠ i) : (s.goto i p).pc j = s.pc j := by
  show Function.update s.pc i p j = s.pc j
  exact Function.update_of_ne h ..

/-- The other threads know what they knew. -/
theorem pcs_goto (hpc : s'.pc = s.pc) (hnew : PcOk C phase' s' p) (hold : ∀ j ≠ i, PcOk C phase' s' (s.pc j))
    (j : ι) : PcOk C phase' (s'.goto i p) ((s'.goto i p).pc j) := by
  by_cases hj : j = i
  · subst hj
    rw [goto_pc_self]
    exact hnew
  · rw [goto_pc_ne hj, hpc]
    exact hold j hj

/-- A thread that keeps its ticket goes on. -/
theorem Inv.goto (h : Inv C phase s) (hnew : PcOk C phase s p) (hproducing : p.producing = (s.pc i).producing)
    (hconsuming : p.consuming = (s.pc i).consuming) : Inv C phase (s.goto i p) where
  phases := h.phases
  length := h.length
  empty := h.empty
  full := h.full
  items := h.items
  pcs := pcs_goto rfl hnew fun j _ => h.pcs j
  producing := by
    refine h.producing.congr (fun j => ?_) fun _ => Iff.rfl
    by_cases hj : j = i
    · subst hj
      rw [goto_pc_self, hproducing]
    · rw [goto_pc_ne hj]
  consuming := by
    refine h.consuming.congr (fun j => ?_) fun _ => Iff.rfl
    by_cases hj : j = i
    · subst hj
      rw [goto_pc_self, hconsuming]
    · rw [goto_pc_ne hj]
  succeeded := h.succeeded
  returned := h.returned
  results := h.results
  succeeded_once := h.succeeded_once
  returned_once := h.returned_once

/-! ## A ticket is claimed, published, taken and released -/

theorem held_goto (f : Pc T → Option Nat) (hpc : s'.pc = s.pc) (hp : f p = f (s.pc i)) (j : ι) :
    f ((s'.goto i p).pc j) = f (s.pc j) := by
  by_cases hj : j = i
  · subst hj
    rw [goto_pc_self, hp]
  · rw [goto_pc_ne hj, hpc]

theorem held_goto_ne (f : Pc T → Option Nat) (hpc : s'.pc = s.pc) (j : ι) (hj : j ≠ i) :
    f ((s'.goto i p).pc j) = f (s.pc j) := by
  rw [goto_pc_ne hj, hpc]

/-- **A producer claims a ticket**: the next one, which is free. -/
theorem Inv.claim (h : Inv C phase s) {item : T} {pos : Nat} (hpc : s.pc i = .enqueueClaim item pos)
    (hpos : s.enqueuePos = pos) :
    Inv C (Function.update phase pos .claimed)
      ({ s with enqueuePos := pos + 1, claimed := s.claimed ++ [item] }.goto i (.enqueueWrite item pos)) := by
  have hfree : phase pos = .free := (h.phases.free pos).mpr (Nat.le_of_eq hpos)
  have hready : Ready C phase pos := by
    have hok := h.pcs i
    rw [hpc] at hok
    exact hok
  have hreleased : ∀ l, Function.update phase pos .claimed l = .released ↔ phase l = .released :=
    fun _ => update_other hfree (by decide) (by decide)
  have htaken : ∀ l, Function.update phase pos .claimed l = .taken ↔ phase l = .taken :=
    fun _ => update_other hfree (by decide) (by decide)
  have hnot : phase pos ≠ .released := by
    rw [hfree]
    decide
  have hproducing : (s.pc i).producing = none := by
    rw [hpc]
    rfl
  have hconsuming : (s.pc i).consuming = none := by
    rw [hpc]
    rfl
  have hlen : s.claimed.length = pos := h.length.trans hpos
  have hclaimed : ∀ (l : Nat) (x : T), s.claimed[l]? = some x → (s.claimed ++ [item])[l]? = some x := by
    intro l x hl
    rw [List.getElem?_append_left (List.getElem?_eq_some_iff.mp hl).1]
    exact hl
  exact {
    phases := by
      refine h.phases.advance hnot (by decide) hready (fun l => ?_) fun l => ?_
      · show _ ↔ pos + 1 ≤ l
        rw [update_iff_leave (by decide), h.phases.free l, hpos]
        omega
      · rw [htaken, hreleased]
        exact h.phases.taken l
    length := by
      show (s.claimed ++ [item]).length = pos + 1
      rw [List.length_append, hlen]
      rfl
    -- the ticket was free before, so its cell had its number
    empty := by
      intro l hl hphase
      refine h.empty l ((ready_update hnot (by decide)).mp hl) ?_
      by_cases heq : l = pos
      · rw [heq]
        exact .inl hfree
      · rw [Function.update_of_ne heq] at hphase
        exact hphase
    full := fun l hl => h.full l ((full_claim hfree).mp hl)
    items := fun l hl => hclaimed l _ (h.items l ((full_claim hfree).mp hl))
    pcs := by
      refine pcs_goto rfl ⟨Function.update_self .., ?_⟩ fun j hj => ?_
      · show (s.claimed ++ [item])[pos]? = some item
        rw [← hlen]
        exact List.getElem?_concat_length
      · refine (h.pcs j).keep hclaimed (fun l hl => (ready_update hnot (by decide)).mpr hl) (fun l hl => ?_)
          (fun l _ hl => ⟨update_iff_reach.mpr (.inr hl), rfl⟩) fun l _ hl => (htaken l).mpr hl
        rw [full_claim hfree, hreleased]
        exact hl
    producing := by
      refine h.producing.take (by rw [hfree]; decide) hproducing ?_ (held_goto_ne Pc.producing rfl)
        fun l => update_iff_reach
      show Pc.producing _ = some pos
      rw [goto_pc_self]
      rfl
    consuming := h.consuming.congr (held_goto Pc.consuming rfl hconsuming.symm) htaken
    succeeded := by
      intro l
      rw [full_claim hfree, hreleased]
      exact h.succeeded l
    returned := by
      intro l
      rw [hreleased]
      exact h.returned l
    results := fun r hr => hclaimed r.1 r.2 (h.results r hr)
    succeeded_once := h.succeeded_once
    returned_once := h.returned_once }

/-- **The item is written** to the cell of the ticket, which is at this ticket alone. -/
theorem Inv.write (h : Inv C phase s) {item : T} {pos : Nat} (hpc : s.pc i = .enqueueWrite item pos) :
    Inv C phase
      ({ s with data := Function.update s.data (pos % C) item }.goto i (.enqueuePublish item pos)) := by
  have hok := h.pcs i
  rw [hpc] at hok
  have hcurrent := h.phases.current_of_claimed hok.1
  have hproducing : (s.pc i).producing = some pos := by
    rw [hpc]
    rfl
  have hconsuming : (s.pc i).consuming = none := by
    rw [hpc]
    rfl
  have hdata : ∀ l, Current C phase l → l ≠ pos →
      Function.update s.data (pos % C) item (l % C) = s.data (l % C) := by
    intro l hl hne
    refine Function.update_of_ne ?_ ..
    exact fun hslot => hne (h.phases.current_unique hl hcurrent hslot)
  exact {
    phases := h.phases
    length := h.length
    empty := h.empty
    full := h.full
    -- the other current tickets have other cells
    items := by
      intro l hl
      have hne : l ≠ pos := by
        rintro rfl
        exact hl.not_claimed hok.1
      show s.claimed[l]? = some (Function.update s.data (pos % C) item (l % C))
      rw [hdata l (h.phases.current_of_full hl) hne]
      exact h.items l hl
    pcs := by
      refine pcs_goto rfl ⟨hok.1, hok.2, Function.update_self ..⟩ fun j hj => ?_
      refine (h.pcs j).keep (fun _ _ hl => hl) (fun _ hl => hl) (fun _ hl => hl) ?_ fun _ _ hl => hl
      intro l hheld hl
      exact ⟨hl, hdata l (h.phases.current_of_claimed hl) (h.producing.ne hproducing hheld hj)⟩
    producing := h.producing.congr (held_goto Pc.producing rfl hproducing.symm) fun _ => Iff.rfl
    consuming := h.consuming.congr (held_goto Pc.consuming rfl hconsuming.symm) fun _ => Iff.rfl
    succeeded := h.succeeded
    returned := h.returned
    results := h.results
    succeeded_once := h.succeeded_once
    returned_once := h.returned_once }

/-- **The item is published**, with the number after the ticket. -/
theorem Inv.publish (h : Inv C phase s) {item : T} {pos : Nat} (hpc : s.pc i = .enqueuePublish item pos) :
    Inv C (Function.update phase pos .published)
      ({ s with
        sequence := Function.update s.sequence (pos % C) (pos + 1)
        succeeded := pos :: s.succeeded }.goto i .idle) := by
  have hok := h.pcs i
  rw [hpc] at hok
  obtain ⟨hphase, hitem, hdata⟩ := hok
  have hcurrent := h.phases.current_of_claimed hphase
  have htaken : ∀ l, Function.update phase pos .published l = .taken ↔ phase l = .taken :=
    fun _ => update_other hphase (by decide) (by decide)
  have hreleased : ∀ l, Function.update phase pos .published l = .released ↔ phase l = .released :=
    fun _ => update_other hphase (by decide) (by decide)
  have hfree : ∀ l, Function.update phase pos .published l = .free ↔ phase l = .free :=
    fun _ => update_other hphase (by decide) (by decide)
  have hnot : phase pos ≠ .released := hcurrent.2
  have hseq := fun l => h.phases.sequence_other hcurrent s.sequence (pos + 1) (l := l)
  have hproducing : (s.pc i).producing = some pos := by
    rw [hpc]
    rfl
  have hconsuming : (s.pc i).consuming = none := by
    rw [hpc]
    rfl
  exact {
    phases := by
      refine h.phases.advance hnot (by decide) hcurrent.1 (fun l => ?_) fun l => ?_
      · rw [hfree]
        exact h.phases.free l
      · rw [htaken, hreleased]
        exact h.phases.taken l
    length := h.length
    -- the cell is not empty any more, and the others keep their numbers
    empty := by
      intro l hl hempty
      rw [hfree, update_iff_leave (by decide)] at hempty
      have hready := (ready_update hnot (by decide)).mp hl
      have hne : l ≠ pos := by
        rintro rfl
        rcases hempty with hempty | hempty
        · rw [hphase] at hempty
          cases hempty
        · exact hempty.1 rfl
      have hempty' : phase l = .free ∨ phase l = .claimed := hempty.imp id And.right
      exact (hseq l (current_of_empty hready hempty') hne).trans (h.empty l hready hempty')
    -- the number that is stored says that the cell is full
    full := by
      intro l hl
      show Function.update s.sequence (pos % C) (pos + 1) (l % C) = l + 1
      by_cases heq : l = pos
      · rw [heq]
        exact Function.update_self ..
      · have hl' := ((full_publish hphase).mp hl).resolve_left heq
        exact (hseq l (h.phases.current_of_full hl') heq).trans (h.full l hl')
    items := by
      intro l hl
      rcases (full_publish hphase).mp hl with rfl | hl'
      · show s.claimed[l]? = some (s.data (l % C))
        rw [hdata]
        exact hitem
      · exact h.items l hl'
    pcs := by
      refine pcs_goto rfl trivial fun j hj => ?_
      refine (h.pcs j).keep (fun _ _ hl => hl) (fun l hl => (ready_update hnot (by decide)).mpr hl) (fun l hl => ?_)
        (fun l hheld hl => ?_) fun l _ hl => (htaken l).mpr hl
      · rw [full_publish hphase, hreleased]
        exact hl.imp .inr id
      · exact ⟨(update_iff_leave (by decide)).mpr ⟨h.producing.ne hproducing hheld hj, hl⟩, rfl⟩
    producing := by
      refine h.producing.drop hproducing ?_ (held_goto_ne Pc.producing rfl) fun l => update_iff_leave (by decide)
      show Pc.producing _ = none
      rw [goto_pc_self]
      rfl
    consuming := h.consuming.congr (held_goto Pc.consuming rfl hconsuming.symm) htaken
    succeeded := by
      intro l
      rw [full_publish hphase, hreleased, or_assoc, ← h.succeeded l]
      exact List.mem_cons
    returned := by
      intro l
      rw [hreleased]
      exact h.returned l
    results := h.results
    -- a claimed ticket was not published before
    succeeded_once := by
      refine List.nodup_cons.mpr ⟨?_, h.succeeded_once⟩
      rw [h.succeeded]
      rintro (hin | hin)
      · exact hin.not_claimed hphase
      · exact hnot hin
    returned_once := h.returned_once }

/-- **A consumer takes a ticket**: the next one, which is published. -/
theorem Inv.take (h : Inv C phase s) {pos : Nat} (hpc : s.pc i = .dequeueClaim pos) (hpos : s.dequeuePos = pos) :
    Inv C (Function.update phase pos .taken) ({ s with dequeuePos := pos + 1 }.goto i (.dequeueRead pos)) := by
  -- no other consumer has taken the ticket since: `dequeue_pos` would be behind it
  have hphase : phase pos = .published := by
    have hok := h.pcs i
    rw [hpc] at hok
    have hnot : ¬ (phase pos = .taken ∨ phase pos = .released) := by
      rw [h.phases.taken pos]
      omega
    rcases hok with (hphase | hphase) | hphase
    · exact hphase
    · exact absurd (.inl hphase) hnot
    · exact absurd (.inr hphase) hnot
  have hcurrent := h.phases.current_of_full (.inl hphase)
  have hreleased : ∀ l, Function.update phase pos .taken l = .released ↔ phase l = .released :=
    fun _ => update_other hphase (by decide) (by decide)
  have hclaimed : ∀ l, Function.update phase pos .taken l = .claimed ↔ phase l = .claimed :=
    fun _ => update_other hphase (by decide) (by decide)
  have hfree : ∀ l, Function.update phase pos .taken l = .free ↔ phase l = .free :=
    fun _ => update_other hphase (by decide) (by decide)
  have hnot : phase pos ≠ .released := hcurrent.2
  have hproducing : (s.pc i).producing = none := by
    rw [hpc]
    rfl
  have hconsuming : (s.pc i).consuming = none := by
    rw [hpc]
    rfl
  exact {
    phases := by
      refine h.phases.advance hnot (by decide) hcurrent.1 (fun l => ?_) fun l => ?_
      · rw [hfree]
        exact h.phases.free l
      · show _ ↔ l < pos + 1
        have hold := h.phases.taken l
        rw [update_iff_reach, hreleased, or_assoc, hold]
        omega
    length := h.length
    empty := by
      intro l hl hempty
      rw [hfree, hclaimed] at hempty
      exact h.empty l ((ready_update hnot (by decide)).mp hl) hempty
    full := fun l hl => h.full l ((full_take hphase).mp hl)
    items := fun l hl => h.items l ((full_take hphase).mp hl)
    pcs := by
      refine pcs_goto rfl (Function.update_self ..) fun j _ => ?_
      refine (h.pcs j).keep (fun _ _ hl => hl) (fun l hl => (ready_update hnot (by decide)).mpr hl) (fun l hl => ?_)
        (fun l _ hl => ⟨(hclaimed l).mpr hl, rfl⟩) fun l _ hl => update_iff_reach.mpr (.inr hl)
      rw [full_take hphase, hreleased]
      exact hl
    producing := h.producing.congr (held_goto Pc.producing rfl hproducing.symm) hclaimed
    consuming := by
      refine h.consuming.take (by rw [hphase]; decide) hconsuming ?_ (held_goto_ne Pc.consuming rfl)
        fun l => update_iff_reach
      show Pc.consuming _ = some pos
      rw [goto_pc_self]
      rfl
    succeeded := by
      intro l
      rw [full_take hphase, hreleased]
      exact h.succeeded l
    returned := by
      intro l
      rw [hreleased]
      exact h.returned l
    results := h.results
    succeeded_once := h.succeeded_once
    returned_once := h.returned_once }

/-- **The cell is released**, with the ticket of the next round. -/
theorem Inv.release (h : Inv C phase s) {item : T} {pos : Nat} (hpc : s.pc i = .dequeueRelease pos item) :
    Inv C (Function.update phase pos .released)
      ({ s with
        sequence := Function.update s.sequence (pos % C) (pos + C)
        returned := (pos, item) :: s.returned }.goto i .idle) := by
  have hok := h.pcs i
  rw [hpc] at hok
  obtain ⟨hphase, hitem⟩ := hok
  have hcurrent := h.phases.current_of_full (.inr hphase)
  have hclaimed : ∀ l, Function.update phase pos .released l = .claimed ↔ phase l = .claimed :=
    fun _ => update_other hphase (by decide) (by decide)
  have hfree : ∀ l, Function.update phase pos .released l = .free ↔ phase l = .free :=
    fun _ => update_other hphase (by decide) (by decide)
  have hseq := fun l => h.phases.sequence_other hcurrent s.sequence (pos + C) (l := l)
  have hproducing : (s.pc i).producing = none := by
    rw [hpc]
    rfl
  have hconsuming : (s.pc i).consuming = some pos := by
    rw [hpc]
    rfl
  exact {
    phases := h.phases.release hphase
    length := h.length
    empty := by
      intro l hl hempty
      show Function.update s.sequence (pos % C) (pos + C) (l % C) = l
      rw [hfree, hclaimed] at hempty
      rcases ready_release.mp hl with hready | heq
      · have hne : l ≠ pos := by
          rintro rfl
          rw [hphase] at hempty
          rcases hempty with hempty | hempty <;> cases hempty
        exact (hseq l (current_of_empty hready hempty) hne).trans (h.empty l hready hempty)
      · -- the ticket of the next round
        rw [heq, slot_round]
        exact Function.update_self ..
    -- the cell that is released is not full any more
    full := by
      intro l hl
      obtain ⟨hne, hl'⟩ := (full_release hphase).mp hl
      exact (hseq l (h.phases.current_of_full hl') hne).trans (h.full l hl')
    items := fun l hl => h.items l ((full_release hphase).mp hl).2
    pcs := by
      refine pcs_goto rfl trivial fun j hj => ?_
      refine (h.pcs j).keep (fun _ _ hl => hl) (fun l hl => ready_release.mpr (.inl hl)) (fun l hl => ?_)
        (fun l _ hl => ⟨(hclaimed l).mpr hl, rfl⟩) fun l hheld hl => ?_
      · rw [full_release hphase, update_iff_reach]
        by_cases heq : l = pos
        · exact .inr (.inl heq)
        · exact hl.imp (fun hl => ⟨heq, hl⟩) .inr
      · exact (update_iff_leave (by decide)).mpr ⟨h.consuming.ne hconsuming hheld hj, hl⟩
    producing := h.producing.congr (held_goto Pc.producing rfl hproducing.symm) hclaimed
    consuming := by
      refine h.consuming.drop hconsuming ?_ (held_goto_ne Pc.consuming rfl) fun l => update_iff_leave (by decide)
      show Pc.consuming _ = none
      rw [goto_pc_self]
      rfl
    succeeded := by
      intro l
      show l ∈ s.succeeded ↔ _
      rw [h.succeeded, full_release hphase, update_iff_reach]
      by_cases heq : l = pos
      · subst heq
        simp [Full, hphase]
      · simp [heq]
    returned := by
      intro l
      show l ∈ pos :: s.returned.map Prod.fst ↔ _
      rw [List.mem_cons, h.returned, update_iff_reach]
    results := by
      intro r hr
      rcases List.mem_cons.mp hr with rfl | hr
      · exact hitem
      · exact h.results r hr
    succeeded_once := h.succeeded_once
    -- a taken ticket was not returned before
    returned_once := by
      refine List.nodup_cons.mpr ⟨?_, h.returned_once⟩
      rw [h.returned, hphase]
      decide }

/-! ## Runs -/

theorem inv_init (h : (system ι T C).init s) : ∃ phase, Inv C phase s := by
  obtain ⟨data, rfl⟩ := h
  refine ⟨fun _ => .free, ⟨⟨?_, ?_, ?_, ?_⟩, rfl, ?_, ?_, ?_, fun _ => trivial, ?_, ?_, ?_, ?_, ?_, List.nodup_nil,
    List.nodup_nil⟩⟩
  · exact fun k => ⟨fun _ => Nat.zero_le k, fun _ => rfl⟩
  · intro k
    simp
  · exact fun k hk => absurd rfl hk
  · exact fun c hc => ⟨c, Nat.mod_eq_of_lt hc, .inl hc, nofun⟩
  · intro k hk _
    rcases hk with hlt | hreleased
    · exact Nat.mod_eq_of_lt hlt
    · cases hreleased
  · rintro k (h | h) <;> cases h
  · rintro k (h | h) <;> cases h
  · exact .none (fun _ => rfl) fun _ h => by cases h
  · exact .none (fun _ => rfl) fun _ h => by cases h
  · intro k
    simp [Full]
  · intro k
    simp
  · exact fun r hr => absurd hr List.not_mem_nil

/-- **One step of one thread** keeps the invariant. -/
theorem inv_step (hC : 2 ≤ C) (h : ∃ phase, Inv C phase s) (hstep : Step C s i s') : ∃ phase, Inv C phase s' := by
  obtain ⟨phase, h⟩ := h
  have hok := h.pcs i
  cases hstep with
  | callEnqueue item hpc => exact ⟨phase, h.goto trivial (by rw [hpc]; rfl) (by rw [hpc]; rfl)⟩
  | callDequeue hpc => exact ⟨phase, h.goto trivial (by rw [hpc]; rfl) (by rw [hpc]; rfl)⟩
  | enqueueLoad hpc => exact ⟨phase, h.goto trivial (by rw [hpc]; rfl) (by rw [hpc]; rfl)⟩
  -- the difference is 0: the number is the position
  | enqueueEmpty hpc hdiff =>
      have hready := h.ready_of_sequence hC (Int.ofNat.inj (Int.sub_eq_zero.mp hdiff))
      exact ⟨phase, h.goto hready (by rw [hpc]; rfl) (by rw [hpc]; rfl)⟩
  | enqueueFull hpc _ => exact ⟨phase, h.goto trivial (by rw [hpc]; rfl) (by rw [hpc]; rfl)⟩
  | enqueueBeaten hpc _ => exact ⟨phase, h.goto trivial (by rw [hpc]; rfl) (by rw [hpc]; rfl)⟩
  | enqueueExchange hpc hpos => exact ⟨_, h.claim hpc hpos⟩
  | enqueueExchangeFails hpc => exact ⟨phase, h.goto trivial (by rw [hpc]; rfl) (by rw [hpc]; rfl)⟩
  | write hpc => exact ⟨phase, h.write hpc⟩
  | publish hpc => exact ⟨_, h.publish hpc⟩
  | dequeueLoad hpc => exact ⟨phase, h.goto trivial (by rw [hpc]; rfl) (by rw [hpc]; rfl)⟩
  -- the difference is 0: the number is the one after the position
  | dequeueReady hpc hdiff =>
      have hfull := h.full_of_sequence hC (Int.ofNat.inj (Int.sub_eq_zero.mp hdiff))
      exact ⟨phase, h.goto (.inl hfull) (by rw [hpc]; rfl) (by rw [hpc]; rfl)⟩
  | dequeueEmpty hpc _ => exact ⟨phase, h.goto trivial (by rw [hpc]; rfl) (by rw [hpc]; rfl)⟩
  | dequeueBeaten hpc _ => exact ⟨phase, h.goto trivial (by rw [hpc]; rfl) (by rw [hpc]; rfl)⟩
  | dequeueExchange hpc hpos => exact ⟨_, h.take hpc hpos⟩
  | dequeueExchangeFails hpc => exact ⟨phase, h.goto trivial (by rw [hpc]; rfl) (by rw [hpc]; rfl)⟩
  | read hpc =>
      -- the ticket is taken: its item is in the cell
      rw [hpc] at hok
      exact ⟨phase, h.goto ⟨hok, h.items _ (.inr hok)⟩ (by rw [hpc]; rfl) (by rw [hpc]; rfl)⟩
  | release hpc => exact ⟨_, h.release hpc⟩

/-- **Any number of producers and consumers**, in every state of every interleaving of their steps. A call of
    `dequeue` that has the ticket `k` returns the item of the call of `enqueue` that has claimed `k`, which was
    successful; no ticket is enqueued twice or returned twice. A cell is not written while it has a published item that
    was not read. When all calls have returned, the tickets in between have the items that are left. -/
theorem mpmc_safe (hC : 2 ≤ C) (h : (system ι T C).Reachable System.Any s) :
    (∀ k item, (k, item) ∈ s.returned → k ∈ s.succeeded ∧ s.claimed[k]? = some item) ∧
      (s.succeeded.Nodup ∧ (s.returned.map Prod.fst).Nodup) ∧
      (∀ i item k, s.pc i = .enqueueWrite item k →
        ∀ l ∈ s.succeeded, l % C = k % C → l ∈ s.returned.map Prod.fst) ∧
      ((∀ i, s.pc i = .idle) → ∀ k, k ∈ s.succeeded ∧ k ∉ s.returned.map Prod.fst ↔
        s.dequeuePos ≤ k ∧ k < s.enqueuePos) := by
  obtain ⟨phase, hinv⟩ := System.invariant (fun _ => inv_init) (fun _ _ _ hinv _ => inv_step hC hinv) h
  refine ⟨?_, ⟨hinv.succeeded_once, hinv.returned_once⟩, fun i item k hpc l => hinv.write_free hpc, hinv.left⟩
  intro k item hr
  refine ⟨(hinv.succeeded k).mpr (.inr ?_), hinv.results _ hr⟩
  exact (hinv.returned k).mp (List.mem_map_of_mem hr)

end

/-- A queue of two cells, with one thread. -/
def sampleStart : State Unit Nat := ⟨fun c => c, fun _ => 0, 0, 0, fun _ => .idle, [], [], []⟩

theorem mpmc_safe_sample : ∃ s, (system Unit Nat 2).Reachable System.Any s ∧ s.returned = [(0, 7)] ∧
    0 ∈ s.succeeded ∧ s.claimed[0]? = some 7 := by
  have hinit : (system Unit Nat 2).Reachable System.Any sampleStart := .init ⟨fun _ => 0, rfl⟩
  have hcalled := hinit.step (a := ()) trivial (.callEnqueue 7 rfl)
  have hat := hcalled.step (a := ()) trivial (.enqueueLoad rfl)
  have hempty := hat.step (a := ()) trivial (.enqueueEmpty rfl rfl)
  have hclaimed := hempty.step (a := ()) trivial (.enqueueExchange rfl rfl)
  have hwritten := hclaimed.step (a := ()) trivial (.write rfl)
  have henqueued := hwritten.step (a := ()) trivial (.publish rfl)
  have hcalled' := henqueued.step (a := ()) trivial (.callDequeue rfl)
  have hat' := hcalled'.step (a := ()) trivial (.dequeueLoad rfl)
  have hready := hat'.step (a := ()) trivial (.dequeueReady rfl rfl)
  have htaken := hready.step (a := ()) trivial (.dequeueExchange rfl rfl)
  have hread := htaken.step (a := ()) trivial (.read rfl)
  have hreturned := hread.step (a := ()) trivial (.release rfl)
  exact ⟨_, hreturned, rfl, (mpmc_safe (by decide) hreturned).1 0 7 List.mem_cons_self⟩

end Workbench.Mpmc
