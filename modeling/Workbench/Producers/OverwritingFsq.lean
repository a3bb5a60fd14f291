import Workbench.Lib.Threads
import Workbench.Producers.Fsq

/-!
# `Producers.OverwritingFsq` — `ex4.c`, a queue that overwrites

A producer raises the semaphore, and stores an item afterwards. A consumer lowers the semaphore, and moves `read` if
there seem to be more items than slots. One mutex is for all of them.

## Contents
* `Pc`, `State`, `step` — where a thread is, the program, and the step of one thread;
* `Fresh` — each consumer obtained an item that was stored before, and that no other consumer obtained;
* `stale_run` — a consumer may obtain what nobody stored;
* `fresh_of_orderly` — it is fresh as long as the semaphore counts what is in the queue.
-/

namespace Workbench.Producers.Overwriting

variable {ι : Type}

/-- What a thread does next. -/
inductive Pc
  | semopUp
  | lockProducer
  | callEnq
  | moveWrite (data : Int32)
  | store (data : Int32)
  | increment
  | unlockProducer
  | semopDown
  | lockConsumer
  | getval
  | resetRead
  | setval
  | moveRead
  | load
  | unlockConsumer (data : Int32)
  | finished
  deriving DecidableEq

structure State (ι : Type) where
  fsq : Fsq
  semVal : Nat
  lock : Option ι
  /-- The static variable of `ProducerFunc`. -/
  i : UInt64
  pc : ι → Pc
  /-- What `FsqEnq` stored, in order. -/
  stored : List Int32
  /-- What `FsqDeq` returned to whom, with the number of the item if it was stored and not obtained since. -/
  obtained : List (ι × Int32 × Option Nat)
  /-- The slots that are written and not read since, with the number of the item. -/
  unread : Nat → Option Nat

/-- **Each consumer obtained an item of its own**, one that was stored before. -/
def Fresh (s : State ι) : Prop :=
  (∀ o ∈ s.obtained, ∃ k, o.2.2 = some k ∧ s.stored[k]? = some o.2.1) ∧ (s.obtained.map fun o => o.2.2).Nodup

variable [DecidableEq ι]

def State.goto (s : State ι) (t : ι) (p : Pc) : State ι := { s with pc := Function.update s.pc t p }

/-- The step of the thread `t`: none if it has to wait, or if it is finished. -/
def step (s : State ι) (t : ι) : Option (State ι) :=
  match s.pc t with
  | .semopUp => some ({ s with semVal := s.semVal + 1 }.goto t .lockProducer)
  | .lockProducer => if s.lock = none then some ({ s with lock := some t }.goto t .callEnq) else none
  | .callEnq => some (s.goto t (.moveWrite s.i.toUInt32.toInt32))
  | .moveWrite data => some ({ s with fsq := s.fsq.moveWrite }.goto t (.store data))
  | .store data => do
      let fsq ← s.fsq.store data
      return { s with
        fsq
        stored := s.stored ++ [data]
        unread := Function.update s.unread s.fsq.write (some s.stored.length) }.goto t .increment
  | .increment => some ({ s with i := s.i + 1 }.goto t .unlockProducer)
  | .unlockProducer => some ({ s with lock := none }.goto t .finished)
  | .semopDown => if 0 < s.semVal then some ({ s with semVal := s.semVal - 1 }.goto t .lockConsumer) else none
  | .lockConsumer => if s.lock = none then some ({ s with lock := some t }.goto t .getval) else none
  | .getval => some (s.goto t (if s.fsq.capacity < s.semVal then .resetRead else .moveRead))
  | .resetRead => some ({ s with fsq := { s.fsq with read := (s.fsq.write + 1) % s.fsq.capacity } }.goto t .setval)
  | .setval => some ({ s with semVal := s.fsq.capacity }.goto t .moveRead)
  | .moveRead => some ({ s with fsq := s.fsq.moveRead }.goto t .load)
  | .load => do
      let data ← s.fsq.load
      return { s with
        obtained := s.obtained ++ [(t, data, s.unread s.fsq.read)]
        unread := Function.update s.unread s.fsq.read none }.goto t (.unlockConsumer data)
  | .unlockConsumer _ => some ({ s with lock := none }.goto t .finished)
  | .finished => none

/-- The program after `main` created the queue and the semaphore: the threads are producers and consumers. -/
def Start (capacity : Nat) (s : State ι) : Prop :=
  ∃ pc : ι → Pc, (∀ t, pc t = .semopUp ∨ pc t = .semopDown) ∧
    s = ⟨fsqCreat capacity, 0, none, 1, pc, [], [], fun _ => none⟩

/-- The runs of the program. -/
def program (ι : Type) [DecidableEq ι] (capacity : Nat) : System (State ι) ι := .ofThreads (Start capacity) step

/-- The producer 0 raises the semaphore, and the consumer 1 reads a slot that nobody wrote. -/
theorem stale_run : ∃ s : State (Fin 2), (program (Fin 2) 10).Reachable System.Any s ∧ ¬ Fresh s := by
  obtain ⟨s, hreachable, hstate⟩ := System.exists_reachable (Start 10) step System.Any
    ⟨fun t => if t = 0 then .semopUp else .semopDown, fun t => by by_cases ht : t = 0 <;> simp [ht], rfl⟩
    [0, 1, 1, 1, 1, 1] (fun s => decide (s.obtained = [((1 : Fin 2), 0, none)])) (by decide)
  refine ⟨s, hreachable, fun hfresh => ?_⟩
  obtain ⟨k, hk, -⟩ := hfresh.1 (1, 0, none) (by rw [of_decide_eq_true hstate]; exact List.mem_singleton_self _)
  cases hk

/-! ## Runs where the semaphore counts what is in the queue -/

namespace Pc

def inside : Pc → Bool
  | callEnq | moveWrite _ | store _ | increment | unlockProducer | getval | resetRead | setval | moveRead | load
  | unlockConsumer _ => true
  | _ => false

/-- The producer has raised the semaphore, and has not stored yet. -/
def raised : Pc → Nat
  | lockProducer | callEnq | moveWrite _ | store _ => 1
  | _ => 0

/-- The consumer has lowered the semaphore, and has not loaded yet. -/
def lowered : Pc → Nat
  | lockConsumer | getval | resetRead | setval | moveRead | load => 1
  | _ => 0

/-- The index is moved, and the array is not accessed yet. -/
def storing : Pc → Nat
  | store _ => 1
  | _ => 0

def loading : Pc → Nat
  | load => 1
  | _ => 0

/-- The consumer has the lock, and has not loaded yet. -/
def reading : Pc → Nat
  | getval | moveRead | load => 1
  | _ => 0

def resetting : Pc → Nat
  | resetRead | setval => 1
  | _ => 0

/-! The queue is used in the critical section only. -/

theorem storing_out {q : Pc} (h : q.inside = false) : q.storing = 0 := by
  cases q with
  | store data => cases h
  | _ => rfl

theorem loading_out {q : Pc} (h : q.inside = false) : q.loading = 0 := by
  cases q with
  | load => cases h
  | _ => rfl

theorem reading_out {q : Pc} (h : q.inside = false) : q.reading = 0 := by
  cases q with
  | getval => cases h
  | moveRead => cases h
  | load => cases h
  | _ => rfl

end Pc

variable [Fintype ι] {M : Nat} {s s' : State ι} {t : ι} {p q : Pc}

/-- **The semaphore counts what is in the queue**, where it matters:

    * a consumer takes the lock only when some value is in the queue: more consumers were let through, or can be, than
      producers are on their way;
    * a producer stores only when a slot is free;
    * the value of the semaphore that a consumer reads is not above the capacity. -/
def Orderly (s : State ι) (t : ι) : Prop :=
  (s.pc t = .lockConsumer → tally Pc.raised s.pc < s.semVal + tally Pc.lowered s.pc) ∧
  ((s.pc t).storing = 1 → s.semVal + tally Pc.lowered s.pc < s.fsq.capacity + tally Pc.raised s.pc) ∧
  (s.pc t = .getval → s.semVal ≤ s.fsq.capacity)

instance (s : State ι) (t : ι) : Decidable (Orderly s t) := inferInstanceAs (Decidable (_ ∧ _ ∧ _))

/-- The thread in the critical section, and what the semaphore counts. -/
structure Counts (M : Nat) (s : State ι) : Prop where
  lock : Guards Pc.inside s.pc s.lock
  permits : s.semVal + tally Pc.lowered s.pc + s.obtained.length = s.stored.length + tally Pc.raised s.pc
  reading : s.obtained.length + tally Pc.reading s.pc ≤ s.stored.length
  room : s.stored.length ≤ s.obtained.length + M
  resetting : tally Pc.resetting s.pc = 0

/-- What the queue has. -/
def Holds (M : Nat) (s : State ι) : Prop :=
  Slots M s.fsq s.stored (s.obtained.map fun o => o.2.1) s.unread (tally Pc.storing s.pc) (tally Pc.loading s.pc)

/-- The invariant: items are obtained in the order in which they are stored. -/
structure Inv (M : Nat) (s : State ι) : Prop where
  counts : Counts M s
  holds : Holds M s
  numbers : (s.obtained.map fun o => o.2.2) = (List.range s.obtained.length).map some

/-- One thread goes on. -/
theorem Counts.balance (h : Counts M s) (hlock : Guards Pc.inside s'.pc s'.lock) (hold : s.pc t = p)
    (hnew : s'.pc = Function.update s.pc t q)
    (hpermits : s'.semVal + q.lowered + s'.obtained.length + p.raised + s.stored.length =
      s.semVal + p.lowered + s.obtained.length + q.raised + s'.stored.length)
    (hreading : s'.obtained.length + (tally Pc.reading s.pc + q.reading) ≤ s'.stored.length + p.reading)
    (hroom : s'.stored.length ≤ s'.obtained.length + M) (hresetting : q.resetting = 0) : Counts M s' := by
  have hlowereds := tally_update Pc.lowered s.pc t q
  have hraiseds := tally_update Pc.raised s.pc t q
  have hreadings := tally_update Pc.reading s.pc t q
  have hresettings := tally_update Pc.resetting s.pc t q
  rw [hold, ← hnew] at hlowereds hraiseds hreadings hresettings
  have holdPermits := h.permits
  have holdResetting := h.resetting
  exact ⟨hlock, by omega, by omega, hroom, by omega⟩

theorem Counts.step (h : Counts M s) (hcapacity : s.fsq.capacity = M) (horderly : Orderly s t)
    (hstep : step s t = some s') : Counts M s' := by
  obtain ⟨hitem, hslot, hvalue⟩ := horderly
  have hpermits := h.permits
  have hreading := h.reading
  have hroom := h.room
  cases hpc : s.pc t <;>
    simp only [Overwriting.step, hpc, Option.ite_none_right_eq_some, Option.some.injEq, reduceCtorEq] at hstep
  case semopUp =>
    subst hstep
    exact h.balance (h.lock.goes hpc rfl) hpc rfl (by dsimp only [State.goto, Pc.lowered, Pc.raised]; omega) hreading
      hroom rfl
  case callEnq | moveWrite | increment =>
    subst hstep
    exact h.balance (h.lock.goes hpc rfl) hpc rfl rfl hreading hroom rfl
  case lockProducer =>
    obtain ⟨hfree, rfl⟩ := hstep
    exact h.balance (h.lock.lock hfree rfl) hpc rfl rfl hreading hroom rfl
  case store data =>
    obtain ⟨fsq, -, hstep⟩ := Option.bind_eq_some_iff.mp hstep
    obtain rfl := Option.some.inj hstep
    have hslot := hslot (by rw [hpc]; rfl)
    have hlength : (s.stored ++ [data]).length = s.stored.length + 1 := List.length_append
    refine h.balance (h.lock.goes hpc rfl) hpc rfl ?_ ?_ ?_ rfl
    · dsimp only [State.goto, Pc.lowered, Pc.raised]
      omega
    · dsimp only [State.goto, Pc.reading]
      omega
    · dsimp only [State.goto]
      omega
  case unlockProducer | unlockConsumer =>
    subst hstep
    exact h.balance (h.lock.unlock hpc rfl rfl) hpc rfl rfl hreading hroom rfl
  case semopDown =>
    obtain ⟨hpositive, rfl⟩ := hstep
    exact h.balance (h.lock.goes hpc rfl) hpc rfl (by dsimp only [State.goto, Pc.lowered, Pc.raised]; omega) hreading
      hroom rfl
  case lockConsumer =>
    obtain ⟨hfree, rfl⟩ := hstep
    have hitem := hitem hpc
    have hnone : tally Pc.reading s.pc = 0 := h.lock.tally_free hfree fun _ => Pc.reading_out
    refine h.balance (h.lock.lock hfree rfl) hpc rfl rfl ?_ hroom rfl
    dsimp only [State.goto, Pc.reading]
    omega
  case getval =>
    have hvalue := hvalue hpc
    rw [if_neg (by omega)] at hstep
    subst hstep
    exact h.balance (h.lock.goes hpc rfl) hpc rfl rfl (by dsimp only [State.goto, Pc.reading]; omega) hroom rfl
  case resetRead | setval =>
    have hresetting : Pc.resetting (s.pc t) ≤ tally Pc.resetting s.pc := le_tally t
    rw [hpc, Pc.resetting, h.resetting] at hresetting
    cases hresetting
  case moveRead =>
    subst hstep
    exact h.balance (h.lock.goes hpc rfl) hpc rfl rfl (by dsimp only [State.goto, Pc.reading]; omega) hroom rfl
  case load =>
    obtain ⟨data, -, hstep⟩ := Option.bind_eq_some_iff.mp hstep
    obtain rfl := Option.some.inj hstep
    have hlength : (s.obtained ++ [(t, data, s.unread s.fsq.read)]).length = s.obtained.length + 1 := List.length_append
    refine h.balance (h.lock.goes hpc rfl) hpc rfl ?_ ?_ ?_ rfl
    · dsimp only [State.goto, Pc.lowered, Pc.raised]
      omega
    · dsimp only [State.goto, Pc.reading]
      omega
    · dsimp only [State.goto]
      omega

/-- One thread goes on, and the queue is as it has to be then. -/
theorem Holds.of_slots {storing loading : Nat} (hold : s.pc t = p) (hnew : s'.pc = Function.update s.pc t q)
    (h : Slots M s'.fsq s'.stored (s'.obtained.map fun o => o.2.1) s'.unread storing loading)
    (hstoring : storing + p.storing = tally Pc.storing s.pc + q.storing)
    (hloading : loading + p.loading = tally Pc.loading s.pc + q.loading) : Holds M s' := by
  have hstorings := tally_update Pc.storing s.pc t q
  have hloadings := tally_update Pc.loading s.pc t q
  rw [hold, ← hnew] at hstorings hloadings
  rw [Holds, show tally Pc.storing s'.pc = storing by omega, show tally Pc.loading s'.pc = loading by omega]
  exact h

theorem Inv.step (h : Inv M s) (horderly : Orderly s t) (hstep : step s t = some s') : Inv M s' := by
  obtain ⟨hold, hholds, hnumbers⟩ := h
  have hcounts := hold.step hholds.capacity horderly hstep
  have hreading := hold.reading
  have hroom := hold.room
  have hlength : (s.obtained.map fun o => o.2.1).length = s.obtained.length := List.length_map _
  cases hpc : s.pc t <;>
    simp only [Overwriting.step, hpc, Option.ite_none_right_eq_some, Option.some.injEq, reduceCtorEq] at hstep
  case semopUp | callEnq | increment | unlockProducer | unlockConsumer =>
    subst hstep
    exact ⟨hcounts, .of_slots hpc rfl hholds rfl rfl, hnumbers⟩
  case lockProducer | semopDown | lockConsumer =>
    obtain ⟨-, rfl⟩ := hstep
    exact ⟨hcounts, .of_slots hpc rfl hholds rfl rfl, hnumbers⟩
  case getval =>
    have hvalue := horderly.2.2 hpc
    rw [if_neg (by have hcapacity := hholds.capacity; omega)] at hstep
    subst hstep
    exact ⟨hcounts, .of_slots hpc rfl hholds rfl rfl, hnumbers⟩
  case resetRead | setval =>
    have hresetting : Pc.resetting (s.pc t) ≤ tally Pc.resetting s.pc := le_tally t
    rw [hpc, Pc.resetting, hold.resetting] at hresetting
    cases hresetting
  case moveWrite data =>
    subst hstep
    exact ⟨hcounts, .of_slots hpc rfl (Slots.moveWrite hholds) rfl rfl, hnumbers⟩
  case moveRead =>
    subst hstep
    exact ⟨hcounts, .of_slots hpc rfl (Slots.moveRead hholds) rfl rfl, hnumbers⟩
  case store data =>
    have hone : tally Pc.storing s.pc = 1 :=
      hold.lock.tally hpc rfl fun _ => Pc.storing_out
    have hslots := hholds
    rw [Holds, hone] at hslots
    have hslot := horderly.2.1 (by rw [hpc]; rfl)
    have hcapacity := hholds.capacity
    have hpermits := hold.permits
    obtain ⟨-, fsq, hstore, hslots'⟩ := hslots.store data (by omega)
    rw [hstore] at hstep
    obtain rfl := Option.some.inj hstep
    exact ⟨hcounts, .of_slots hpc rfl hslots' (by rw [hone]; rfl) rfl, hnumbers⟩
  case load =>
    have hone : tally Pc.loading s.pc = 1 :=
      hold.lock.tally hpc rfl fun _ => Pc.loading_out
    have hitem : Pc.reading (s.pc t) ≤ tally Pc.reading s.pc := le_tally t
    rw [hpc, Pc.reading] at hitem
    have hslots := hholds
    rw [Holds, hone] at hslots
    obtain ⟨hunread, data, hload, hslots'⟩ := hslots.load (by omega) (by omega)
    rw [hload] at hstep
    obtain rfl := Option.some.inj hstep
    refine ⟨hcounts, .of_slots hpc rfl ?_ rfl (by rw [hone]; rfl), ?_⟩
    · dsimp only [State.goto]
      rw [List.map_append]
      exact hslots'
    · dsimp only [State.goto]
      rw [List.map_append, hnumbers, List.length_append, List.length_singleton, List.range_succ, List.map_append,
        List.map_singleton, List.map_singleton, hunread, hlength]

omit [DecidableEq ι] in
theorem Inv.fresh (h : Inv M s) : Fresh s := by
  refine ⟨fun o ho => ?_, ?_⟩
  · obtain ⟨k, hk⟩ := List.getElem?_of_mem ho
    have hlt : k < s.obtained.length := (List.getElem?_eq_some_iff.mp hk).1
    have hnumber : (s.obtained.map fun o => o.2.2)[k]? = some (some k) := by
      rw [h.numbers, List.getElem?_map, List.getElem?_range hlt]
      rfl
    rw [List.getElem?_map, hk] at hnumber
    refine ⟨k, Option.some.inj hnumber, ?_⟩
    -- what is obtained is a prefix of what is stored
    obtain ⟨rest, hrest⟩ := h.holds.fifo
    rw [← hrest, List.getElem?_append_left (by rw [List.length_map]; exact hlt), List.getElem?_map, hk]
    rfl
  · rw [h.numbers]
    exact List.nodup_range.map fun a b hab => Option.some.inj hab

omit [DecidableEq ι] in
theorem inv_start (hstart : Start M s) : Inv M s := by
  obtain ⟨pc, hpc, rfl⟩ := hstart
  -- every thread is before its first step
  have hzero : ∀ weight : Pc → Nat, weight .semopUp = 0 → weight .semopDown = 0 → tally weight pc = 0 := by
    intro weight hup hdown
    refine tally_zero fun t => ?_
    rcases hpc t with ht | ht
    · rw [ht, hup]
    · rw [ht, hdown]
  refine ⟨⟨.free fun t => ?_, ?_, ?_, Nat.zero_le _, hzero _ rfl rfl⟩, ?_, rfl⟩
  · dsimp only
    rcases hpc t with ht | ht
    · rw [ht]
      rfl
    · rw [ht]
      rfl
  · rw [hzero _ rfl rfl, hzero _ rfl rfl]
    rfl
  · rw [hzero _ rfl rfl]
    rfl
  · rw [Holds, hzero _ rfl rfl, hzero _ rfl rfl]
    exact Slots.created M

/-- **Each consumer obtains an item of its own**, in runs where the semaphore counts what is in the queue. -/
theorem fresh_of_orderly (h : (program ι M).Reachable Orderly s) : Fresh s := by
  have hinv : Inv M s :=
    System.invariant (fun _ h => inv_start h) (fun _ _ _ h horderly hstep => h.step horderly hstep) h
  exact hinv.fresh

/-- The consumer 1 obtains the item of the producer 0. -/
theorem fresh_sample : ∃ s : State (Fin 2), s.obtained = [(1, 1, some 0)] ∧ Fresh s := by
  obtain ⟨s, hreachable, hstate⟩ := System.exists_reachable (Start 10) step Orderly
    ⟨fun t => if t = 0 then .semopUp else .semopDown, fun t => by by_cases ht : t = 0 <;> simp [ht], rfl⟩
    [0, 0, 0, 0, 0, 0, 0, 1, 1, 1, 1, 1] (fun s => decide (s.obtained = [((1 : Fin 2), 1, some 0)])) (by decide)
  exact ⟨s, of_decide_eq_true hstate, fresh_of_orderly hreachable⟩

end Workbench.Producers.Overwriting
