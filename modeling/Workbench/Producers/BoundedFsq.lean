import Workbench.Lib.Threads
import Workbench.Producers.Fsq

/-!
# `Producers.BoundedFsq` — `ex3_2.c`, a queue between two semaphores

A producer waits for room and posts an item, a consumer waits for an item and posts room. Producers and consumers have
a mutex each, and use the array at the same time.

## Contents
* `Pc`, `State`, `step` — where a thread is, the program, and the step of one thread;
* `Inv` — the invariant: the two mutexes, the permits of the two semaphores, and what the slots have;
* `queue_is_safe` — the main result.
-/

namespace Workbench.Producers.Bounded

variable {ι : Type}

/-- What a thread does next. -/
inductive Pc
  | semWaitWrite
  | lockEnq
  | callEnq
  | moveWrite (data : Int32)
  | store (data : Int32)
  | increment
  | unlockEnq
  | semPostRead
  | semWaitRead
  | lockDeq
  | moveRead
  | load
  | unlockDeq (data : Int32)
  | semPostWrite (data : Int32)
  | finished
  deriving DecidableEq

structure State (ι : Type) where
  fsq : Fsq
  semWrite : Nat
  semRead : Nat
  lockEnq : Option ι
  lockDeq : Option ι
  /-- The static variable of `ProducerFunc`. -/
  i : UInt64
  pc : ι → Pc
  /-- The threads that locked the mutex of the producers, in order, and what they enqueued. -/
  producers : List ι
  enqueued : List (ι × Int32)
  /-- The threads that locked the mutex of the consumers, in order, and what they dequeued. -/
  consumers : List ι
  dequeued : List (ι × Int32)
  /-- The slots that are written and not read since, with the number of the item. -/
  unread : Nat → Option Nat

variable [DecidableEq ι]

def State.goto (s : State ι) (t : ι) (p : Pc) : State ι := { s with pc := Function.update s.pc t p }

/-- The step of the thread `t`: none if it has to wait, or if it is finished. -/
def step (s : State ι) (t : ι) : Option (State ι) :=
  match s.pc t with
  | .semWaitWrite => if 0 < s.semWrite then some ({ s with semWrite := s.semWrite - 1 }.goto t .lockEnq) else none
  | .lockEnq =>
      if s.lockEnq = none then
        some ({ s with lockEnq := some t, producers := s.producers ++ [t] }.goto t .callEnq)
      else none
  | .callEnq => some (s.goto t (.moveWrite s.i.toUInt32.toInt32))
  | .moveWrite data => some ({ s with fsq := s.fsq.moveWrite }.goto t (.store data))
  | .store data => do
      let fsq ← s.fsq.store data
      return { s with
        fsq
        enqueued := s.enqueued ++ [(t, data)]
        unread := Function.update s.unread s.fsq.write (some s.enqueued.length) }.goto t .increment
  | .increment => some ({ s with i := s.i + 1 }.goto t .unlockEnq)
  | .unlockEnq => some ({ s with lockEnq := none }.goto t .semPostRead)
  | .semPostRead => some ({ s with semRead := s.semRead + 1 }.goto t .finished)
  | .semWaitRead => if 0 < s.semRead then some ({ s with semRead := s.semRead - 1 }.goto t .lockDeq) else none
  | .lockDeq =>
      if s.lockDeq = none then
        some ({ s with lockDeq := some t, consumers := s.consumers ++ [t] }.goto t .moveRead)
      else none
  | .moveRead => some ({ s with fsq := s.fsq.moveRead }.goto t .load)
  | .load => do
      let data ← s.fsq.load
      return { s with
        dequeued := s.dequeued ++ [(t, data)]
        unread := Function.update s.unread s.fsq.read none }.goto t (.unlockDeq data)
  | .unlockDeq data => some ({ s with lockDeq := none }.goto t (.semPostWrite data))
  | .semPostWrite _ => some ({ s with semWrite := s.semWrite + 1 }.goto t .finished)
  | .finished => none

/-- The program after `main` created the queue and the semaphores: the threads are producers and consumers. -/
def Start (capacity : Nat) (s : State ι) : Prop :=
  ∃ pc : ι → Pc, (∀ t, pc t = .semWaitWrite ∨ pc t = .semWaitRead) ∧
    s = ⟨fsqCreat capacity, capacity, 0, none, none, 1, pc, [], [], [], [], fun _ => none⟩

/-- The runs of the program. -/
def program (ι : Type) [DecidableEq ι] (capacity : Nat) : System (State ι) ι := .ofThreads (Start capacity) step

/-! ## The invariant -/

namespace Pc

def inEnq : Pc → Bool
  | callEnq | moveWrite _ | store _ | increment | unlockEnq => true
  | _ => false

def inDeq : Pc → Bool
  | moveRead | load | unlockDeq _ => true
  | _ => false

/-- The producer has room, and has not stored yet. -/
def room : Pc → Nat
  | lockEnq | callEnq | moveWrite _ | store _ => 1
  | _ => 0

/-- The producer has stored an item, and has not posted it yet. -/
def stored : Pc → Nat
  | increment | unlockEnq | semPostRead => 1
  | _ => 0

/-- The consumer has an item, and has not loaded it yet. -/
def item : Pc → Nat
  | lockDeq | moveRead | load => 1
  | _ => 0

/-- The consumer has loaded an item, and has not posted the room yet. -/
def loaded : Pc → Nat
  | unlockDeq _ | semPostWrite _ => 1
  | _ => 0

/-- The index is moved, and the array is not accessed yet. -/
def storing : Pc → Nat
  | store _ => 1
  | _ => 0

def loading : Pc → Nat
  | load => 1
  | _ => 0

/-- The mutex is locked, and the queue is not done yet. -/
def enqueuing : Pc → Bool
  | callEnq | moveWrite _ | store _ => true
  | _ => false

def dequeuing : Pc → Bool
  | moveRead | load => true
  | _ => false

/-! The array is accessed in the critical sections only. -/

theorem storing_out {q : Pc} (h : q.inEnq = false) : q.storing = 0 := by
  cases q with
  | store data => cases h
  | _ => rfl

theorem loading_out {q : Pc} (h : q.inDeq = false) : q.loading = 0 := by
  cases q with
  | load => cases h
  | _ => rfl

end Pc

variable [Fintype ι] {M : Nat} {s s' : State ι} {t : ι} {p q : Pc}

/-- The threads in the critical sections, and the permits: each room is in one place, and each item. -/
structure Counts (M : Nat) (s : State ι) : Prop where
  enq : Guards Pc.inEnq s.pc s.lockEnq
  deq : Guards Pc.inDeq s.pc s.lockDeq
  rooms : s.semWrite + tally Pc.room s.pc + tally Pc.loaded s.pc + s.enqueued.length = M + s.dequeued.length
  items : s.semRead + tally Pc.stored s.pc + tally Pc.item s.pc + s.dequeued.length = s.enqueued.length

/-- What the queue has. -/
def Holds (M : Nat) (s : State ι) : Prop :=
  Slots M s.fsq (s.enqueued.map Prod.snd) (s.dequeued.map Prod.snd) s.unread (tally Pc.storing s.pc)
    (tally Pc.loading s.pc)

/-- The invariant. -/
structure Inv (M : Nat) (s : State ι) : Prop where
  counts : Counts M s
  holds : Holds M s
  producers : Turns Pc.enqueuing s.pc s.lockEnq s.producers (s.enqueued.map Prod.fst)
  consumers : Turns Pc.dequeuing s.pc s.lockDeq s.consumers (s.dequeued.map Prod.fst)

/-! ### Permits -/

/-- One thread goes on, and what it has is what the semaphores and the queue lost. -/
theorem Counts.balance (h : Counts M s) (henq : Guards Pc.inEnq s'.pc s'.lockEnq)
    (hdeq : Guards Pc.inDeq s'.pc s'.lockDeq) (hold : s.pc t = p) (hnew : s'.pc = Function.update s.pc t q)
    (hrooms : s'.semWrite + q.room + q.loaded + s'.enqueued.length + s.dequeued.length =
      s.semWrite + p.room + p.loaded + s.enqueued.length + s'.dequeued.length)
    (hitems : s'.semRead + q.stored + q.item + s'.dequeued.length + s.enqueued.length =
      s.semRead + p.stored + p.item + s.dequeued.length + s'.enqueued.length) : Counts M s' := by
  have hroom := tally_update Pc.room s.pc t q
  have hloaded := tally_update Pc.loaded s.pc t q
  have hstored := tally_update Pc.stored s.pc t q
  have hitem := tally_update Pc.item s.pc t q
  rw [hold] at hroom hloaded hstored hitem
  have holdRooms := h.rooms
  have holdItems := h.items
  refine ⟨henq, hdeq, ?_, ?_⟩
  · rw [hnew]
    omega
  · rw [hnew]
    omega

theorem Counts.step (h : Counts M s) (hstep : step s t = some s') : Counts M s' := by
  cases hpc : s.pc t <;>
    simp only [Bounded.step, hpc, Option.ite_none_right_eq_some, Option.some.injEq, reduceCtorEq] at hstep
  case semWaitWrite =>
    obtain ⟨hroom, rfl⟩ := hstep
    exact h.balance (h.enq.goes hpc rfl) (h.deq.goes hpc rfl) hpc rfl
      (by dsimp only [State.goto, Pc.room, Pc.loaded]; omega) rfl
  case lockEnq =>
    obtain ⟨hfree, rfl⟩ := hstep
    exact h.balance (h.enq.lock hfree rfl) (h.deq.goes hpc rfl) hpc rfl rfl rfl
  case callEnq =>
    subst hstep
    exact h.balance (h.enq.goes hpc rfl) (h.deq.goes hpc rfl) hpc rfl rfl rfl
  case moveWrite data =>
    subst hstep
    exact h.balance (h.enq.goes hpc rfl) (h.deq.goes hpc rfl) hpc rfl rfl rfl
  case store data =>
    obtain ⟨fsq, -, hstep⟩ := Option.bind_eq_some_iff.mp hstep
    obtain rfl := Option.some.inj hstep
    exact h.balance (h.enq.goes hpc rfl) (h.deq.goes hpc rfl) hpc rfl
      (by dsimp only [State.goto, Pc.room, Pc.loaded]; rw [List.length_append, List.length_singleton]; omega)
      (by dsimp only [State.goto, Pc.stored, Pc.item]; rw [List.length_append, List.length_singleton]; omega)
  case increment =>
    subst hstep
    exact h.balance (h.enq.goes hpc rfl) (h.deq.goes hpc rfl) hpc rfl rfl rfl
  case unlockEnq =>
    subst hstep
    exact h.balance (h.enq.unlock hpc rfl rfl) (h.deq.goes hpc rfl) hpc rfl rfl rfl
  case semPostRead =>
    subst hstep
    exact h.balance (h.enq.goes hpc rfl) (h.deq.goes hpc rfl) hpc rfl rfl rfl
  case semWaitRead =>
    obtain ⟨hitem, rfl⟩ := hstep
    exact h.balance (h.enq.goes hpc rfl) (h.deq.goes hpc rfl) hpc rfl rfl
      (by dsimp only [State.goto, Pc.stored, Pc.item]; omega)
  case lockDeq =>
    obtain ⟨hfree, rfl⟩ := hstep
    exact h.balance (h.enq.goes hpc rfl) (h.deq.lock hfree rfl) hpc rfl rfl rfl
  case moveRead =>
    subst hstep
    exact h.balance (h.enq.goes hpc rfl) (h.deq.goes hpc rfl) hpc rfl rfl rfl
  case load =>
    obtain ⟨data, -, hstep⟩ := Option.bind_eq_some_iff.mp hstep
    obtain rfl := Option.some.inj hstep
    exact h.balance (h.enq.goes hpc rfl) (h.deq.goes hpc rfl) hpc rfl
      (by dsimp only [State.goto, Pc.room, Pc.loaded]; rw [List.length_append, List.length_singleton]; omega)
      (by dsimp only [State.goto, Pc.stored, Pc.item]; rw [List.length_append, List.length_singleton]; omega)
  case unlockDeq data =>
    subst hstep
    exact h.balance (h.enq.goes hpc rfl) (h.deq.unlock hpc rfl rfl) hpc rfl rfl rfl
  case semPostWrite data =>
    subst hstep
    exact h.balance (h.enq.goes hpc rfl) (h.deq.goes hpc rfl) hpc rfl rfl rfl

/-! ### Slots -/

/-- One thread goes on, and the queue is as it has to be then. -/
theorem Holds.of_slots {storing loading : Nat} (hold : s.pc t = p) (hnew : s'.pc = Function.update s.pc t q)
    (h : Slots M s'.fsq (s'.enqueued.map Prod.snd) (s'.dequeued.map Prod.snd) s'.unread storing loading)
    (hstoring : storing + p.storing = tally Pc.storing s.pc + q.storing)
    (hloading : loading + p.loading = tally Pc.loading s.pc + q.loading) : Holds M s' := by
  have hstorings := tally_update Pc.storing s.pc t q
  have hloadings := tally_update Pc.loading s.pc t q
  rw [hold, ← hnew] at hstorings hloadings
  rw [Holds, show tally Pc.storing s'.pc = storing by omega, show tally Pc.loading s'.pc = loading by omega]
  exact h

omit [DecidableEq ι] in
/-- A producer that stores is alone, and has room. -/
theorem Counts.storing (h : Counts M s) {data : Int32} (hpc : s.pc t = .store data) :
    tally Pc.storing s.pc = 1 ∧ s.enqueued.length < s.dequeued.length + M := by
  refine ⟨h.enq.tally hpc rfl fun _ => Pc.storing_out, ?_⟩
  have hroom : Pc.room (s.pc t) ≤ tally Pc.room s.pc := le_tally t
  rw [hpc, Pc.room] at hroom
  have hrooms := h.rooms
  omega

omit [DecidableEq ι] in
/-- A consumer that loads is alone, and has an item. -/
theorem Counts.loading (h : Counts M s) (hpc : s.pc t = .load) :
    tally Pc.loading s.pc = 1 ∧ s.dequeued.length < s.enqueued.length := by
  refine ⟨h.deq.tally hpc rfl fun _ => Pc.loading_out, ?_⟩
  have hitem : Pc.item (s.pc t) ≤ tally Pc.item s.pc := le_tally t
  rw [hpc, Pc.item] at hitem
  have hitems := h.items
  omega

theorem Holds.store (h : Holds M s) (hcounts : Counts M s) {data : Int32} (hpc : s.pc t = .store data) :
    s.unread s.fsq.write = none ∧ ∃ fsq, s.fsq.store data = some fsq ∧
      Holds M ({ s with
        fsq
        enqueued := s.enqueued ++ [(t, data)]
        unread := Function.update s.unread s.fsq.write (some s.enqueued.length) }.goto t .increment) := by
  obtain ⟨hone, hroom⟩ := hcounts.storing hpc
  have hslots := h
  rw [Holds, hone] at hslots
  obtain ⟨hunread, fsq, hstore, hslots'⟩ := hslots.store data
    (by rw [List.length_map, List.length_map]; exact hroom)
  rw [List.length_map] at hslots'
  refine ⟨hunread, fsq, hstore, .of_slots hpc rfl ?_ (by rw [hone]; rfl) rfl⟩
  dsimp only [State.goto]
  rw [List.map_append]
  exact hslots'

theorem Holds.load (h : Holds M s) (hcounts : Counts M s) (hpc : s.pc t = .load) :
    s.unread s.fsq.read = some s.dequeued.length ∧ ∃ data, s.fsq.load = some data ∧
      Holds M ({ s with
        dequeued := s.dequeued ++ [(t, data)]
        unread := Function.update s.unread s.fsq.read none }.goto t (.unlockDeq data)) := by
  obtain ⟨hone, hitem⟩ := hcounts.loading hpc
  have hrooms := hcounts.rooms
  have hslots := h
  rw [Holds, hone] at hslots
  obtain ⟨hunread, data, hload, hslots'⟩ := hslots.load (by rw [List.length_map, List.length_map]; exact hitem)
    (by rw [List.length_map, List.length_map]; omega)
  rw [List.length_map] at hunread
  refine ⟨hunread, data, hload, .of_slots hpc rfl ?_ rfl (by rw [hone]; rfl)⟩
  dsimp only [State.goto]
  rw [List.map_append]
  exact hslots'

/-! ### Runs -/

theorem Inv.step (h : Inv M s) (hstep : step s t = some s') : Inv M s' := by
  have hcounts := h.counts.step hstep
  obtain ⟨hold, hholds, hproducers, hconsumers⟩ := h
  cases hpc : s.pc t <;>
    simp only [Bounded.step, hpc, Option.ite_none_right_eq_some, Option.some.injEq, reduceCtorEq] at hstep
  case semWaitWrite | semWaitRead =>
    obtain ⟨-, rfl⟩ := hstep
    exact ⟨hcounts, Holds.of_slots hpc rfl hholds rfl rfl, hproducers.goes hpc rfl, hconsumers.goes hpc rfl⟩
  case callEnq | increment | semPostRead | semPostWrite =>
    subst hstep
    exact ⟨hcounts, Holds.of_slots hpc rfl hholds rfl rfl, hproducers.goes hpc rfl, hconsumers.goes hpc rfl⟩
  case lockEnq =>
    obtain ⟨hfree, rfl⟩ := hstep
    exact ⟨hcounts, Holds.of_slots hpc rfl hholds rfl rfl, hproducers.lock hfree rfl, hconsumers.goes hpc rfl⟩
  case lockDeq =>
    obtain ⟨hfree, rfl⟩ := hstep
    exact ⟨hcounts, Holds.of_slots hpc rfl hholds rfl rfl, hproducers.goes hpc rfl, hconsumers.lock hfree rfl⟩
  case moveWrite data =>
    subst hstep
    exact ⟨hcounts, Holds.of_slots hpc rfl (Slots.moveWrite hholds) rfl rfl, hproducers.goes hpc rfl,
      hconsumers.goes hpc rfl⟩
  case moveRead =>
    subst hstep
    exact ⟨hcounts, Holds.of_slots hpc rfl (Slots.moveRead hholds) rfl rfl, hproducers.goes hpc rfl,
      hconsumers.goes hpc rfl⟩
  case store data =>
    obtain ⟨-, fsq, hstore, hslots⟩ := hholds.store hold hpc
    have hmutex : s.lockEnq = some t := (hold.enq t).mp (by rw [hpc]; rfl)
    rw [hstore] at hstep
    obtain rfl := Option.some.inj hstep
    refine ⟨hcounts, hslots, ?_, hconsumers.goes hpc rfl⟩
    dsimp only [State.goto]
    rw [List.map_append]
    exact hproducers.finish hmutex hpc rfl rfl
  case load =>
    obtain ⟨-, data, hload, hslots⟩ := hholds.load hold hpc
    have hmutex : s.lockDeq = some t := (hold.deq t).mp (by rw [hpc]; rfl)
    rw [hload] at hstep
    obtain rfl := Option.some.inj hstep
    refine ⟨hcounts, hslots, hproducers.goes hpc rfl, ?_⟩
    dsimp only [State.goto]
    rw [List.map_append]
    exact hconsumers.finish hmutex hpc rfl rfl
  case unlockEnq =>
    subst hstep
    have hmutex : s.lockEnq = some t := (hold.enq t).mp (by rw [hpc]; rfl)
    exact ⟨hcounts, Holds.of_slots hpc rfl hholds rfl rfl, hproducers.unlock hmutex hpc rfl, hconsumers.goes hpc rfl⟩
  case unlockDeq data =>
    subst hstep
    have hmutex : s.lockDeq = some t := (hold.deq t).mp (by rw [hpc]; rfl)
    exact ⟨hcounts, Holds.of_slots hpc rfl hholds rfl rfl, hproducers.goes hpc rfl, hconsumers.unlock hmutex hpc rfl⟩

omit [DecidableEq ι] in
theorem inv_start (hstart : Start M s) : Inv M s := by
  obtain ⟨pc, hpc, rfl⟩ := hstart
  -- every thread is before its first step
  have hzero : ∀ weight : Pc → Nat, weight .semWaitWrite = 0 → weight .semWaitRead = 0 → tally weight pc = 0 := by
    intro weight hwrite hread
    refine tally_zero fun t => ?_
    rcases hpc t with ht | ht
    · rw [ht, hwrite]
    · rw [ht, hread]
  have hout : ∀ inside : Pc → Bool, inside .semWaitWrite = false → inside .semWaitRead = false →
      Guards inside pc none := by
    intro inside hwrite hread
    refine .free fun t => ?_
    rcases hpc t with ht | ht
    · rw [ht, hwrite]
    · rw [ht, hread]
  refine ⟨⟨hout _ rfl rfl, hout _ rfl rfl, ?_, ?_⟩, ?_, rfl, rfl⟩
  · rw [hzero _ rfl rfl, hzero _ rfl rfl]
    rfl
  · rw [hzero _ rfl rfl, hzero _ rfl rfl]
    rfl
  · rw [Holds, hzero _ rfl rfl, hzero _ rfl rfl]
    exact Slots.created M

/-- **The queue is safe**, for any threads and in any order of their steps:

    * what is stored is stored in a slot that is not unread, and what is loaded is loaded from one that is;
    * the values are dequeued in the order in which they are enqueued, and this is the order of the locks;
    * never more than `M` items are enqueued and not dequeued. -/
theorem queue_is_safe (h : (program ι M).Reachable System.Any s) :
    (∀ t data, s.pc t = .store data → s.unread s.fsq.write = none ∧ (step s t).isSome) ∧
    (∀ t, s.pc t = .load → s.unread s.fsq.read = some s.dequeued.length ∧ (step s t).isSome) ∧
    s.dequeued.map Prod.snd <+: s.enqueued.map Prod.snd ∧
    s.enqueued.map Prod.fst <+: s.producers ∧ s.dequeued.map Prod.fst <+: s.consumers ∧
    s.dequeued.length ≤ s.enqueued.length ∧ s.enqueued.length ≤ s.dequeued.length + M := by
  have hinv : Inv M s := System.invariant (fun _ h => inv_start h) (fun _ _ _ h _ hstep => h.step hstep) h
  obtain ⟨hcounts, hholds, hproducers, hconsumers⟩ := hinv
  have hrooms := hcounts.rooms
  have hitems := hcounts.items
  refine ⟨fun t data hpc => ?_, fun t hpc => ?_, hholds.fifo, hproducers.isPrefix, hconsumers.isPrefix,
    by omega, by omega⟩
  · obtain ⟨hunread, fsq, hstore, -⟩ := hholds.store hcounts hpc
    simp [hunread, Bounded.step, hpc, hstore]
  · obtain ⟨hunread, data, hload, -⟩ := hholds.load hcounts hpc
    simp [hunread, Bounded.step, hpc, hload]

/-- The consumer 1 gets the item of the producer 0, and the producer 2 has the only slot again. -/
theorem queue_sample : ∃ s : State (Fin 3), s.dequeued = [(1, 1)] ∧ s.pc 2 = .store 2 ∧
    s.unread s.fsq.write = none ∧ (step s 2).isSome := by
  obtain ⟨s, hreachable, hstate⟩ := System.exists_reachable (Start 1) step System.Any
    ⟨fun t => if t = 1 then .semWaitRead else .semWaitWrite, fun t => by by_cases ht : t = 1 <;> simp [ht], rfl⟩
    [0, 0, 0, 0, 0, 0, 0, 0, 1, 1, 1, 1, 1, 1, 2, 2, 2, 2]
    (fun s => decide (s.dequeued = [((1 : Fin 3), 1)] ∧ s.pc 2 = .store 2)) (by decide)
  obtain ⟨hdequeued, hpc⟩ := of_decide_eq_true hstate
  exact ⟨s, hdequeued, hpc, (queue_is_safe hreachable).1 2 2 hpc⟩

end Workbench.Producers.Bounded
