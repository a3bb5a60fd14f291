import Mathlib.Data.Fintype.Basic
import Workbench.Lib.RingBuffer
import Workbench.Lib.Threads

/-!
# `Producers.WaitableFsq` — `Waitable_FSQ`, condition variables and two mutexes

`Push` tests and waits under the mutex of the producers, and notifies the consumers; `Pop` does it the other way. So a
notification may come after the test of a consumer and before its wait, when nobody is waiting yet.

## Contents
* `Pc`, `State`, `step` — where a thread is, the queue, and the step of one thread;
* `Stranded` — the queue has an item, and a consumer waits for a notification that nobody will send;
* `lost_wakeup` — such a state is reachable;
* `not_stranded` — it is not, if no notification is lost.
-/

namespace Workbench.Producers.Waitable

variable {ι T : Type}

/-- The calls of the threads. -/
inductive Call (T : Type)
  | push (data : T)
  | pop

/-- What a thread does next. -/
inductive Pc (T : Type)
  | idle
  | pushLock (data : T)
  | pushTest (data : T)
  /-- The queue was full: the mutex is released and the wait begins in one step. -/
  | pushWait (data : T)
  | pushBlocked (data : T)
  | pushRelock (data : T)
  | pushStore (data : T)
  | pushMove
  | pushNotify
  | pushUnlock
  | popLock
  | popTest
  /-- The queue was empty: the mutex is released and the wait begins in one step. -/
  | popWait
  | popBlocked
  | popRelock
  | popLoad
  | popMove (data : T)
  | popNotify (data : T)
  | popUnlock (data : T)

structure State (ι T : Type) where
  fsq : List T
  size : Nat
  write : Nat
  read : Nat
  writeMutex : Option ι
  readMutex : Option ι
  /-- The calls that the threads have not made yet. -/
  calls : ι → List (Call T)
  pc : ι → Pc T

def isEmpty (s : State ι T) : Bool := s.read == s.write

def isFull (s : State ι T) : Bool := s.read == (s.write + 1) % s.size

namespace Pc

/-- The thread waits for `m_cv_to_read`. -/
def waitsToRead : Pc T → Bool
  | popBlocked => true
  | _ => false

/-- The thread waits for `m_cv_to_write`. -/
def waitsToWrite : Pc T → Bool
  | pushBlocked _ => true
  | _ => false

/-- A notification, or a spurious wakeup. -/
def wake : Pc T → Pc T
  | pushBlocked data => pushRelock data
  | popBlocked => popRelock
  | p => p

/-- The consumer found the queue empty, and does not wait yet. -/
def aboutToWait : Pc T → Bool
  | popWait => true
  | _ => false

def isIdle : Pc T → Bool
  | idle => true
  | _ => false

def notifiesReaders : Pc T → Bool
  | pushNotify => true
  | _ => false

end Pc

variable [DecidableEq ι] [Fintype ι]

def State.goto (s : State ι T) (t : ι) (p : Pc T) : State ι T := { s with pc := Function.update s.pc t p }

/-- `notify_one`: one of the threads that wait is woken, if there is one. -/
def notifyOne (waits : Pc T → Bool) (s : State ι T) (woken : Option ι) : Option (State ι T) :=
  match woken with
  | some u => if waits (s.pc u) = true then some (s.goto u (s.pc u).wake) else none
  | none => if ∀ u, waits (s.pc u) = false then some s else none

/-- The step of the thread `t`. A notification wakes the thread `woken`; a thread that waits may wake spuriously. -/
def step (s : State ι T) : ι × Option ι → Option (State ι T)
  | (t, woken) =>
    match s.pc t with
    | .idle =>
        match s.calls t with
        | [] => none
        | .push data :: calls => some ({ s with calls := Function.update s.calls t calls }.goto t (.pushLock data))
        | .pop :: calls => some ({ s with calls := Function.update s.calls t calls }.goto t .popLock)
    | .pushLock data | .pushRelock data =>
        if s.writeMutex = none then some ({ s with writeMutex := some t }.goto t (.pushTest data)) else none
    | .pushTest data => some (s.goto t (if isFull s = true then .pushWait data else .pushStore data))
    | .pushWait data => some ({ s with writeMutex := none }.goto t (.pushBlocked data))
    | .pushBlocked data => some (s.goto t (.pushRelock data))
    | .pushStore data => some ({ s with fsq := s.fsq.set s.write data }.goto t .pushMove)
    | .pushMove => some ({ s with write := (s.write + 1) % s.size }.goto t .pushNotify)
    | .pushNotify => (notifyOne Pc.waitsToRead s woken).map fun s => s.goto t .pushUnlock
    | .pushUnlock => some ({ s with writeMutex := none }.goto t .idle)
    | .popLock | .popRelock =>
        if s.readMutex = none then some ({ s with readMutex := some t }.goto t .popTest) else none
    | .popTest => some (s.goto t (if isEmpty s = true then .popWait else .popLoad))
    | .popWait => some ({ s with readMutex := none }.goto t .popBlocked)
    | .popBlocked => some (s.goto t .popRelock)
    | .popLoad => s.fsq[s.read]?.map fun data => s.goto t (.popMove data)
    | .popMove data => some ({ s with read := (s.read + 1) % s.size }.goto t (.popNotify data))
    | .popNotify data => (notifyOne Pc.waitsToWrite s woken).map fun s => s.goto t (.popUnlock data)
    | .popUnlock _ => some ({ s with readMutex := none }.goto t .idle)

/-- A new queue, and the threads with their calls. -/
def Start [Inhabited T] (size : Nat) (s : State ι T) : Prop :=
  ∃ calls, s = ⟨List.replicate size default, size, 0, 0, none, none, calls, fun _ => .idle⟩

/-- The runs of the threads. -/
def program (ι T : Type) [DecidableEq ι] [Fintype ι] [Inhabited T] (size : Nat) : System (State ι T) (ι × Option ι) :=
  .ofThreads (Start size) step

/-- The thread made all its calls. -/
def Finished (s : State ι T) (t : ι) : Prop := (s.pc t).isIdle = true ∧ s.calls t = []

/-- **A lost wakeup**: the queue has an item, a consumer waits, and all other threads are finished or wait. -/
def Stranded (s : State ι T) : Prop :=
  isEmpty s = false ∧ ∃ t, (s.pc t).waitsToRead = true ∧
    ∀ u ≠ t, Finished s u ∨ (s.pc u).waitsToRead = true ∨ (s.pc u).waitsToWrite = true

instance (s : State ι T) (t : ι) : Decidable (Finished s t) :=
  decidable_of_iff ((s.pc t).isIdle = true ∧ (s.calls t).isEmpty = true) (by rw [List.isEmpty_iff]; rfl)

instance (s : State ι T) : Decidable (Stranded s) := inferInstanceAs (Decidable (_ ∧ _))

/-- The consumer 0 finds the queue empty, the producer 1 pushes and notifies nobody, and the consumer waits. -/
theorem lost_wakeup : ∃ s : State (Fin 2) Nat, (program (Fin 2) Nat 2).Reachable System.Any s ∧ Stranded s := by
  obtain ⟨s, hreachable, hstate⟩ := System.exists_reachable (Start 2) step System.Any
    ⟨fun t => if t = (0 : Fin 2) then [.pop] else [.push 7], rfl⟩
    [(0, none), (0, none), (0, none), (1, none), (1, none), (1, none), (1, none), (1, none), (1, none), (1, none),
      (0, none)]
    (fun s => decide (Stranded s)) (by decide)
  exact ⟨s, hreachable, of_decide_eq_true hstate⟩

/-! ## Runs where no notification is lost -/

/-- **No notification is lost**: where a producer notifies and nobody waits, no consumer is between its test and its
    wait. -/
def Heard (s : State ι T) (a : ι × Option ι) : Prop :=
  (s.pc a.1).notifiesReaders = true → (∃ u, (s.pc u).waitsToRead = true) ∨ ∀ u, (s.pc u).aboutToWait = false

instance (s : State ι T) (a : ι × Option ι) : Decidable (Heard s a) := inferInstanceAs (Decidable (_ → _ ∨ _))

namespace Pc

def inPush : Pc T → Bool
  | pushTest _ | pushWait _ | pushStore _ | pushMove | pushNotify | pushUnlock => true
  | _ => false

def inPop : Pc T → Bool
  | popTest | popWait | popLoad | popMove _ | popNotify _ | popUnlock _ => true
  | _ => false

/-- The producer found a free slot, and has not moved `m_write` yet. -/
def pushing : Pc T → Nat
  | pushStore _ | pushMove => 1
  | _ => 0

/-- The consumer found an item, and has not moved `m_read` yet. -/
def popping : Pc T → Nat
  | popLoad | popMove _ => 1
  | _ => 0

/-- The producer has pushed an item, and has not notified yet. -/
def notifying : Pc T → Nat
  | pushNotify => 1
  | _ => 0

/-- The consumer will test, or take an item. -/
def active : Pc T → Nat
  | popRelock | popTest | popLoad | popMove _ => 1
  | _ => 0

/-- The consumer found the queue empty, and is not woken. -/
def waiting : Pc T → Nat
  | popWait | popBlocked => 1
  | _ => 0

/-- What is counted. -/
def counts (p : Pc T) : Nat × Nat × Nat × Nat × Nat := (p.pushing, p.popping, p.notifying, p.active, p.waiting)

theorem eq_popBlocked {p : Pc T} (h : p.waitsToRead = true) : p = .popBlocked := by
  cases p with
  | popBlocked => rfl
  | _ => cases h

theorem eq_pushBlocked {p : Pc T} (h : p.waitsToWrite = true) : ∃ data, p = .pushBlocked data := by
  cases p with
  | pushBlocked data => exact ⟨data, rfl⟩
  | _ => cases h

theorem eq_idle {p : Pc T} (h : p.isIdle = true) : p = .idle := by
  cases p with
  | idle => rfl
  | _ => cases h

theorem waiting_eq_zero {p : Pc T} (hwaits : p.waitsToRead = false) (hgap : p.aboutToWait = false) :
    p.waiting = 0 := by
  cases p with
  | popWait => cases hgap
  | popBlocked => cases hwaits
  | _ => rfl

theorem pushing_out {q : Pc T} (h : q.inPush = false) : q.pushing = 0 := by
  cases q with
  | pushStore data => cases h
  | pushMove => cases h
  | _ => rfl

theorem popping_out {q : Pc T} (h : q.inPop = false) : q.popping = 0 := by
  cases q with
  | popLoad => cases h
  | popMove data => cases h
  | _ => rfl

end Pc

variable {N pushed popped pushed' popped' : Nat} {s s' : State ι T} {t : ι} {p q : Pc T}

/-- The indices and the mutexes, and what is in the queue: if a consumer waits, there is a notification to come or an
    active consumer for each item. -/
structure Inv (N pushed popped : Nat) (s : State ι T) : Prop where
  size : s.size = N
  write : s.write = pushed % N
  read : s.read = popped % N
  writeMutex : Guards Pc.inPush s.pc s.writeMutex
  readMutex : Guards Pc.inPop s.pc s.readMutex
  room : pushed + tally Pc.pushing s.pc < popped + N
  items : popped + tally Pc.popping s.pc ≤ pushed
  heard : tally Pc.waiting s.pc = 0 ∨ pushed ≤ popped + tally Pc.notifying s.pc + tally Pc.active s.pc

/-- The invariant. -/
def Counted (N : Nat) (s : State ι T) : Prop := ∃ pushed popped, Inv N pushed popped s

omit [Fintype ι] [DecidableEq ι] in
theorem isEmpty_iff (hwrite : s.write = pushed % N) (hread : s.read = popped % N) (hle : popped ≤ pushed)
    (hroom : pushed < popped + N) : isEmpty s = true ↔ pushed = popped := by
  rw [isEmpty, beq_iff_eq, hwrite, hread]
  constructor
  · exact fun h => (RingBuffer.eq_of_slot_eq hle hroom h).symm
  · rintro rfl
    rfl

omit [Fintype ι] [DecidableEq ι] in
theorem isFull_of (hsize : s.size = N) (hwrite : s.write = pushed % N) (hread : s.read = popped % N)
    (h : pushed + 1 = popped + N) : isFull s = true := by
  rw [isFull, beq_iff_eq, hsize, hwrite, hread, RingBuffer.slot_succ, h, RingBuffer.slot_round]

/-- One thread goes on. -/
theorem Inv.goes (h : Inv N pushed popped s) (hold : s.pc t = p) (hnew : s'.pc = Function.update s.pc t q)
    (hsize : s'.size = s.size) (hwrite : s'.write = pushed' % N) (hread : s'.read = popped' % N)
    (hwriteMutex : Guards Pc.inPush s'.pc s'.writeMutex) (hreadMutex : Guards Pc.inPop s'.pc s'.readMutex)
    (hroom : pushed' + (tally Pc.pushing s.pc + q.pushing) < popped' + N + p.pushing)
    (hitems : popped' + (tally Pc.popping s.pc + q.popping) ≤ pushed' + p.popping)
    (hheard : tally Pc.waiting s.pc + q.waiting = p.waiting ∨ pushed' + p.notifying + p.active ≤
      popped' + (tally Pc.notifying s.pc + q.notifying) + (tally Pc.active s.pc + q.active)) :
    Inv N pushed' popped' s' := by
  have hpushing := tally_update Pc.pushing s.pc t q
  have hpopping := tally_update Pc.popping s.pc t q
  have hnotifying := tally_update Pc.notifying s.pc t q
  have hactive := tally_update Pc.active s.pc t q
  have hwaiting := tally_update Pc.waiting s.pc t q
  rw [hold, ← hnew] at hpushing hpopping hnotifying hactive hwaiting
  exact ⟨hsize.trans h.size, hwrite, hread, hwriteMutex, hreadMutex, by omega, by omega, by omega⟩

/-- One thread goes on to a place where the same is counted. -/
theorem Inv.same (h : Inv N pushed popped s) (hold : s.pc t = p) (hnew : s'.pc = Function.update s.pc t q)
    (hindices : (s'.size, s'.write, s'.read) = (s.size, s.write, s.read))
    (hwriteMutex : Guards Pc.inPush s'.pc s'.writeMutex) (hreadMutex : Guards Pc.inPop s'.pc s'.readMutex)
    (hcounts : q.counts = p.counts) : Inv N pushed popped s' := by
  simp only [Prod.mk.injEq, Pc.counts] at hindices hcounts
  obtain ⟨hsize, hwrite, hread⟩ := hindices
  obtain ⟨hpushing, hpopping, hnotifying, hactive, hwaiting⟩ := hcounts
  have hroom := h.room
  have hitems := h.items
  have hheard := h.heard
  have hle : Pc.waiting (s.pc t) ≤ tally Pc.waiting s.pc := le_tally t
  rw [hold] at hle
  refine h.goes hold hnew hsize (hwrite.trans h.write) (hread.trans h.read) hwriteMutex hreadMutex (by omega)
    (by omega) ?_
  rw [hwaiting, hnotifying, hactive]
  omega

/-- A consumer that is woken is active for one more item. -/
theorem Inv.wake (h : Inv N pushed popped s) {u : ι} (hu : s.pc u = .popBlocked) :
    Inv N pushed popped (s.goto u .popRelock) ∧ pushed + 1 ≤ popped + tally Pc.notifying (s.goto u .popRelock).pc +
      tally Pc.active (s.goto u .popRelock).pc := by
  have hheard := h.heard
  have hwaiting : Pc.waiting (s.pc u) ≤ tally Pc.waiting s.pc := le_tally u
  have hnotifying := tally_update Pc.notifying s.pc u .popRelock
  have hactive := tally_update Pc.active s.pc u .popRelock
  rw [hu] at hwaiting hnotifying hactive
  dsimp only [Pc.waiting, Pc.notifying, Pc.active] at hwaiting hnotifying hactive
  refine ⟨h.goes hu rfl rfl h.write h.read (h.writeMutex.goes hu rfl) (h.readMutex.goes hu rfl) h.room h.items ?_, ?_⟩
  · dsimp only [Pc.waiting, Pc.notifying, Pc.active]
    omega
  · dsimp only [State.goto]
    omega

omit [Fintype ι] in
theorem goto_pc_of_ne {u : ι} (hne : t ≠ u) : (s.goto u q).pc t = s.pc t := Function.update_of_ne hne _ _

/-- The thread that is woken, if there is one. -/
theorem notifyOne_cases {waits : Pc T → Bool} {woken : Option ι} (h : notifyOne waits s woken = some s') :
    (∃ u, waits (s.pc u) = true ∧ s' = s.goto u (s.pc u).wake) ∨ (∀ u, waits (s.pc u) = false) ∧ s' = s := by
  cases woken with
  | none =>
      obtain ⟨hnone, hs'⟩ := Option.ite_none_right_eq_some.mp h
      exact .inr ⟨hnone, (Option.some.inj hs').symm⟩
  | some u =>
      obtain ⟨hwaits, hs'⟩ := Option.ite_none_right_eq_some.mp h
      exact .inl ⟨u, hwaits, (Option.some.inj hs').symm⟩

theorem Inv.pushNotify (h : Inv N pushed popped s) {woken : Option ι} (hlost : Heard s (t, woken))
    (hpc : s.pc t = .pushNotify) (hnotify : notifyOne Pc.waitsToRead s woken = some s') :
    Inv N pushed popped (s'.goto t .pushUnlock) := by
  rcases notifyOne_cases hnotify with ⟨u, hwaits, rfl⟩ | ⟨hnobody, rfl⟩
  · -- a consumer is woken for the item
    have hu := Pc.eq_popBlocked hwaits
    have hne : t ≠ u := by
      rintro rfl
      rw [hpc] at hu
      cases hu
    have hwoken := h.wake hu
    rw [hu, Pc.wake]
    generalize hs₁ : s.goto u .popRelock = s₁ at hwoken
    have hpc₁ : s₁.pc t = .pushNotify := by rw [← hs₁, goto_pc_of_ne hne, hpc]
    obtain ⟨h₁, hitem⟩ := hwoken
    exact h₁.goes hpc₁ rfl rfl h₁.write h₁.read (h₁.writeMutex.goes hpc₁ rfl) (h₁.readMutex.goes hpc₁ rfl) h₁.room
      h₁.items (by dsimp only [Pc.waiting, Pc.notifying, Pc.active]; omega)
  · -- nobody waits, and nobody is about to
    have hnone : tally Pc.waiting s'.pc = 0 := by
      have hgap := (hlost (by rw [hpc]; rfl)).resolve_left (by
        rintro ⟨u, hu⟩
        rw [hnobody u] at hu
        cases hu)
      exact tally_zero fun u => Pc.waiting_eq_zero (hnobody u) (hgap u)
    exact h.goes hpc rfl rfl h.write h.read (h.writeMutex.goes hpc rfl) (h.readMutex.goes hpc rfl) h.room h.items
      (.inl hnone)

theorem Inv.popNotify (h : Inv N pushed popped s) {woken : Option ι} {data : T} (hpc : s.pc t = .popNotify data)
    (hnotify : notifyOne Pc.waitsToWrite s woken = some s') : Inv N pushed popped (s'.goto t (.popUnlock data)) := by
  rcases notifyOne_cases hnotify with ⟨u, hwaits, rfl⟩ | ⟨-, rfl⟩
  · obtain ⟨data', hu⟩ := Pc.eq_pushBlocked hwaits
    have hne : t ≠ u := by
      rintro rfl
      rw [hpc] at hu
      cases hu
    rw [hu, Pc.wake]
    have h₁ : Inv N pushed popped (s.goto u (.pushRelock data')) :=
      h.same hu rfl rfl (h.writeMutex.goes hu rfl) (h.readMutex.goes hu rfl) rfl
    generalize hs₁ : s.goto u (.pushRelock data') = s₁ at h₁
    have hpc₁ : s₁.pc t = .popNotify data := by rw [← hs₁, goto_pc_of_ne hne, hpc]
    exact h₁.same hpc₁ rfl rfl (h₁.writeMutex.goes hpc₁ rfl) (h₁.readMutex.goes hpc₁ rfl) rfl
  · exact h.same hpc rfl rfl (h.writeMutex.goes hpc rfl) (h.readMutex.goes hpc rfl) rfl

/-- A producer that finds room will take it. -/
theorem Inv.pushTest (h : Inv N pushed popped s) {data : T} (hpc : s.pc t = .pushTest data) :
    Inv N pushed popped (s.goto t (if isFull s = true then .pushWait data else .pushStore data)) := by
  have hroom := h.room
  have hheard := h.heard
  have hnone : tally Pc.pushing s.pc = 0 := h.writeMutex.tally hpc rfl fun _ => Pc.pushing_out
  by_cases hfull : isFull s = true
  · rw [if_pos hfull]
    exact h.same hpc rfl rfl (h.writeMutex.goes hpc rfl) (h.readMutex.goes hpc rfl) rfl
  · rw [if_neg hfull]
    have hne : pushed + 1 ≠ popped + N := fun heq => hfull (isFull_of h.size h.write h.read heq)
    exact h.goes hpc rfl rfl h.write h.read (h.writeMutex.goes hpc rfl) (h.readMutex.goes hpc rfl)
      (by rw [hnone]; dsimp only [Pc.pushing]; omega) h.items
      (by dsimp only [Pc.waiting, Pc.notifying, Pc.active]; omega)

/-- The item is in the queue, and will be notified of. -/
theorem Inv.pushMove (h : Inv N pushed popped s) (hpc : s.pc t = .pushMove) :
    Inv N (pushed + 1) popped ({ s with write := (s.write + 1) % s.size }.goto t .pushNotify) := by
  have hroom := h.room
  have hitems := h.items
  have hheard := h.heard
  have hwrite : (s.write + 1) % s.size = (pushed + 1) % N := by rw [h.size, h.write, RingBuffer.slot_succ]
  exact h.goes hpc rfl rfl hwrite h.read (h.writeMutex.goes hpc rfl) (h.readMutex.goes hpc rfl)
    (by dsimp only [Pc.pushing]; omega) (by dsimp only [Pc.popping]; omega)
    (by dsimp only [Pc.waiting, Pc.notifying, Pc.active]; omega)

/-- A consumer that goes to wait is not needed, as there are no items. One that finds an item will take it. -/
theorem Inv.popTest (h : Inv N pushed popped s) (hpc : s.pc t = .popTest) :
    Inv N pushed popped (s.goto t (if isEmpty s = true then .popWait else .popLoad)) := by
  have hroom := h.room
  have hitems := h.items
  have hheard := h.heard
  have hempty := isEmpty_iff h.write h.read (by omega) (by omega)
  by_cases hnone : isEmpty s = true
  · rw [if_pos hnone]
    have heq := hempty.mp hnone
    have hactive : Pc.active (s.pc t) ≤ tally Pc.active s.pc := le_tally t
    rw [hpc] at hactive
    dsimp only [Pc.active] at hactive
    exact h.goes hpc rfl rfl h.write h.read (h.writeMutex.goes hpc rfl) (h.readMutex.goes hpc rfl) hroom hitems
      (by dsimp only [Pc.waiting, Pc.notifying, Pc.active]; omega)
  · rw [if_neg hnone]
    have hpopping : tally Pc.popping s.pc = 0 := h.readMutex.tally hpc rfl fun _ => Pc.popping_out
    have hne : pushed ≠ popped := fun heq => hnone (hempty.mpr heq)
    exact h.goes hpc rfl rfl h.write h.read (h.writeMutex.goes hpc rfl) (h.readMutex.goes hpc rfl) hroom
      (by rw [hpopping]; dsimp only [Pc.popping]; omega)
      (by dsimp only [Pc.waiting, Pc.notifying, Pc.active]; omega)

/-- An item is out of the queue. -/
theorem Inv.popMove (h : Inv N pushed popped s) {data : T} (hpc : s.pc t = .popMove data) :
    Inv N pushed (popped + 1) ({ s with read := (s.read + 1) % s.size }.goto t (.popNotify data)) := by
  have hroom := h.room
  have hitems := h.items
  have hheard := h.heard
  have hread : (s.read + 1) % s.size = (popped + 1) % N := by rw [h.size, h.read, RingBuffer.slot_succ]
  have hpopping : tally Pc.popping s.pc = 1 := h.readMutex.tally hpc rfl fun _ => Pc.popping_out
  exact h.goes hpc rfl rfl h.write hread (h.writeMutex.goes hpc rfl) (h.readMutex.goes hpc rfl)
    (by dsimp only [Pc.pushing]; omega) (by dsimp only [Pc.popping]; omega)
    (by dsimp only [Pc.waiting, Pc.notifying, Pc.active]; omega)

theorem Inv.step (h : Inv N pushed popped s) {woken : Option ι} (hlost : Heard s (t, woken))
    (hstep : step s (t, woken) = some s') : Counted N s' := by
  have hroom := h.room
  have hitems := h.items
  have hheard := h.heard
  cases hpc : s.pc t <;>
    simp only [Waitable.step, hpc, Option.ite_none_right_eq_some, Option.some.injEq] at hstep
  case idle =>
    cases hcalls : s.calls t with
    | nil =>
        rw [hcalls] at hstep
        cases hstep
    | cons call calls =>
        rw [hcalls] at hstep
        cases call with
        | push data =>
            obtain rfl := Option.some.inj hstep
            exact ⟨_, _, h.same hpc rfl rfl (h.writeMutex.goes hpc rfl) (h.readMutex.goes hpc rfl) rfl⟩
        | pop =>
            obtain rfl := Option.some.inj hstep
            exact ⟨_, _, h.same hpc rfl rfl (h.writeMutex.goes hpc rfl) (h.readMutex.goes hpc rfl) rfl⟩
  case pushLock | pushRelock =>
    obtain ⟨hfree, rfl⟩ := hstep
    exact ⟨_, _, h.same hpc rfl rfl (h.writeMutex.lock hfree rfl) (h.readMutex.goes hpc rfl) rfl⟩
  case pushTest data =>
    subst hstep
    exact ⟨_, _, h.pushTest hpc⟩
  case pushWait data =>
    subst hstep
    exact ⟨_, _, h.same hpc rfl rfl (h.writeMutex.unlock hpc rfl rfl) (h.readMutex.goes hpc rfl) rfl⟩
  case pushBlocked data =>
    subst hstep
    exact ⟨_, _, h.same hpc rfl rfl (h.writeMutex.goes hpc rfl) (h.readMutex.goes hpc rfl) rfl⟩
  case pushStore data =>
    subst hstep
    exact ⟨_, _, h.same hpc rfl rfl (h.writeMutex.goes hpc rfl) (h.readMutex.goes hpc rfl) rfl⟩
  case pushMove =>
    subst hstep
    exact ⟨_, _, h.pushMove hpc⟩
  case pushNotify =>
    obtain ⟨s₁, hnotify, rfl⟩ := Option.map_eq_some_iff.mp hstep
    exact ⟨_, _, h.pushNotify hlost hpc hnotify⟩
  case pushUnlock =>
    subst hstep
    exact ⟨_, _, h.same hpc rfl rfl (h.writeMutex.unlock hpc rfl rfl) (h.readMutex.goes hpc rfl) rfl⟩
  case popLock | popRelock =>
    obtain ⟨hfree, rfl⟩ := hstep
    exact ⟨_, _, h.goes hpc rfl rfl h.write h.read (h.writeMutex.goes hpc rfl) (h.readMutex.lock hfree rfl) hroom hitems
      (by dsimp only [Pc.waiting, Pc.notifying, Pc.active]; omega)⟩
  case popTest =>
    subst hstep
    exact ⟨_, _, h.popTest hpc⟩
  case popWait =>
    subst hstep
    exact ⟨_, _, h.same hpc rfl rfl (h.writeMutex.goes hpc rfl) (h.readMutex.unlock hpc rfl rfl) rfl⟩
  case popBlocked =>
    subst hstep
    exact ⟨_, _, (h.wake hpc).1⟩
  case popLoad =>
    obtain ⟨data, -, rfl⟩ := Option.map_eq_some_iff.mp hstep
    exact ⟨_, _, h.same hpc rfl rfl (h.writeMutex.goes hpc rfl) (h.readMutex.goes hpc rfl) rfl⟩
  case popMove data =>
    subst hstep
    exact ⟨_, _, h.popMove hpc⟩
  case popNotify data =>
    obtain ⟨s₁, hnotify, rfl⟩ := Option.map_eq_some_iff.mp hstep
    exact ⟨_, _, h.popNotify hpc hnotify⟩
  case popUnlock data =>
    subst hstep
    exact ⟨_, _, h.same hpc rfl rfl (h.writeMutex.goes hpc rfl) (h.readMutex.unlock hpc rfl rfl) rfl⟩

omit [DecidableEq ι] in
theorem inv_start [Inhabited T] (hN : 2 ≤ N) (hstart : Start N s) : Inv N 0 0 s := by
  obtain ⟨calls, rfl⟩ := hstart
  have hzero : ∀ weight : Pc T → Nat, weight .idle = 0 → tally weight (fun _ : ι => Pc.idle) = 0 :=
    fun weight hweight => tally_zero fun _ => hweight
  refine ⟨rfl, (Nat.zero_mod N).symm, (Nat.zero_mod N).symm, .free fun _ => rfl, .free fun _ => rfl, ?_, ?_, ?_⟩
  · rw [hzero _ rfl]
    omega
  · rw [hzero _ rfl]
  · exact .inl (hzero _ rfl)

omit [DecidableEq ι] in
theorem Inv.nobody_stranded (h : Inv N pushed popped s) : ¬ Stranded s := by
  rintro ⟨hitem, t, hwaits, hothers⟩
  have hblocked := Pc.eq_popBlocked hwaits
  have hwaiting : Pc.waiting (s.pc t) ≤ tally Pc.waiting s.pc := le_tally t
  rw [hblocked, Pc.waiting] at hwaiting
  -- the others neither notify nor are active
  have hquiet : ∀ u, Pc.notifying (s.pc u) = 0 ∧ Pc.active (s.pc u) = 0 := by
    intro u
    by_cases hut : u = t
    · rw [hut, hblocked]
      exact ⟨rfl, rfl⟩
    rcases hothers u hut with ⟨hidle, -⟩ | hread | hwrite
    · rw [Pc.eq_idle hidle]
      exact ⟨rfl, rfl⟩
    · rw [Pc.eq_popBlocked hread]
      exact ⟨rfl, rfl⟩
    · obtain ⟨data, hu⟩ := Pc.eq_pushBlocked hwrite
      rw [hu]
      exact ⟨rfl, rfl⟩
  have hnotifying : tally Pc.notifying s.pc = 0 := tally_zero fun u => (hquiet u).1
  have hactive : tally Pc.active s.pc = 0 := tally_zero fun u => (hquiet u).2
  have hheard := h.heard
  have hroom := h.room
  have hitems := h.items
  have hempty := (isEmpty_iff h.write h.read (by omega) (by omega)).mpr (by omega)
  rw [hempty] at hitem
  cases hitem

/-- **No consumer is stranded** in runs where no notification is lost. -/
theorem not_stranded [Inhabited T] (hN : 2 ≤ N) (h : (program ι T N).Reachable Heard s) : ¬ Stranded s := by
  have hcounted : Counted N s := System.invariant (fun _ h => ⟨0, 0, inv_start hN h⟩)
    (fun _ _ _ ⟨_, _, h⟩ hlost hstep => h.step hlost hstep) h
  obtain ⟨_, _, hinv⟩ := hcounted
  exact hinv.nobody_stranded

/-- The consumer 0 waits, and is woken by the producer 1. -/
theorem not_stranded_sample : ∃ s : State (Fin 2) Nat, (s.pc 0).waitsToRead = false ∧ isEmpty s = false ∧
    Finished s 1 ∧ ¬ Stranded s := by
  obtain ⟨s, hreachable, hstate⟩ := System.exists_reachable (Start 2) step Heard
    ⟨fun t => if t = (0 : Fin 2) then [.pop] else [.push 7], rfl⟩
    [(0, none), (0, none), (0, none), (0, none), (1, none), (1, none), (1, none), (1, none), (1, none), (1, some 0),
      (1, none)]
    (fun s => decide ((s.pc 0).waitsToRead = false ∧ isEmpty s = false ∧ Finished s 1)) (by decide)
  obtain ⟨hwoken, hitem, hfinished⟩ := of_decide_eq_true hstate
  exact ⟨s, hwoken, hitem, hfinished, not_stranded (by decide) hreachable⟩

end Workbench.Producers.Waitable
