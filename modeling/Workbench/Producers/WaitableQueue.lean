import Mathlib.Algebra.Order.Group.Multiset
import Mathlib.Data.Fintype.Basic
import Workbench.Lib.Threads

/-!
# `Producers.WaitableQueue` — `WaitableQueue`, one condition variable

`Push` notifies after it has released the mutex, and `Pop` tests again after each wakeup. The container is the parameter
`CONTAINER` of the class: it may take out its elements in any order.

## Contents
* `Container` — what the class needs of its container;
* `Pc`, `State`, `step` — where a thread is, the queue with its history, and the step of one thread;
* `Inv` — the invariant: a notification to come or an active consumer for each element, if a consumer waits;
* `waiting_is_safe` — the main result.
-/

namespace Workbench.Producers.WaitableQueue

/-- **A container** of elements of type `T`. -/
structure Container (C T : Type) where
  new : C
  empty : C → Bool
  push : C → T → C
  front : C → Option T
  pop : C → C
  elements : C → Multiset T
  elements_new : elements new = 0
  elements_push (c : C) (x : T) : elements (push c x) = x ::ₘ elements c
  empty_iff (c : C) : empty c = true ↔ elements c = 0
  front_pop (c : C) : elements c ≠ 0 → ∃ x, front c = some x ∧ elements c = x ::ₘ elements (pop c)

/-- `std::queue`. -/
def Container.queue (T : Type) : Container (List T) T where
  new := []
  empty := List.isEmpty
  push c x := c ++ [x]
  front := List.head?
  pop := List.tail
  elements c := c
  elements_new := rfl
  elements_push c x := by rw [← Multiset.coe_add, Multiset.add_comm, Multiset.coe_singleton, Multiset.singleton_add]
  empty_iff c := by rw [List.isEmpty_iff, Multiset.coe_eq_zero]
  front_pop c hne := by
    obtain ⟨x, xs, rfl⟩ := List.exists_cons_of_ne_nil fun hnil : c = [] => hne (by rw [hnil]; rfl)
    exact ⟨x, rfl, rfl⟩

variable {ι C T : Type}

/-- The calls of the threads. -/
inductive Call (T : Type)
  | push (data : T)
  | pop

/-- What a thread does next. -/
inductive Pc (T : Type)
  | idle
  | pushLock (data : T)
  | pushStore (data : T)
  | pushUnlock
  | pushNotify
  | popLock
  | popTest
  /-- The container was empty: the mutex is released and the wait begins in one step. -/
  | popWait
  | popBlocked
  | popRelock
  | popFront
  | popRemove (data : T)
  | popUnlock

structure State (ι C T : Type) where
  queue : C
  mutex : Option ι
  /-- The calls that the threads have not made yet. -/
  calls : ι → List (Call T)
  pc : ι → Pc T
  /-- What was pushed and what was popped, and by whom. -/
  pushed : List (ι × T)
  popped : List (ι × T)

namespace Pc

/-- The thread waits, and was not notified. -/
def waits : Pc T → Bool
  | popBlocked => true
  | _ => false

/-- The thread takes an element out. -/
def takes : Pc T → Bool
  | popFront | popRemove _ => true
  | _ => false

def isIdle : Pc T → Bool
  | idle => true
  | _ => false

/-- The thread has the mutex. -/
def inside : Pc T → Bool
  | pushStore _ | pushUnlock | popTest | popWait | popFront | popRemove _ | popUnlock => true
  | _ => false

end Pc

variable [DecidableEq ι]

def State.goto (s : State ι C T) (t : ι) (p : Pc T) : State ι C T := { s with pc := Function.update s.pc t p }

variable [Fintype ι]

/-- `notify_one`: one of the threads that wait is woken, if there is one. -/
def notifyOne (s : State ι C T) (woken : Option ι) : Option (State ι C T) :=
  match woken with
  | some u => if (s.pc u).waits = true then some (s.goto u .popRelock) else none
  | none => if ∀ u, (s.pc u).waits = false then some s else none

/-- The step of the thread `t`. A notification wakes the thread `woken`; a thread that waits may wake spuriously. -/
def step (container : Container C T) (s : State ι C T) : ι × Option ι → Option (State ι C T)
  | (t, woken) =>
    match s.pc t with
    | .idle =>
        match s.calls t with
        | [] => none
        | .push data :: calls => some ({ s with calls := Function.update s.calls t calls }.goto t (.pushLock data))
        | .pop :: calls => some ({ s with calls := Function.update s.calls t calls }.goto t .popLock)
    | .pushLock data => if s.mutex = none then some ({ s with mutex := some t }.goto t (.pushStore data)) else none
    | .pushStore data =>
        some ({ s with queue := container.push s.queue data, pushed := s.pushed ++ [(t, data)] }.goto t .pushUnlock)
    | .pushUnlock => some ({ s with mutex := none }.goto t .pushNotify)
    | .pushNotify => (notifyOne s woken).map fun s => s.goto t .idle
    | .popLock | .popRelock => if s.mutex = none then some ({ s with mutex := some t }.goto t .popTest) else none
    | .popTest => some (s.goto t (if container.empty s.queue = true then .popWait else .popFront))
    | .popWait => some ({ s with mutex := none }.goto t .popBlocked)
    | .popBlocked => some (s.goto t .popRelock)
    | .popFront => (container.front s.queue).map fun data => s.goto t (.popRemove data)
    | .popRemove data =>
        some ({ s with queue := container.pop s.queue, popped := s.popped ++ [(t, data)] }.goto t .popUnlock)
    | .popUnlock => some ({ s with mutex := none }.goto t .idle)

/-- An empty queue, and the threads with their calls. -/
def Start (container : Container C T) (s : State ι C T) : Prop :=
  ∃ calls, s = ⟨container.new, none, calls, fun _ => .idle, [], []⟩

/-- The runs of the threads. -/
def program (ι : Type) [DecidableEq ι] [Fintype ι] (container : Container C T) :
    System (State ι C T) (ι × Option ι) :=
  .ofThreads (Start container) (step container)

/-- The thread made all its calls. -/
def Finished (s : State ι C T) (t : ι) : Prop := (s.pc t).isIdle = true ∧ s.calls t = []

/-- **A lost wakeup**: the container has an element, a consumer waits, and all other threads are finished or wait. -/
def Stranded (container : Container C T) (s : State ι C T) : Prop :=
  container.empty s.queue = false ∧
    ∃ t, (s.pc t).waits = true ∧ ∀ u ≠ t, Finished s u ∨ (s.pc u).waits = true

/-! ## What is counted -/

namespace Pc

/-- The producer has pushed an element, and has not notified yet. -/
def notifying : Pc T → Nat
  | pushUnlock | pushNotify => 1
  | _ => 0

/-- The consumer will test, or take an element out. -/
def active : Pc T → Nat
  | popRelock | popTest | popFront | popRemove _ => 1
  | _ => 0

def waiting : Pc T → Nat
  | popBlocked => 1
  | _ => 0

def counts (p : Pc T) : Nat × Nat × Nat := (p.notifying, p.active, p.waiting)

theorem eq_popBlocked {p : Pc T} (h : p.waits = true) : p = .popBlocked := by
  cases p with
  | popBlocked => rfl
  | _ => cases h

theorem eq_idle {p : Pc T} (h : p.isIdle = true) : p = .idle := by
  cases p with
  | idle => rfl
  | _ => cases h

theorem waiting_eq_zero {p : Pc T} (h : p.waits = false) : p.waiting = 0 := by
  cases p with
  | popBlocked => cases h
  | _ => rfl

end Pc

variable {container : Container C T} {s s' : State ι C T} {t : ι} {p q : Pc T}

/-- What a thread knows, where it is. -/
def PcOk (container : Container C T) (queue : C) : Pc T → Prop
  | .popWait => container.elements queue = 0
  | .popFront => container.elements queue ≠ 0
  | .popRemove data =>
      container.front queue = some data ∧ container.elements queue = data ::ₘ container.elements (container.pop queue)
  | _ => True

theorem PcOk.outside (container : Container C T) (queue : C) (h : p.inside = false) : PcOk container queue p := by
  cases p with
  | popWait => cases h
  | popFront => cases h
  | popRemove data => cases h
  | _ => trivial

/-- What a list of pushes or pops has in it. -/
def values (history : List (ι × T)) : Multiset T := (history.map Prod.snd : List T)

omit [DecidableEq ι] [Fintype ι] in
theorem values_append (history : List (ι × T)) (t : ι) (data : T) :
    values (history ++ [(t, data)]) = data ::ₘ values history := by
  unfold values
  rw [List.map_append, List.map_singleton, ← Multiset.coe_add, Multiset.add_comm, Multiset.coe_singleton,
    Multiset.singleton_add]

/-- **The invariant.** -/
structure Inv (container : Container C T) (s : State ι C T) : Prop where
  mutex : Guards Pc.inside s.pc s.mutex
  history : values s.pushed = values s.popped + container.elements s.queue
  pcs : ∀ t, PcOk container s.queue (s.pc t)
  heard : tally Pc.waiting s.pc = 0 ∨
    (container.elements s.queue).card ≤ tally Pc.notifying s.pc + tally Pc.active s.pc

/-- One thread goes on. If it changes the container, it has the mutex. -/
theorem Inv.goes (h : Inv container s) (hold : s.pc t = p) (hnew : s'.pc = Function.update s.pc t q)
    (hmutex : Guards Pc.inside s'.pc s'.mutex)
    (hhistory : values s'.pushed = values s'.popped + container.elements s'.queue)
    (hqueue : s'.queue = s.queue ∨ p.inside = true) (hok : PcOk container s'.queue q)
    (hheard : tally Pc.waiting s.pc + q.waiting = p.waiting ∨
      (container.elements s'.queue).card + p.notifying + p.active ≤
        (tally Pc.notifying s.pc + q.notifying) + (tally Pc.active s.pc + q.active)) : Inv container s' := by
  have hnotifying := tally_update Pc.notifying s.pc t q
  have hactive := tally_update Pc.active s.pc t q
  have hwaiting := tally_update Pc.waiting s.pc t q
  rw [hold, ← hnew] at hnotifying hactive hwaiting
  refine ⟨hmutex, hhistory, fun u => ?_, by omega⟩
  by_cases hu : u = t
  · rw [hu, hnew, Function.update_self]
    exact hok
  · rw [hnew, Function.update_of_ne hu]
    rcases hqueue with hsame | hinside
    · rw [hsame]
      exact h.pcs u
    · refine PcOk.outside container s'.queue (Bool.eq_false_iff.mpr fun hin => hu (h.mutex.unique hin ?_))
      rw [hold, hinside]

/-- One thread goes on, and nothing else changes but the mutex. -/
theorem Inv.stays (h : Inv container s) (hold : s.pc t = p) (hnew : s'.pc = Function.update s.pc t q)
    (hstate : (s'.queue, s'.pushed, s'.popped) = (s.queue, s.pushed, s.popped))
    (hmutex : Guards Pc.inside s'.pc s'.mutex) (hok : PcOk container s.queue q)
    (hheard : tally Pc.waiting s.pc + q.waiting = p.waiting ∨
      (container.elements s.queue).card + p.notifying + p.active ≤
        (tally Pc.notifying s.pc + q.notifying) + (tally Pc.active s.pc + q.active)) : Inv container s' := by
  simp only [Prod.mk.injEq] at hstate
  obtain ⟨hqueue, hpushed, hpopped⟩ := hstate
  refine h.goes hold hnew hmutex ?_ (.inl hqueue) (hqueue ▸ hok) (hqueue ▸ hheard)
  rw [hqueue, hpushed, hpopped]
  exact h.history

/-- One thread goes on to a place where the same is counted. -/
theorem Inv.same (h : Inv container s) (hold : s.pc t = p) (hnew : s'.pc = Function.update s.pc t q)
    (hstate : (s'.queue, s'.pushed, s'.popped) = (s.queue, s.pushed, s.popped))
    (hmutex : Guards Pc.inside s'.pc s'.mutex) (hok : PcOk container s.queue q) (hcounts : q.counts = p.counts) :
    Inv container s' := by
  simp only [Prod.mk.injEq, Pc.counts] at hcounts
  obtain ⟨hnotifying, hactive, hwaiting⟩ := hcounts
  have hheard := h.heard
  have hle : Pc.waiting (s.pc t) ≤ tally Pc.waiting s.pc := le_tally t
  rw [hold] at hle
  refine h.stays hold hnew hstate hmutex hok ?_
  rw [hnotifying, hactive, hwaiting]
  omega

/-! ## The steps -/

/-- A consumer that is woken is active for one more element. -/
theorem Inv.wake (h : Inv container s) {u : ι} (hu : s.pc u = .popBlocked) :
    Inv container (s.goto u .popRelock) ∧ (container.elements s.queue).card + 1 ≤
      tally Pc.notifying (s.goto u .popRelock).pc + tally Pc.active (s.goto u .popRelock).pc := by
  have hheard := h.heard
  have hwaiting : Pc.waiting (s.pc u) ≤ tally Pc.waiting s.pc := le_tally u
  have hnotifying := tally_update Pc.notifying s.pc u .popRelock
  have hactive := tally_update Pc.active s.pc u .popRelock
  rw [hu] at hwaiting hnotifying hactive
  dsimp only [Pc.waiting, Pc.notifying, Pc.active] at hwaiting hnotifying hactive
  refine ⟨h.stays hu rfl rfl (h.mutex.goes hu rfl) trivial ?_, ?_⟩
  · dsimp only [Pc.waiting, Pc.notifying, Pc.active]
    omega
  · dsimp only [State.goto]
    omega

/-- The thread that is woken, if there is one. -/
theorem notifyOne_cases {woken : Option ι} (h : notifyOne s woken = some s') :
    (∃ u, s.pc u = .popBlocked ∧ s' = s.goto u .popRelock) ∨ (∀ u, (s.pc u).waits = false) ∧ s' = s := by
  cases woken with
  | none =>
      obtain ⟨hnone, hs'⟩ := Option.ite_none_right_eq_some.mp h
      exact .inr ⟨hnone, (Option.some.inj hs').symm⟩
  | some u =>
      obtain ⟨hwaits, hs'⟩ := Option.ite_none_right_eq_some.mp h
      exact .inl ⟨u, Pc.eq_popBlocked hwaits, (Option.some.inj hs').symm⟩

/-- **A notification** wakes a consumer for the element, or nobody waits. -/
theorem Inv.notify (h : Inv container s) {woken : Option ι} (hpc : s.pc t = .pushNotify)
    (hnotify : notifyOne s woken = some s') : Inv container (s'.goto t .idle) := by
  rcases notifyOne_cases hnotify with ⟨u, hu, rfl⟩ | ⟨hnobody, rfl⟩
  · have hne : t ≠ u := by
      rintro rfl
      rw [hpc] at hu
      cases hu
    obtain ⟨h₁, helement⟩ := h.wake hu
    have hqueue : s.queue = (s.goto u .popRelock).queue := rfl
    rw [hqueue] at helement
    have hpc₁ : (s.goto u .popRelock).pc t = .pushNotify := (Function.update_of_ne hne _ _).trans hpc
    generalize s.goto u .popRelock = s₁ at h₁ helement hpc₁
    exact h₁.stays hpc₁ rfl rfl (h₁.mutex.goes hpc₁ rfl) trivial
      (by dsimp only [Pc.waiting, Pc.notifying, Pc.active]; omega)
  · have hnone : tally Pc.waiting s'.pc = 0 := tally_zero fun u => Pc.waiting_eq_zero (hnobody u)
    exact h.stays hpc rfl rfl (h.mutex.goes hpc rfl) trivial (.inl hnone)

/-- An element that is pushed will be notified of. -/
theorem Inv.pushes (h : Inv container s) {data : T} (hpc : s.pc t = .pushStore data) :
    Inv container
      ({ s with queue := container.push s.queue data, pushed := s.pushed ++ [(t, data)] }.goto t .pushUnlock) := by
  have hheard := h.heard
  refine h.goes hpc rfl (h.mutex.goes hpc rfl) ?_ (.inr rfl) trivial ?_
  · show values (s.pushed ++ [(t, data)]) = values s.popped + container.elements (container.push s.queue data)
    rw [values_append, h.history, container.elements_push, Multiset.add_cons]
  · show _ ∨ (container.elements (container.push s.queue data)).card + _ + _ ≤ _
    rw [container.elements_push, Multiset.card_cons]
    dsimp only [Pc.waiting, Pc.notifying, Pc.active]
    omega

/-- **The test** under the mutex: a consumer that goes to wait is not needed, as there are no elements. -/
theorem Inv.tests (h : Inv container s) (hpc : s.pc t = .popTest) :
    Inv container (s.goto t (if container.empty s.queue = true then .popWait else .popFront)) := by
  have hheard := h.heard
  by_cases hempty : container.empty s.queue = true
  · rw [if_pos hempty]
    have hnone := (container.empty_iff s.queue).mp hempty
    have hactive : Pc.active (s.pc t) ≤ tally Pc.active s.pc := le_tally t
    rw [hpc] at hactive
    dsimp only [Pc.active] at hactive
    refine h.stays hpc rfl rfl (h.mutex.goes hpc rfl) hnone ?_
    rw [hnone, Multiset.card_zero]
    dsimp only [Pc.waiting, Pc.notifying, Pc.active]
    omega
  · rw [if_neg hempty]
    have hsome : container.elements s.queue ≠ 0 := fun hnone => hempty ((container.empty_iff s.queue).mpr hnone)
    exact h.same hpc rfl rfl (h.mutex.goes hpc rfl) hsome rfl

/-- A consumer that takes an element out leaves one less to be taken. -/
theorem Inv.pops (h : Inv container s) {data : T} (hpc : s.pc t = .popRemove data) :
    Inv container
      ({ s with queue := container.pop s.queue, popped := s.popped ++ [(t, data)] }.goto t .popUnlock) := by
  have hheard := h.heard
  have hplace := h.pcs t
  rw [hpc] at hplace
  obtain ⟨-, hrest⟩ := hplace
  refine h.goes hpc rfl (h.mutex.goes hpc rfl) ?_ (.inr rfl) trivial ?_
  · show values s.pushed = values (s.popped ++ [(t, data)]) + container.elements (container.pop s.queue)
    rw [values_append, h.history, hrest, Multiset.add_cons, Multiset.cons_add]
  · rw [hrest, Multiset.card_cons] at hheard
    dsimp only [Pc.waiting, Pc.notifying, Pc.active, State.goto]
    omega

theorem Inv.step (h : Inv container s) {woken : Option ι} (hstep : step container s (t, woken) = some s') :
    Inv container s' := by
  have hheard := h.heard
  have hplace := h.pcs t
  cases hpc : s.pc t <;>
    simp only [WaitableQueue.step, hpc, Option.ite_none_right_eq_some, Option.some.injEq] at hstep hplace
  case idle =>
    cases hcalls : s.calls t with
    | nil =>
        rw [hcalls] at hstep
        cases hstep
    | cons call calls =>
        rw [hcalls] at hstep
        cases call with
        | push data =>
            obtain rfl := Option.some.inj hstep
            exact h.same hpc rfl rfl (h.mutex.goes hpc rfl) trivial rfl
        | pop =>
            obtain rfl := Option.some.inj hstep
            exact h.same hpc rfl rfl (h.mutex.goes hpc rfl) trivial rfl
  case pushLock data =>
    obtain ⟨hfree, rfl⟩ := hstep
    exact h.same hpc rfl rfl (h.mutex.lock hfree rfl) trivial rfl
  case pushStore data =>
    subst hstep
    exact h.pushes hpc
  case pushUnlock =>
    subst hstep
    exact h.same hpc rfl rfl (h.mutex.unlock hpc rfl rfl) trivial rfl
  case pushNotify =>
    obtain ⟨s₁, hnotify, rfl⟩ := Option.map_eq_some_iff.mp hstep
    exact h.notify hpc hnotify
  case popLock | popRelock =>
    obtain ⟨hfree, rfl⟩ := hstep
    exact h.stays hpc rfl rfl (h.mutex.lock hfree rfl) trivial
      (by dsimp only [Pc.waiting, Pc.notifying, Pc.active]; omega)
  case popTest =>
    subst hstep
    exact h.tests hpc
  case popWait =>
    -- the container is still empty, as the mutex was not released since the test
    subst hstep
    have hnone : container.elements s.queue = 0 := hplace
    refine h.stays hpc rfl rfl (h.mutex.unlock hpc rfl rfl) trivial (.inr ?_)
    rw [hnone, Multiset.card_zero]
    dsimp only [Pc.notifying, Pc.active]
    omega
  case popBlocked =>
    subst hstep
    exact (h.wake hpc).1
  case popFront =>
    obtain ⟨data, hfront, rfl⟩ := Option.map_eq_some_iff.mp hstep
    obtain ⟨x, hx, hrest⟩ := container.front_pop s.queue hplace
    obtain rfl := Option.some.inj (hx.symm.trans hfront)
    exact h.same hpc rfl rfl (h.mutex.goes hpc rfl) ⟨hfront, hrest⟩ rfl
  case popRemove data =>
    subst hstep
    exact h.pops hpc
  case popUnlock =>
    subst hstep
    exact h.same hpc rfl rfl (h.mutex.unlock hpc rfl rfl) trivial rfl

omit [DecidableEq ι] in
theorem inv_start (hstart : Start container s) : Inv container s := by
  obtain ⟨calls, rfl⟩ := hstart
  refine ⟨.free fun _ => rfl, ?_, fun _ => trivial, .inl (tally_zero fun _ => rfl)⟩
  rw [container.elements_new]
  rfl

theorem Inv.of_reachable (h : (program ι container).Reachable System.Any s) : Inv container s :=
  System.invariant (fun _ hstart => inv_start hstart) (fun _ _ _ h _ hstep => h.step hstep) h

/-! ## The main result -/

/-- An element that nobody will take: somebody notifies, or is active. -/
theorem Inv.wakes (h : Inv container s) : ¬ Stranded container s := by
  rintro ⟨helement, t, hwaits, hothers⟩
  have hblocked := Pc.eq_popBlocked hwaits
  have hwaiting : Pc.waiting (s.pc t) ≤ tally Pc.waiting s.pc := le_tally t
  rw [hblocked, Pc.waiting] at hwaiting
  have hquiet : ∀ u, Pc.notifying (s.pc u) = 0 ∧ Pc.active (s.pc u) = 0 := by
    intro u
    by_cases hut : u = t
    · rw [hut, hblocked]
      exact ⟨rfl, rfl⟩
    rcases hothers u hut with ⟨hidle, -⟩ | hread
    · rw [Pc.eq_idle hidle]
      exact ⟨rfl, rfl⟩
    · rw [Pc.eq_popBlocked hread]
      exact ⟨rfl, rfl⟩
  have hnotifying : tally Pc.notifying s.pc = 0 := tally_zero fun u => (hquiet u).1
  have hactive : tally Pc.active s.pc = 0 := tally_zero fun u => (hquiet u).2
  have hheard := h.heard
  have hnone : container.elements s.queue = 0 := Multiset.card_eq_zero.mp (by omega)
  rw [(container.empty_iff s.queue).mpr hnone] at helement
  cases helement

omit [DecidableEq ι] in
theorem Inv.takes (h : Inv container s) (ht : (s.pc t).takes = true) : container.empty s.queue = false := by
  have hplace := h.pcs t
  refine Bool.eq_false_iff.mpr fun hempty => ?_
  have hnone := (container.empty_iff s.queue).mp hempty
  cases hpc : s.pc t <;> rw [hpc] at ht hplace
  case popFront => exact hplace hnone
  case popRemove data =>
    obtain ⟨-, hrest⟩ := hplace
    rw [hnone] at hrest
    exact Multiset.zero_ne_cons hrest
  all_goals cases ht

/-- **The queue is safe**, for any threads in any order: what was popped and what is in the container is what was
pushed, nobody takes an element out of an empty container, and no wakeup is lost. -/
theorem waiting_is_safe (h : (program ι container).Reachable System.Any s) :
    values s.popped + container.elements s.queue = values s.pushed ∧
      (∀ t, (s.pc t).takes = true → container.empty s.queue = false) ∧ ¬ Stranded container s := by
  have hinv := Inv.of_reachable h
  exact ⟨hinv.history.symm, fun t => hinv.takes, hinv.wakes⟩

/-- The consumer 0 waits, and the producer 1 pushes and wakes it. -/
theorem waiting_sample : ∃ s : State (Fin 2) (List Nat) Nat, s.popped = [(0, 7)] ∧ Finished s 1 ∧
    values s.popped + (Container.queue Nat).elements s.queue = values s.pushed ∧
    ¬ Stranded (Container.queue Nat) s := by
  obtain ⟨s, hreachable, hstate⟩ := System.exists_reachable (Start (Container.queue Nat))
    (step (Container.queue Nat)) System.Any ⟨fun t => if t = (0 : Fin 2) then [.pop] else [.push 7], rfl⟩
    [(0, none), (0, none), (0, none), (0, none), (1, none), (1, none), (1, none), (1, none), (1, some 0),
      (0, none), (0, none), (0, none), (0, none)]
    (fun s => decide (s.popped = [(0, 7)] ∧ (s.pc 1).isIdle = true ∧ (s.calls 1).isEmpty = true)) (by decide)
  obtain ⟨hpopped, hidle, hcalls⟩ := of_decide_eq_true hstate
  obtain ⟨hvalues, -, hsafe⟩ := waiting_is_safe hreachable
  exact ⟨s, hpopped, ⟨hidle, List.isEmpty_iff.mp hcalls⟩, hvalues, hsafe⟩

end Workbench.Producers.WaitableQueue
