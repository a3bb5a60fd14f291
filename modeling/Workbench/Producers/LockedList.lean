import Mathlib.Data.List.Nodup
import Mathlib.Data.List.Perm.Basic
import Workbench.Lib.Threads

/-!
# `Producers.LockedList` — `ex2_1.c` and `ex2_2.c`, a list behind a mutex

A producer pushes one number in front of the list, and a consumer pops the first one. A consumer waits in `ex2_1.c` for
the list, and in `ex2_2.c` for a semaphore that the producers post. `main` of `ex2_2.c` lets the semaphore start at 1.

## Contents
* `pushFront`, `popFront` — the list in memory, with a dummy node in front;
* `Kind`, `step` — the two programs, and the step of one thread;
* `Inv` — the invariant: the mutex, the list, and the permits of the semaphore;
* `list_is_safe` — what is popped is the number that was pushed last, and `NULL` is not dereferenced in `ex2_1.c`;
* `pops_null_iff` — when a consumer of `ex2_2.c` dereferences `NULL`.
-/

namespace Workbench.Producers.LockedList

/-! ## The list -/

/-- `node_t`. The data are a number. -/
structure Node where
  data : UInt64
  next : Option Nat
  deriving DecidableEq

/-- The nodes that are allocated, by their addresses. -/
abbrev Memory := Nat → Option Node

/-- `malloc` is what the allocation returns. Without a node it is `NULL`, and nothing changes. -/
def pushFront (memory : Memory) (whereNode : Nat) (data : UInt64) (malloc : Option Nat) : Option Memory :=
  match malloc with
  | none => some memory
  | some newNode => do
      let node ← memory whereNode
      let memory := Function.update memory newNode (some ⟨data, node.next⟩)
      return Function.update memory whereNode (some { node with next := some newNode })

/-- The outer `none` is a `NULL` that is dereferenced. -/
def popFront (memory : Memory) (head : Nat) : Option (Memory × UInt64) := do
  let node ← memory head
  let tmp ← node.next
  let first ← memory tmp
  let memory := Function.update memory head (some { node with next := first.next })
  return (Function.update memory tmp none, first.data)

/-- The nodes from a pointer on, with their data. -/
def Linked (memory : Memory) : Option Nat → List (Nat × UInt64) → Prop
  | next, [] => next = none
  | next, (p, data) :: xs => next = some p ∧ ∃ next', memory p = some ⟨data, next'⟩ ∧ Linked memory next' xs

/-- The list behind the dummy, and nothing else is allocated. -/
structure Holds (memory : Memory) (head : Nat) (xs : List (Nat × UInt64)) : Prop where
  linked : ∃ node, memory head = some node ∧ Linked memory node.next xs
  nodup : (head :: xs.map Prod.fst).Nodup
  allocated : ∀ p, (memory p).isSome = true ↔ p ∈ head :: xs.map Prod.fst

variable {memory memory' : Memory} {head p : Nat} {data : UInt64} {next : Option Nat}
  {xs : List (Nat × UInt64)}

/-- Another node is written. -/
theorem Linked.frame (h : Linked memory next xs) (hsame : ∀ p ∈ xs.map Prod.fst, memory' p = memory p) :
    Linked memory' next xs := by
  induction xs generalizing next with
  | nil => exact h
  | cons x xs ih =>
      obtain ⟨hnext, next', hnode, hrest⟩ := h
      have hx := hsame x.1 List.mem_cons_self
      exact ⟨hnext, next', hx.trans hnode, ih hrest fun p hp => hsame p (List.mem_cons_of_mem _ hp)⟩

/-- **A push**: the node is the first one. -/
theorem Holds.push (h : Holds memory head xs) (hfresh : memory p = none) :
    ∃ memory', pushFront memory head data (some p) = some memory' ∧ Holds memory' head ((p, data) :: xs) := by
  obtain ⟨node, hhead, hlinked⟩ := h.linked
  have hout : p ∉ head :: xs.map Prod.fst := fun hp => by
    rw [← h.allocated, hfresh] at hp
    cases hp
  have hne : head ≠ p := fun heq => hout (heq ▸ List.mem_cons_self)
  obtain ⟨hheadOut, hnodup⟩ := List.nodup_cons.mp h.nodup
  refine ⟨_, by rw [pushFront, hhead]; rfl, ⟨⟨_, Function.update_self .., rfl, node.next, ?_, ?_⟩, ?_, fun q => ?_⟩⟩
  · rw [Function.update_of_ne hne.symm, Function.update_self]
  · refine hlinked.frame fun q hq => ?_
    have hqhead : q ≠ head := fun heq => hheadOut (heq ▸ hq)
    have hqp : q ≠ p := fun heq => hout (heq ▸ List.mem_cons_of_mem _ hq)
    rw [Function.update_of_ne hqhead, Function.update_of_ne hqp]
  · rw [List.map_cons]
    have hpout : p ∉ xs.map Prod.fst := fun hp => hout (List.mem_cons_of_mem _ hp)
    refine List.nodup_cons.mpr ⟨?_, List.nodup_cons.mpr ⟨hpout, hnodup⟩⟩
    rw [List.mem_cons]
    exact not_or.mpr ⟨hne, hheadOut⟩
  · have hq := h.allocated q
    by_cases hqhead : q = head
    · subst hqhead
      simp
    · rw [Function.update_of_ne hqhead]
      by_cases hqp : q = p
      · subst hqp
        simp
      · rw [Function.update_of_ne hqp, hq]
        simp [hqhead, hqp]

/-- **A pop** gives the data of the first node, and frees it. -/
theorem Holds.pop (h : Holds memory head ((p, data) :: xs)) :
    ∃ memory', popFront memory head = some (memory', data) ∧ Holds memory' head xs := by
  obtain ⟨node, hhead, hnext, next', hfirst, hlinked⟩ := h.linked
  have hnodup := h.nodup
  rw [List.map_cons] at hnodup
  obtain ⟨hheadOut, hnodup⟩ := List.nodup_cons.mp hnodup
  obtain ⟨hpOut, hnodup⟩ := List.nodup_cons.mp hnodup
  obtain ⟨hne, hheadOut⟩ := not_or.mp (mt List.mem_cons.mpr hheadOut)
  have hpop : popFront memory head =
      some (Function.update (Function.update memory head (some { node with next := next' })) p none, data) := by
    simp [popFront, hhead, hnext, hfirst]
  refine ⟨_, hpop, ⟨⟨_, by rw [Function.update_of_ne hne, Function.update_self], ?_⟩,
    List.nodup_cons.mpr ⟨hheadOut, hnodup⟩, fun q => ?_⟩⟩
  · refine hlinked.frame fun q hq => ?_
    have hqhead : q ≠ head := fun heq => hheadOut (heq ▸ hq)
    have hqp : q ≠ p := fun heq => hpOut (heq ▸ hq)
    rw [Function.update_of_ne hqp, Function.update_of_ne hqhead]
  · have hq := h.allocated q
    rw [List.map_cons] at hq
    by_cases hqp : q = p
    · subst hqp
      rw [Function.update_self, List.mem_cons]
      simp [Ne.symm hne, hpOut]
    · rw [Function.update_of_ne hqp]
      by_cases hqhead : q = head
      · subst hqhead
        simp
      · rw [Function.update_of_ne hqhead, hq]
        simp [hqp, hqhead]

/-- There is nothing to pop. -/
theorem Holds.pop_nil (h : Holds memory head []) : popFront memory head = none := by
  obtain ⟨node, hhead, hnext⟩ := h.linked
  simp [popFront, hhead, show node.next = none from hnext]

/-! ## The programs -/

variable {ι : Type}

/-- What the consumers wait for: the list in `ex2_1.c`, the semaphore in `ex2_2.c`. -/
inductive Kind
  | list
  | semaphore
  deriving DecidableEq

/-- What a thread does next. -/
inductive Pc
  | lock
  | semPost
  | push
  | increment
  | unlock
  | lockFirst
  | unlockLoop
  | lockLoop
  | test
  | semWait
  | pop
  | unlockLast (data : UInt64)
  | finished
  deriving DecidableEq

structure State (ι : Type) where
  memory : Memory
  head : Nat
  /-- The value of the semaphore. -/
  value : Nat
  /-- The static variable of `ProducerFunc`. -/
  i : UInt64
  mutex : Option ι
  pc : ι → Pc
  /-- What was pushed, what was popped and by whom, and what is left: what was pushed last is in front. -/
  pushed : List UInt64
  popped : List (ι × UInt64)
  stack : List UInt64
  /-- How often `malloc` failed. -/
  failures : Nat

variable [DecidableEq ι]

def State.goto (s : State ι) (t : ι) (p : Pc) : State ι := { s with pc := Function.update s.pc t p }

/-- The history of a push. -/
def State.record (s : State ι) (data : UInt64) : Option Nat → State ι
  | none => { s with failures := s.failures + 1 }
  | some _ => { s with pushed := s.pushed ++ [data], stack := data :: s.stack }

/-- The step of a thread, and what `malloc` returns. -/
def step (k : Kind) (s : State ι) : ι × Option Nat → Option (State ι)
  | (t, malloc) =>
    match s.pc t with
    | .lock =>
        if s.mutex = none then
          match k with
          | .list => some ({ s with mutex := some t }.goto t .push)
          | .semaphore => some ({ s with mutex := some t }.goto t .semPost)
        else none
    | .semPost => some ({ s with value := s.value + 1 }.goto t .push)
    | .push =>
        if malloc.all (fun p => (s.memory p).isNone) = true then do
          let memory ← pushFront s.memory s.head s.i malloc
          return ({ s with memory }.record s.i malloc).goto t .increment
        else none
    | .increment => some ({ s with i := s.i + 1 }.goto t .unlock)
    | .unlock => some ({ s with mutex := none }.goto t .finished)
    | .lockFirst => if s.mutex = none then some ({ s with mutex := some t }.goto t .unlockLoop) else none
    | .unlockLoop => some ({ s with mutex := none }.goto t .lockLoop)
    | .lockLoop => if s.mutex = none then some ({ s with mutex := some t }.goto t .test) else none
    | .test =>
        match k with
        | .list => do
            let node ← s.memory s.head
            if node.next = none then return s.goto t .unlockLoop else return s.goto t .pop
        | .semaphore => if s.value = 0 then some (s.goto t .unlockLoop) else some (s.goto t .semWait)
    | .semWait => if 0 < s.value then some ({ s with value := s.value - 1 }.goto t .pop) else none
    | .pop => do
        let (memory, data) ← popFront s.memory s.head
        return { s with
          memory
          popped := s.popped ++ [(t, data)]
          stack := s.stack.tail }.goto t (.unlockLast data)
    | .unlockLast _ => some ({ s with mutex := none }.goto t .finished)
    | .finished => none

/-- The program after `main` created the dummy and the semaphore: the threads are producers and consumers. -/
def Start (value : Nat) (s : State ι) : Prop :=
  ∃ (pc : ι → Pc) (head : Nat) (data : UInt64), (∀ t, pc t = .lock ∨ pc t = .lockFirst) ∧
    s = ⟨Function.update (fun _ => none) head (some ⟨data, none⟩), head, value, 1, none, pc, [], [], [], 0⟩

/-- The runs of the program. -/
def program (ι : Type) [DecidableEq ι] (k : Kind) (value : Nat) : System (State ι) (ι × Option Nat) :=
  .ofThreads (Start value) (step k)

/-! ## The invariant -/

namespace Pc

def inside : Pc → Bool
  | semPost | push | increment | unlock | unlockLoop | test | semWait | pop | unlockLast _ => true
  | _ => false

/-- The semaphore is posted, and the number is not pushed yet. -/
def posted : Pc → Nat
  | push => 1
  | _ => 0

/-- The semaphore is taken, and nothing is popped yet. -/
def taken : Pc → Nat
  | pop => 1
  | _ => 0

/-- The consumer is past its loop. -/
def takes : Pc → Bool
  | semWait | pop => true
  | _ => false

theorem posted_out {p : Pc} (h : p.inside = false) : p.posted = 0 := by
  cases p with
  | push => cases h
  | _ => rfl

theorem takes_inside {p : Pc} (h : p.takes = true) : p.inside = true := by
  cases p <;> first | rfl | cases h

theorem taken_out {p : Pc} (h : p.inside = false) : p.taken = 0 := by
  cases p with
  | pop => cases h
  | _ => rfl

end Pc

/-- The invariant, for a semaphore that starts at `v`. -/
structure Inv [Fintype ι] (k : Kind) (v : Nat) (s : State ι) : Prop where
  guards : Guards Pc.inside s.pc s.mutex
  holds : ∃ xs, Holds s.memory s.head xs ∧ xs.map Prod.snd = s.stack
  elements : (s.popped.map Prod.snd ++ s.stack).Perm s.pushed
  /-- A consumer of `ex2_1.c` saw an element, and has the mutex since. -/
  ready : k = .list → ∀ t, (s.pc t).takes = true → s.stack ≠ []
  permits : k = .semaphore →
    s.value + tally Pc.taken s.pc = v + s.failures + s.stack.length + tally Pc.posted s.pc

variable [Fintype ι] {k : Kind} {v : Nat} {s s' : State ι} {t : ι} {q r : Pc} {a : ι × Option Nat}

/-- A thread goes on, and the list stays as it is. -/
theorem Inv.walks {value : Nat} {i : UInt64} {mutex : Option ι} (h : Inv k v s) (hpc : s.pc t = q)
    (hguards : Guards Pc.inside (Function.update s.pc t r) mutex) (hready : k = .list → r.takes = true → s.stack ≠ [])
    (hpermits : k = .semaphore → value + r.taken + q.posted = s.value + q.taken + r.posted) :
    Inv k v ({ s with value, i, mutex }.goto t r) := by
  refine ⟨hguards, h.holds, h.elements, fun hk u hu => ?_, fun hk => ?_⟩
  · dsimp only [State.goto] at hu
    by_cases hut : u = t
    · subst hut
      rw [Function.update_self] at hu
      exact hready hk hu
    · rw [Function.update_of_ne hut] at hu
      exact h.ready hk u hu
  · have htaken := tally_update Pc.taken s.pc t r
    have hposted := tally_update Pc.posted s.pc t r
    rw [hpc] at htaken hposted
    have hold := h.permits hk
    have hmove := hpermits hk
    dsimp only [State.goto]
    omega

/-- **A push**: the number is in front, or `malloc` failed and the permit is one too many. -/
theorem Inv.push {malloc : Option Nat} {memory : Memory} (h : Inv k v s) (hpc : s.pc t = .push)
    (hmalloc : malloc.all (fun p => (s.memory p).isNone) = true)
    (hpush : pushFront s.memory s.head s.i malloc = some memory) :
    Inv k v (({ s with memory }.record s.i malloc).goto t .increment) := by
  have htaken := tally_update Pc.taken s.pc t .increment
  have hposted := tally_update Pc.posted s.pc t .increment
  rw [hpc] at htaken hposted
  dsimp only [Pc.taken, Pc.posted] at htaken hposted
  obtain ⟨xs, hholds, hstack⟩ := h.holds
  cases malloc with
  | none =>
      obtain rfl := Option.some.inj hpush
      refine ⟨h.guards.goes hpc rfl, ⟨xs, hholds, hstack⟩, h.elements, fun hk u hu => ?_, fun hk => ?_⟩
      · dsimp only [State.goto, State.record] at hu
        by_cases hut : u = t
        · subst hut
          rw [Function.update_self] at hu
          cases hu
        · rw [Function.update_of_ne hut] at hu
          exact h.ready hk u hu
      · have hold := h.permits hk
        dsimp only [State.goto, State.record]
        omega
  | some p =>
      have hfresh : s.memory p = none := Option.isNone_iff_eq_none.mp hmalloc
      obtain ⟨memory', hmemory, hholds'⟩ : ∃ memory', pushFront s.memory s.head s.i (some p) = some memory' ∧
        Holds memory' s.head ((p, s.i) :: xs) := hholds.push hfresh
      obtain rfl := Option.some.inj (hpush.symm.trans hmemory)
      refine ⟨h.guards.goes hpc rfl, ⟨_, hholds', by rw [List.map_cons, hstack]; rfl⟩, ?_, fun _ _ _ => nofun,
        fun hk => ?_⟩
      · refine List.perm_middle.trans ?_
        exact (h.elements.cons s.i).trans (List.perm_append_singleton s.i s.pushed).symm
      · have hold := h.permits hk
        dsimp only [State.goto, State.record]
        rw [List.length_cons]
        omega

omit [DecidableEq ι] in
/-- A thread that pops has the mutex, and so it has the only permit that is taken and not used. -/
theorem Inv.popping (h : Inv k v s) (hpc : s.pc t = .pop) :
    tally Pc.taken s.pc = 1 ∧ tally Pc.posted s.pc = 0 :=
  ⟨h.guards.tally hpc rfl fun _ => Pc.taken_out, h.guards.tally hpc rfl fun _ => Pc.posted_out⟩

omit [DecidableEq ι] in
/-- **A pop** gives the number in front. -/
theorem Inv.popFront (h : Inv k v s) :
    match s.stack with
    | [] => popFront s.memory s.head = none
    | data :: stack => ∃ memory xs, popFront s.memory s.head = some (memory, data) ∧ Holds memory s.head xs ∧
        xs.map Prod.snd = stack := by
  obtain ⟨xs, hholds, hstack⟩ := h.holds
  cases xs with
  | nil =>
      rw [← hstack]
      exact hholds.pop_nil
  | cons x xs =>
      obtain ⟨memory, hpop, hholds'⟩ := hholds.pop
      rw [← hstack]
      exact ⟨memory, xs, hpop, hholds', rfl⟩

theorem Inv.pop {memory : Memory} {data : UInt64} (h : Inv k v s) (hpc : s.pc t = .pop)
    (hpop : LockedList.popFront s.memory s.head = some (memory, data)) :
    Inv k v ({ s with
      memory
      popped := s.popped ++ [(t, data)]
      stack := s.stack.tail }.goto t (.unlockLast data)) := by
  have hfront := h.popFront
  cases hstack : s.stack with
  | nil =>
      rw [hstack] at hfront
      exact nomatch hpop.symm.trans hfront
  | cons x stack =>
      rw [hstack] at hfront
      obtain ⟨memory', xs, hpop', hholds, hmap⟩ := hfront
      obtain ⟨rfl, rfl⟩ := Prod.mk.inj (Option.some.inj (hpop.symm.trans hpop'))
      have htaken := tally_update Pc.taken s.pc t (.unlockLast data)
      have hposted := tally_update Pc.posted s.pc t (.unlockLast data)
      rw [hpc] at htaken hposted
      dsimp only [Pc.taken, Pc.posted] at htaken hposted
      refine ⟨h.guards.goes hpc rfl, ⟨xs, hholds, hmap⟩, ?_, fun hk u hu => ?_, fun hk => ?_⟩
      · dsimp only [State.goto, List.tail_cons]
        rw [List.map_append, List.append_assoc]
        have helements := h.elements
        rw [hstack] at helements
        exact helements
      · -- nobody else is in the critical section
        dsimp only [State.goto] at hu
        by_cases hut : u = t
        · subst hut
          rw [Function.update_self] at hu
          cases hu
        · rw [Function.update_of_ne hut] at hu
          exact absurd (h.guards.unique (Pc.takes_inside hu) (by rw [hpc]; rfl)) hut
      · have hold := h.permits hk
        rw [hstack, List.length_cons] at hold
        dsimp only [State.goto, List.tail_cons]
        omega

theorem Inv.step (h : Inv k v s) (hstep : step k s a = some s') : Inv k v s' := by
  obtain ⟨t, malloc⟩ := a
  cases hpc : s.pc t <;>
    simp only [LockedList.step, hpc, Option.ite_none_right_eq_some, Option.some.injEq, reduceCtorEq] at hstep
  case lock =>
    obtain ⟨hfree, hstep⟩ := hstep
    cases k with
    | list =>
        obtain rfl := Option.some.inj hstep
        exact h.walks hpc (h.guards.lock hfree rfl) nofun nofun
    | semaphore =>
        obtain rfl := Option.some.inj hstep
        exact h.walks hpc (h.guards.lock hfree rfl) nofun fun _ => rfl
  case semPost =>
    subst hstep
    exact h.walks hpc (h.guards.goes hpc rfl) nofun fun _ => by dsimp only [Pc.taken, Pc.posted]
  case push =>
    obtain ⟨hmalloc, hstep⟩ := hstep
    obtain ⟨memory, hpush, hstep⟩ := Option.bind_eq_some_iff.mp hstep
    obtain rfl := Option.some.inj hstep
    exact h.push hpc hmalloc hpush
  case increment =>
    subst hstep
    exact h.walks hpc (h.guards.goes hpc rfl) nofun fun _ => rfl
  case unlock | unlockLoop | unlockLast =>
    subst hstep
    exact h.walks hpc (h.guards.unlock hpc rfl rfl) nofun fun _ => rfl
  case lockFirst | lockLoop =>
    obtain ⟨hfree, rfl⟩ := hstep
    exact h.walks hpc (h.guards.lock hfree rfl) nofun fun _ => rfl
  case test =>
    cases k with
    | list =>
        obtain ⟨node, hnode, hstep⟩ := Option.bind_eq_some_iff.mp hstep
        split at hstep
        case isTrue =>
            obtain rfl := Option.some.inj hstep
            exact h.walks hpc (h.guards.goes hpc rfl) nofun nofun
        case isFalse hnext =>
            obtain rfl := Option.some.inj hstep
            refine h.walks hpc (h.guards.goes hpc rfl) (fun _ _ hnil => hnext ?_) nofun
            obtain ⟨xs, hholds, hstack⟩ := h.holds
            obtain ⟨node', hnode', hlinked⟩ := hholds.linked
            obtain rfl := Option.some.inj (hnode.symm.trans hnode')
            rw [List.map_eq_nil_iff.mp (hstack.trans hnil)] at hlinked
            exact hlinked
    | semaphore =>
        dsimp only at hstep
        split at hstep
        case isTrue =>
            obtain rfl := Option.some.inj hstep
            exact h.walks hpc (h.guards.goes hpc rfl) nofun fun _ => rfl
        case isFalse =>
            obtain rfl := Option.some.inj hstep
            exact h.walks hpc (h.guards.goes hpc rfl) nofun fun _ => rfl
  case semWait =>
    obtain ⟨hvalue, rfl⟩ := hstep
    exact h.walks hpc (h.guards.goes hpc rfl) (fun hk _ => h.ready hk t (by rw [hpc]; rfl)) fun _ => by
      dsimp only [Pc.taken, Pc.posted]
      omega
  case pop =>
    obtain ⟨⟨memory, data⟩, hpop, hstep⟩ := Option.bind_eq_some_iff.mp hstep
    obtain rfl := Option.some.inj hstep
    exact h.pop hpc hpop

omit [DecidableEq ι] in
theorem inv_start (hstart : Start v s) : Inv k v s := by
  obtain ⟨pc, head, data, hpc, rfl⟩ := hstart
  have hzero : ∀ weight : Pc → Nat, weight .lock = 0 → weight .lockFirst = 0 → tally weight pc = 0 := by
    intro weight hlock hfirst
    refine tally_zero fun t => ?_
    rcases hpc t with ht | ht
    · rw [ht, hlock]
    · rw [ht, hfirst]
  refine ⟨.free fun t => ?_,
    ⟨[], ⟨⟨⟨data, none⟩, by simp, rfl⟩, List.nodup_singleton head, fun p => ?_⟩, rfl⟩,
    .refl _, fun _ t ht => ?_, fun _ => ?_⟩
  · dsimp only
    rcases hpc t with ht | ht <;> rw [ht] <;> rfl
  · by_cases hp : p = head
    · subst hp
      simp
    · simp [hp]
  · dsimp only at ht
    rcases hpc t with hfirst | hfirst <;> rw [hfirst] at ht <;> cases ht
  · rw [hzero _ rfl rfl, hzero _ rfl rfl]
    rfl

theorem inv_reachable {ok : State ι → ι × Option Nat → Prop} (h : (program ι k v).Reachable ok s) : Inv k v s :=
  System.invariant (fun _ h => inv_start h) (fun _ _ _ h _ hstep => h.step hstep) h

/-- **The list is safe** in both programs, for any threads, in any order of their steps, and whenever `malloc` fails:

    * a consumer that pops gets the number that was pushed last and is not popped, and `NULL` is dereferenced if and
      only if there is none: never in `ex2_1.c`;
    * each number that was pushed is popped once or left;
    * the nodes that are allocated are the dummy, and one for each number that is left. -/
theorem list_is_safe (h : (program ι k v).Reachable System.Any s) :
    (∀ t, s.pc t = .pop →
      (popFront s.memory s.head).map Prod.snd = s.stack.head? ∧ (k = .list → s.stack ≠ [])) ∧
    (s.popped.map Prod.snd ++ s.stack).Perm s.pushed ∧
    ∃ xs, Holds s.memory s.head xs ∧ xs.map Prod.snd = s.stack := by
  have hinv := inv_reachable h
  refine ⟨fun t hpc => ⟨?_, fun hk => hinv.ready hk t (by rw [hpc]; rfl)⟩, hinv.elements, hinv.holds⟩
  have hfront := hinv.popFront
  cases hstack : s.stack with
  | nil =>
      rw [hstack] at hfront
      rw [show popFront s.memory s.head = none from hfront]
      rfl
  | cons data stack =>
      rw [hstack] at hfront
      obtain ⟨memory, -, hpop, -, -⟩ := hfront
      rw [hpop]
      rfl

/-- The consumer 1 waits for the list, and pops the number 2 that the producer 2 pushed last. -/
theorem list_sample : ∃ s : State (Fin 3), s.stack = [2, 1] ∧ s.pc 1 = .pop ∧
    (popFront s.memory s.head).map Prod.snd = some 2 := by
  obtain ⟨s, hreachable, hstate⟩ := System.exists_reachable (Start 0) (step .list) System.Any
    ⟨fun t => if t = 1 then .lockFirst else .lock, 0, 0, fun t => by by_cases ht : t = 1 <;> simp [ht], rfl⟩
    ([(1, none), (1, none), (1, none), (1, none), (1, none)] ++ [(0, none), (0, some 5), (0, none), (0, none)] ++
      [(2, none), (2, some 7), (2, none), (2, none)] ++ [(1, none), (1, none)])
    (fun s => decide (s.stack = [2, 1] ∧ s.pc (1 : Fin 3) = .pop)) (by decide)
  obtain ⟨hstack, hpc⟩ := of_decide_eq_true hstate
  have hpop := ((list_is_safe hreachable).1 1 hpc).1
  rw [hstack] at hpop
  exact ⟨s, hstack, hpc, hpop⟩

/-! ## The semaphore of `ex2_2.c` -/

/-- `malloc` does not fail. -/
def Allocates (_ : State ι) (a : ι × Option Nat) : Prop := a.2.isSome = true

omit [Fintype ι] in
theorem step_failures {p : Nat} (hstep : step k s (t, some p) = some s') : s'.failures = s.failures := by
  cases hpc : s.pc t <;>
    simp only [LockedList.step, hpc, Option.ite_none_right_eq_some, Option.some.injEq, reduceCtorEq] at hstep
  case semPost | increment | unlock | unlockLoop | unlockLast =>
    subst hstep
    rfl
  case lockFirst | lockLoop | semWait =>
    obtain ⟨-, rfl⟩ := hstep
    rfl
  case lock =>
    obtain ⟨-, hstep⟩ := hstep
    cases k <;> obtain rfl := Option.some.inj hstep <;> rfl
  case push =>
    obtain ⟨-, hstep⟩ := hstep
    obtain ⟨memory, -, hstep⟩ := Option.bind_eq_some_iff.mp hstep
    obtain rfl := Option.some.inj hstep
    rfl
  case test =>
    cases k with
    | list =>
        obtain ⟨node, -, hstep⟩ := Option.bind_eq_some_iff.mp hstep
        split at hstep <;> obtain rfl := Option.some.inj hstep <;> rfl
    | semaphore =>
        dsimp only at hstep
        split at hstep <;> obtain rfl := Option.some.inj hstep <;> rfl
  case pop =>
    obtain ⟨⟨memory, data⟩, -, hstep⟩ := Option.bind_eq_some_iff.mp hstep
    obtain rfl := Option.some.inj hstep
    rfl

omit [Fintype ι] in
theorem no_failures (h : (program ι k v).Reachable Allocates s) : s.failures = 0 := by
  induction h with
  | init hstart =>
      obtain ⟨pc, head, data, -, rfl⟩ := hstart
      rfl
  | @step s s' a _ hok hstep ih =>
      obtain ⟨t, malloc⟩ := a
      obtain ⟨p, rfl⟩ := Option.isSome_iff_exists.mp hok
      rw [step_failures hstep, ih]

omit [Fintype ι] in
/-- A consumer that runs alone takes a permit that no producer posted. -/
theorem pops_null (hv : v ≠ 0) (t : ι) : ∃ s : State ι, (program ι .semaphore v).Reachable Allocates s ∧
    s.pc t = .pop ∧ popFront s.memory s.head = none := by
  let s₀ : State ι :=
    ⟨Function.update (fun _ => none) 0 (some ⟨0, none⟩), 0, v, 1, none, fun _ => .lockFirst, [], [], [], 0⟩
  let s₁ := { s₀ with mutex := some t }.goto t .unlockLoop
  let s₂ := { s₁ with mutex := none }.goto t .lockLoop
  let s₃ := { s₂ with mutex := some t }.goto t .test
  let s₄ := s₃.goto t .semWait
  let s₅ := { s₄ with value := v - 1 }.goto t .pop
  have h₀ : (program ι .semaphore v).Reachable Allocates s₀ :=
    .init ⟨fun _ => .lockFirst, 0, 0, fun _ => .inr rfl, rfl⟩
  have h₁ : (program ι .semaphore v).Reachable Allocates s₁ := h₀.step (a := (t, some 0)) rfl rfl
  have h₂ : (program ι .semaphore v).Reachable Allocates s₂ :=
    h₁.step (a := (t, some 0)) rfl (by simp [program, System.ofThreads, step, s₁, s₂, State.goto])
  have h₃ : (program ι .semaphore v).Reachable Allocates s₃ :=
    h₂.step (a := (t, some 0)) rfl (by simp [program, System.ofThreads, step, s₂, s₃, State.goto])
  have h₄ : (program ι .semaphore v).Reachable Allocates s₄ :=
    h₃.step (a := (t, some 0)) rfl (by
      simp [program, System.ofThreads, step, s₀, s₁, s₂, s₃, s₄, State.goto, hv])
  have h₅ : (program ι .semaphore v).Reachable Allocates s₅ :=
    h₄.step (a := (t, some 0)) rfl (by
      simp [program, System.ofThreads, step, s₀, s₁, s₂, s₃, s₄, s₅, State.goto, Nat.pos_of_ne_zero hv])
  refine ⟨s₅, h₅, Function.update_self .., ?_⟩
  simp [popFront, s₀, s₁, s₂, s₃, s₄, s₅, State.goto]

/-- **When a consumer of `ex2_2.c` dereferences `NULL`**, although `malloc` does not fail: some run comes to it if and
    only if the semaphore does not start at 0. -/
theorem pops_null_iff [Nonempty ι] :
    (∃ s t, (program ι .semaphore v).Reachable Allocates s ∧ s.pc t = .pop ∧ popFront s.memory s.head = none) ↔
      v ≠ 0 := by
  constructor
  · rintro ⟨s, t, h, hpc, hpop⟩ rfl
    have hinv := inv_reachable h
    have hfront := hinv.popFront
    cases hstack : s.stack with
    | nil =>
        -- the permit that it took was posted for an element
        have hpermits := hinv.permits rfl
        rw [(hinv.popping hpc).1, (hinv.popping hpc).2, no_failures h, hstack, List.length_nil] at hpermits
        omega
    | cons data stack =>
        rw [hstack] at hfront
        obtain ⟨memory, -, hpop', -, -⟩ := hfront
        exact nomatch hpop.symm.trans hpop'
  · intro hv
    obtain ⟨t⟩ := ‹Nonempty ι›
    obtain ⟨s, h, hpc, hpop⟩ := pops_null hv t
    exact ⟨s, t, h, hpc, hpop⟩

/-- With the value of `main`. -/
theorem pops_null_sample : ∃ s t, (program (Fin 1) .semaphore 1).Reachable Allocates s ∧ s.pc t = .pop ∧
    popFront s.memory s.head = none := pops_null_iff.mpr (by decide)

end Workbench.Producers.LockedList
