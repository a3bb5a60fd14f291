import Mathlib.Logic.Function.Basic
import Workbench.Lib.Owned
import Workbench.Lib.RingBuffer
import Workbench.Lib.System

/-!
# `Queue.Mpmc` — `MPMCQueue`, any number of producers and consumers

Every cell has a sequence number. A position is a ticket: the thread that moves `enqueue_pos` or `dequeue_pos` past it
has it. The threads take steps in any order; a step is one atomic operation or one access to the data of a cell.
Positions do not wrap around.

## Contents
* `Pc` — where a thread is in `enqueue` or `dequeue`;
* `State`, `Step` — the queue with the history of its tickets, and the steps of the threads;
* `Phase`, `Inv` — what becomes of a ticket, and the invariant.
-/

namespace Workbench.Mpmc

variable {ι T : Type}

/-- Where a thread is. -/
inductive Pc (T : Type)
  | idle
  /-- `enqueue_pos` is loaded next. -/
  | enqueue (item : T)
  /-- The sequence number of the cell is loaded next. -/
  | enqueueAt (item : T) (pos : Nat)
  /-- The difference was 0: the compare-exchange is next. -/
  | enqueueClaim (item : T) (pos : Nat)
  /-- The ticket is claimed: the data is written next. -/
  | enqueueWrite (item : T) (pos : Nat)
  /-- The data is written: the sequence number is stored next. -/
  | enqueuePublish (item : T) (pos : Nat)
  /-- `dequeue_pos` is loaded next. -/
  | dequeue
  | dequeueAt (pos : Nat)
  | dequeueClaim (pos : Nat)
  /-- The ticket is claimed: the data is read next. -/
  | dequeueRead (pos : Nat)
  /-- The data is read: the sequence number is stored next. -/
  | dequeueRelease (pos : Nat) (item : T)

structure State (ι T : Type) where
  sequence : Nat → Nat
  data : Nat → T
  enqueuePos : Nat
  dequeuePos : Nat
  pc : ι → Pc T
  /-- The items of the calls of `enqueue` that claimed a ticket, by ticket. -/
  claimed : List T
  /-- The tickets of the calls of `enqueue` that returned true. -/
  succeeded : List Nat
  /-- The tickets and the results of the calls of `dequeue` that returned true. -/
  returned : List (Nat × T)

section

variable [DecidableEq ι]

/-- The thread `i` goes on. -/
def State.goto (s : State ι T) (i : ι) (p : Pc T) : State ι T := { s with pc := Function.update s.pc i p }

/-- The steps of the thread `i`, for `C` cells. A compare-exchange may fail without a reason. -/
inductive Step (C : Nat) : State ι T → ι → State ι T → Prop
  | callEnqueue {s : State ι T} {i : ι} (item : T) : s.pc i = .idle → Step C s i (s.goto i (.enqueue item))
  | callDequeue {s : State ι T} {i : ι} : s.pc i = .idle → Step C s i (s.goto i .dequeue)
  | enqueueLoad {s : State ι T} {i : ι} {item : T} : s.pc i = .enqueue item →
      Step C s i (s.goto i (.enqueueAt item s.enqueuePos))
  | enqueueEmpty {s : State ι T} {i : ι} {item : T} {pos : Nat} : s.pc i = .enqueueAt item pos →
      (s.sequence (pos % C) : Int) - pos = 0 → Step C s i (s.goto i (.enqueueClaim item pos))
  | enqueueFull {s : State ι T} {i : ι} {item : T} {pos : Nat} : s.pc i = .enqueueAt item pos →
      (s.sequence (pos % C) : Int) - pos < 0 → Step C s i (s.goto i .idle)
  | enqueueBeaten {s : State ι T} {i : ι} {item : T} {pos : Nat} : s.pc i = .enqueueAt item pos →
      0 < (s.sequence (pos % C) : Int) - pos → Step C s i (s.goto i (.enqueue item))
  | enqueueExchange {s : State ι T} {i : ι} {item : T} {pos : Nat} : s.pc i = .enqueueClaim item pos →
      s.enqueuePos = pos →
      Step C s i ({ s with enqueuePos := pos + 1, claimed := s.claimed ++ [item] }.goto i (.enqueueWrite item pos))
  | enqueueExchangeFails {s : State ι T} {i : ι} {item : T} {pos : Nat} : s.pc i = .enqueueClaim item pos →
      Step C s i (s.goto i (.enqueueAt item s.enqueuePos))
  | write {s : State ι T} {i : ι} {item : T} {pos : Nat} : s.pc i = .enqueueWrite item pos →
      Step C s i ({ s with data := Function.update s.data (pos % C) item }.goto i (.enqueuePublish item pos))
  | publish {s : State ι T} {i : ι} {item : T} {pos : Nat} : s.pc i = .enqueuePublish item pos →
      Step C s i ({ s with
        sequence := Function.update s.sequence (pos % C) (pos + 1)
        succeeded := pos :: s.succeeded }.goto i .idle)
  | dequeueLoad {s : State ι T} {i : ι} : s.pc i = .dequeue → Step C s i (s.goto i (.dequeueAt s.dequeuePos))
  | dequeueReady {s : State ι T} {i : ι} {pos : Nat} : s.pc i = .dequeueAt pos →
      (s.sequence (pos % C) : Int) - (pos + 1 : Nat) = 0 → Step C s i (s.goto i (.dequeueClaim pos))
  | dequeueEmpty {s : State ι T} {i : ι} {pos : Nat} : s.pc i = .dequeueAt pos →
      (s.sequence (pos % C) : Int) - (pos + 1 : Nat) < 0 → Step C s i (s.goto i .idle)
  | dequeueBeaten {s : State ι T} {i : ι} {pos : Nat} : s.pc i = .dequeueAt pos →
      0 < (s.sequence (pos % C) : Int) - (pos + 1 : Nat) → Step C s i (s.goto i .dequeue)
  | dequeueExchange {s : State ι T} {i : ι} {pos : Nat} : s.pc i = .dequeueClaim pos → s.dequeuePos = pos →
      Step C s i ({ s with dequeuePos := pos + 1 }.goto i (.dequeueRead pos))
  | dequeueExchangeFails {s : State ι T} {i : ι} {pos : Nat} : s.pc i = .dequeueClaim pos →
      Step C s i (s.goto i (.dequeueAt s.dequeuePos))
  | read {s : State ι T} {i : ι} {pos : Nat} : s.pc i = .dequeueRead pos →
      Step C s i (s.goto i (.dequeueRelease pos (s.data (pos % C))))
  | release {s : State ι T} {i : ι} {item : T} {pos : Nat} : s.pc i = .dequeueRelease pos item →
      Step C s i ({ s with
        sequence := Function.update s.sequence (pos % C) (pos + C)
        returned := (pos, item) :: s.returned }.goto i .idle)

/-- The runs of a queue of `C` cells with the threads `ι`, whatever the cells hold at first. -/
def system (ι T : Type) [DecidableEq ι] (C : Nat) : System (State ι T) ι where
  init := fun s => ∃ data, s = ⟨fun c => c, data, 0, 0, fun _ => .idle, [], [], []⟩
  step := Step C

end

/-! ## Tickets -/

/-- What has become of a ticket. -/
inductive Phase
  | free
  | claimed
  | published
  | taken
  | released
  deriving DecidableEq

/-- The ticket of the thread that is between claiming and publishing. -/
def Pc.producing : Pc T → Option Nat
  | .enqueueWrite _ pos => some pos
  | .enqueuePublish _ pos => some pos
  | _ => none

/-- The ticket of the thread that is between taking and releasing. -/
def Pc.consuming : Pc T → Option Nat
  | .dequeueRead pos => some pos
  | .dequeueRelease pos _ => some pos
  | _ => none

/-- The ticket before in the same cell is released. -/
def Ready (C : Nat) (phase : Nat → Phase) (k : Nat) : Prop := k < C ∨ phase (k - C) = .released

/-- The ticket is the one that its cell is at. -/
def Current (C : Nat) (phase : Nat → Phase) (k : Nat) : Prop := Ready C phase k ∧ phase k ≠ .released

/-- The ticket has an item in its cell. -/
def Full (phase : Nat → Phase) (k : Nat) : Prop := phase k = .published ∨ phase k = .taken

/-- What a thread knows, where it is. -/
def PcOk (C : Nat) (phase : Nat → Phase) (s : State ι T) : Pc T → Prop
  | .enqueueClaim _ pos => Ready C phase pos
  | .enqueueWrite item pos => phase pos = .claimed ∧ s.claimed[pos]? = some item
  | .enqueuePublish item pos => phase pos = .claimed ∧ s.claimed[pos]? = some item ∧ s.data (pos % C) = item
  | .dequeueClaim pos => Full phase pos ∨ phase pos = .released
  | .dequeueRead pos => phase pos = .taken
  | .dequeueRelease pos item => phase pos = .taken ∧ s.claimed[pos]? = some item
  | _ => True

/-- How the phases of the tickets fit together. -/
structure Phases (C : Nat) (phase : Nat → Phase) (enqueuePos dequeuePos : Nat) : Prop where
  free : ∀ k, phase k = .free ↔ enqueuePos ≤ k
  taken : ∀ k, phase k = .taken ∨ phase k = .released ↔ k < dequeuePos
  order : ∀ k, phase k ≠ .free → Ready C phase k
  current : ∀ c < C, ∃ k, k % C = c ∧ Current C phase k

/-- The invariant, with the phases of the tickets. -/
structure Inv (C : Nat) (phase : Nat → Phase) (s : State ι T) : Prop where
  phases : Phases C phase s.enqueuePos s.dequeuePos
  length : s.claimed.length = s.enqueuePos
  /-- The sequence number of a cell is the current ticket, or the next number if the ticket has an item there. -/
  empty : ∀ k, Ready C phase k → phase k = .free ∨ phase k = .claimed → s.sequence (k % C) = k
  full : ∀ k, Full phase k → s.sequence (k % C) = k + 1
  items : ∀ k, Full phase k → s.claimed[k]? = some (s.data (k % C))
  pcs : ∀ i, PcOk C phase s (s.pc i)
  /-- A claimed ticket has one thread that writes, a taken one has one thread that reads. -/
  producing : Owned (fun i => (s.pc i).producing) (fun k => phase k = .claimed)
  consuming : Owned (fun i => (s.pc i).consuming) (fun k => phase k = .taken)
  succeeded : ∀ k, k ∈ s.succeeded ↔ Full phase k ∨ phase k = .released
  returned : ∀ k, k ∈ s.returned.map Prod.fst ↔ phase k = .released
  results : ∀ r ∈ s.returned, s.claimed[r.1]? = some r.2
  succeeded_once : s.succeeded.Nodup
  returned_once : (s.returned.map Prod.fst).Nodup

end Workbench.Mpmc
