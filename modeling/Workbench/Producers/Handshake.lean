import Mathlib.Data.List.GetD
import Mathlib.Data.List.Induction
import Workbench.Lib.Fair

/-!
# `Producers.Handshake` — `ex1.c`, a producer and a consumer with a flag

The producer fills the array while the flag is 0, and the consumer adds it up while the flag is 1. Each access to a cell
or to the flag is a step. Both wait in a loop that reads the flag.

## Contents
* `producerStep`, `consumerStep` — the two threads;
* `Inv` — the invariant: who may access the array, and what it has;
* `sums_are_whole` — each sum that is printed is of one filling of the array, in order;
* `sums_come` — all of them are printed, when both threads have turns again and again.
-/

namespace Workbench.Producers.Handshake

/-- What the producer does next: `write` has the index of the cell. -/
inductive ProducerPc
  | loop
  | spin
  | write (j : Nat)
  | increment
  | next
  | raise
  | finished
  deriving DecidableEq

/-- What the consumer does next: `read` has the index of the cell and the sum. -/
inductive ConsumerPc
  | loop
  | spin
  | read (j sum : Nat)
  | print (sum : Nat)
  | next
  | clear
  | finished
  deriving DecidableEq

structure State where
  arr : List Nat
  flag : Nat
  /-- The static variable of `UpdateArr`. -/
  num : Nat
  producer : ProducerPc
  producerI : Nat
  consumer : ConsumerPc
  consumerI : Nat
  printed : List Nat
  deriving DecidableEq

/-- `ARR_SIZE` and `MAX_IDX`. -/
structure Sizes where
  arrSize : Nat
  maxIdx : Nat

/-- The sizes of the program. -/
def sizes : Sizes := ⟨100, 15⟩

def producerStep (k : Sizes) (s : State) : State :=
  match s.producer with
  | .loop => if s.producerI < k.maxIdx then { s with producer := .spin } else { s with producer := .finished }
  | .spin => if s.flag = 1 then s else { s with producer := .write 0 }
  | .write j =>
      if j < k.arrSize then { s with arr := s.arr.set j s.num, producer := .write (j + 1) }
      else { s with producer := .increment }
  | .increment => { s with num := s.num + 1, producer := .next }
  | .next => { s with producerI := s.producerI + 1, producer := .raise }
  | .raise => { s with flag := 1, producer := .loop }
  | .finished => s

def consumerStep (k : Sizes) (s : State) : State :=
  match s.consumer with
  | .loop => if s.consumerI < k.maxIdx then { s with consumer := .spin } else { s with consumer := .finished }
  | .spin => if s.flag = 0 then s else { s with consumer := .read 0 0 }
  | .read j sum =>
      if j < k.arrSize then { s with consumer := .read (j + 1) (sum + s.arr.getD j 0) }
      else { s with consumer := .print sum }
  | .print sum => { s with printed := s.printed ++ [sum], consumer := .next }
  | .next => { s with consumerI := s.consumerI + 1, consumer := .clear }
  | .clear => { s with flag := 0, consumer := .loop }
  | .finished => s

/-- The threads. -/
inductive Thread
  | producer
  | consumer
  deriving DecidableEq

def step (k : Sizes) (s : State) : Thread → State
  | .producer => producerStep k s
  | .consumer => consumerStep k s

def start (k : Sizes) : State := ⟨List.replicate k.arrSize 0, 0, 0, .loop, 0, .loop, 0, []⟩

/-- The state after some turns. -/
def after (k : Sizes) (turns : List Thread) : State := turns.foldl (step k) (start k)

/-! ## The invariant -/

namespace ProducerPc

/-- The producer accesses the array, or is about to raise the flag. -/
def writing : ProducerPc → Bool
  | write _ | increment | next | raise => true
  | _ => false

/-- The array is filled, and the flag is not raised. -/
def filled : ProducerPc → Nat
  | next | raise => 1
  | _ => 0

/-- The index is moved, and the flag is not raised. -/
def moved : ProducerPc → Nat
  | raise => 1
  | _ => 0

/-- The turn is begun, and the index is not moved. -/
def begun : ProducerPc → Nat
  | spin | write _ | increment | next => 1
  | _ => 0

/-- How many cells are written in this turn. -/
def written (k : Sizes) : ProducerPc → Nat
  | write j => j
  | increment | next | raise => k.arrSize
  | _ => 0

end ProducerPc

namespace ConsumerPc

def reading : ConsumerPc → Bool
  | read _ _ | print _ | next | clear => true
  | _ => false

def printed : ConsumerPc → Nat
  | next | clear => 1
  | _ => 0

def moved : ConsumerPc → Nat
  | clear => 1
  | _ => 0

def begun : ConsumerPc → Nat
  | spin | read _ _ | print _ | next => 1
  | _ => 0

/-- What the consumer has added up is what `n` in each cell gives. -/
def Adds (k : Sizes) (n : Nat) : ConsumerPc → Prop
  | read j sum => j ≤ k.arrSize ∧ sum = j * n
  | print sum => sum = k.arrSize * n
  | _ => True

end ConsumerPc

/-- The invariant, when the flag was cleared `n` times, and raised `n + s.flag` times. -/
structure Inv (k : Sizes) (n : Nat) (s : State) : Prop where
  flag : s.flag ≤ 1
  length : s.arr.length = k.arrSize
  num : s.num = n + s.flag + s.producer.filled
  producerI : s.producerI = n + s.flag + s.producer.moved
  consumerI : s.consumerI = n + s.consumer.moved
  producerBound : s.producerI + s.producer.begun ≤ k.maxIdx
  consumerBound : s.consumerI + s.consumer.begun ≤ k.maxIdx
  writing : s.producer.writing = true → s.flag = 0
  reading : s.consumer.reading = true → s.flag = 1
  cells : ∀ j, (s.flag = 1 ∨ j < s.producer.written k) → j < k.arrSize → s.arr.getD j 0 = n
  adds : s.consumer.Adds k n
  printed : s.printed = (List.range (n + s.consumer.printed)).map (k.arrSize * ·)
  producerDone : s.producer = .finished → s.producerI = k.maxIdx
  consumerDone : s.consumer = .finished → s.consumerI = k.maxIdx

variable {k : Sizes} {n : Nat} {s : State}

theorem Inv.producer (h : Inv k n s) : Inv k n (producerStep k s) := by
  have hflag := h.flag
  have hnum := h.num
  have hproducerI := h.producerI
  have hbound := h.producerBound
  have hwriting := h.writing
  have hcells := h.cells
  cases hpc : s.producer <;> simp only [producerStep, hpc] <;> rw [hpc] at hnum hproducerI hbound hwriting hcells
  case finished => exact h
  case loop =>
    split
    case isTrue hlt =>
        exact { h with
          num := hnum
          producerI := hproducerI
          producerBound := hlt
          writing := nofun
          cells := hcells
          producerDone := nofun }
    case isFalse hge =>
        exact { h with
          num := hnum
          producerI := hproducerI
          producerBound := hbound
          writing := nofun
          cells := hcells
          producerDone := fun _ => Nat.le_antisymm hbound (Nat.le_of_not_lt hge) }
  case spin =>
    split
    case isTrue => exact h
    case isFalse hfree =>
        have hzero : s.flag = 0 := by omega
        exact { h with
          num := hnum
          producerI := hproducerI
          producerBound := hbound
          writing := fun _ => hzero
          cells := fun j hj => hj.elim (fun h => absurd h hfree) fun h => absurd h (Nat.not_lt_zero j)
          producerDone := nofun }
  case write j =>
    have hzero := hwriting rfl
    split
    case isTrue hj =>
        refine { h with
          length := by rw [List.length_set]; exact h.length
          num := hnum
          producerI := hproducerI
          producerBound := hbound
          writing := hwriting
          cells := fun j' hj' hlt => ?_
          producerDone := nofun }
        dsimp only [ProducerPc.written] at hj' hcells ⊢
        rw [hzero] at hj' hcells
        by_cases hsame : j' = j
        · subst hsame
          rw [List.getD_eq_getElem?_getD, List.getElem?_set_self (by rw [h.length]; exact hj), Option.getD_some, hnum,
            hzero]
          rfl
        · rw [List.getD_eq_getElem?_getD, List.getElem?_set_ne (Ne.symm hsame), ← List.getD_eq_getElem?_getD]
          exact hcells j' (.inr (by omega)) hlt
    case isFalse hj =>
        exact { h with
          num := hnum
          producerI := hproducerI
          producerBound := hbound
          writing := hwriting
          cells := fun j' _ hlt => hcells j' (.inr (by dsimp only [ProducerPc.written]; omega)) hlt
          producerDone := nofun }
  case increment =>
    exact { h with
      num := congrArg Nat.succ hnum
      producerI := hproducerI
      producerBound := hbound
      writing := hwriting
      cells := hcells
      producerDone := nofun }
  case next =>
    exact { h with
      num := hnum
      producerI := congrArg Nat.succ hproducerI
      producerBound := hbound
      writing := hwriting
      cells := hcells
      producerDone := nofun }
  case raise =>
    have hzero := hwriting rfl
    rw [hzero] at hnum hproducerI
    exact { h with
      flag := Nat.le_refl 1
      num := hnum
      producerI := hproducerI
      producerBound := hbound
      writing := nofun
      reading := fun _ => rfl
      cells := fun j' _ hlt => hcells j' (.inr hlt) hlt
      producerDone := nofun }

theorem Inv.consumer (h : Inv k n s) :
    Inv k n (consumerStep k s) ∨ s.consumer = .clear ∧ Inv k (n + 1) (consumerStep k s) := by
  have hflag := h.flag
  have hconsumerI := h.consumerI
  have hbound := h.consumerBound
  have hreading := h.reading
  have hadds := h.adds
  have hprinted := h.printed
  cases hpc : s.consumer <;> simp only [consumerStep, hpc, reduceCtorEq, false_and, or_false, true_and] <;>
    rw [hpc] at hconsumerI hbound hreading hadds hprinted
  case finished => exact h
  case loop =>
    split
    case isTrue hlt =>
        exact { h with
          consumerI := hconsumerI
          consumerBound := hlt
          reading := nofun
          adds := trivial
          printed := hprinted
          consumerDone := nofun }
    case isFalse hge =>
        exact { h with
          consumerI := hconsumerI
          consumerBound := hbound
          reading := nofun
          adds := trivial
          printed := hprinted
          consumerDone := fun _ => Nat.le_antisymm hbound (Nat.le_of_not_lt hge) }
  case spin =>
    split
    case isTrue => exact h
    case isFalse hraised =>
        exact { h with
          consumerI := hconsumerI
          consumerBound := hbound
          reading := fun _ => by dsimp only; omega
          adds := ⟨Nat.zero_le _, (Nat.zero_mul n).symm⟩
          printed := hprinted
          consumerDone := nofun }
  case read j sum =>
    obtain ⟨hj, hsum⟩ := hadds
    split
    case isTrue hlt =>
        exact { h with
          consumerI := hconsumerI
          consumerBound := hbound
          reading := hreading
          adds := ⟨hlt, by rw [hsum, h.cells j (.inl (hreading rfl)) hlt, Nat.succ_mul]⟩
          printed := hprinted
          consumerDone := nofun }
    case isFalse hge =>
        obtain rfl : j = k.arrSize := by omega
        exact { h with
          consumerI := hconsumerI
          consumerBound := hbound
          reading := hreading
          adds := hsum
          printed := hprinted
          consumerDone := nofun }
  case print sum =>
    obtain rfl : sum = k.arrSize * n := hadds
    refine { h with
      consumerI := hconsumerI
      consumerBound := hbound
      reading := hreading
      adds := trivial
      printed := ?_
      consumerDone := nofun }
    dsimp only [ConsumerPc.printed] at hprinted ⊢
    rw [hprinted, List.range_succ, List.map_append]
    rfl
  case next =>
    exact { h with
      consumerI := congrArg Nat.succ hconsumerI
      consumerBound := hbound
      reading := hreading
      adds := trivial
      printed := hprinted
      consumerDone := nofun }
  case clear =>
    have hone := hreading rfl
    -- the producer waits, as the flag is raised
    have hwait : s.producer.writing = false := Bool.eq_false_iff.mpr fun hwriting => by
      rw [h.writing hwriting] at hone
      cases hone
    have hidle : s.producer.filled = 0 ∧ s.producer.moved = 0 ∧ s.producer.written k = 0 := by
      cases hp : s.producer <;> rw [hp] at hwait <;> first | exact ⟨rfl, rfl, rfl⟩ | cases hwait
    have hnum := h.num
    have hproducerI := h.producerI
    rw [hone] at hnum hproducerI
    refine .inr { h with
      flag := Nat.zero_le 1
      num := hnum
      producerI := hproducerI
      consumerI := hconsumerI
      consumerBound := hbound
      writing := fun _ => rfl
      reading := nofun
      cells := fun j hj => ?_
      adds := trivial
      printed := hprinted
      consumerDone := nofun }
    rcases hj with hj | hj
    · cases hj
    · rw [hidle.2.2] at hj
      exact absurd hj (Nat.not_lt_zero j)

theorem inv_after (k : Sizes) (turns : List Thread) : ∃ n, Inv k n (after k turns) := by
  induction turns using List.reverseRecOn with
  | nil =>
      exact ⟨0, {
        flag := Nat.zero_le 1
        length := List.length_replicate
        num := rfl
        producerI := rfl
        consumerI := rfl
        producerBound := Nat.zero_le _
        consumerBound := Nat.zero_le _
        writing := nofun
        reading := nofun
        cells := fun j hj => hj.elim nofun fun h => absurd h (Nat.not_lt_zero j)
        adds := trivial
        printed := rfl
        producerDone := nofun
        consumerDone := nofun }⟩
  | append_singleton turns thread ih =>
      obtain ⟨n, h⟩ := ih
      rw [after, List.foldl_append]
      cases thread with
      | producer => exact ⟨n, h.producer⟩
      | consumer =>
          rcases h.consumer with h | ⟨-, h⟩
          · exact ⟨n, h⟩
          · exact ⟨n + 1, h⟩

/-- **Each sum is of one filling of the array**, in any order of the steps: the sums that are printed are those of the
    fillings with 0, 1, and so on, and none is missed or printed twice. -/
theorem sums_are_whole (k : Sizes) (turns : List Thread) :
    (after k turns).printed = (List.range (after k turns).printed.length).map (k.arrSize * ·) ∧
      (after k turns).printed.length ≤ k.maxIdx := by
  obtain ⟨n, h⟩ := inv_after k turns
  have hlength : (after k turns).printed.length = n + (after k turns).consumer.printed := by
    rw [h.printed, List.length_map, List.length_range]
  refine ⟨by rw [hlength]; exact h.printed, ?_⟩
  have hbound := h.consumerBound
  have hconsumerI := h.consumerI
  rw [hlength]
  cases hpc : (after k turns).consumer <;> rw [hpc] at hbound hconsumerI <;>
    dsimp only [ConsumerPc.printed, ConsumerPc.begun, ConsumerPc.moved] at hbound hconsumerI ⊢ <;> omega

/-! ## That the sums are printed -/

/-- How far the producer is in its turn. -/
def ProducerPc.rank (k : Sizes) : ProducerPc → Nat
  | loop => 0
  | spin | finished => 1
  | write j => 2 + min j k.arrSize
  | increment => k.arrSize + 3
  | next => k.arrSize + 4
  | raise => k.arrSize + 5

def ConsumerPc.rank (k : Sizes) : ConsumerPc → Nat
  | loop => 0
  | spin | finished => 1
  | read j _ => 2 + min j k.arrSize
  | print _ => k.arrSize + 3
  | next => k.arrSize + 4
  | clear => k.arrSize + 5

/-- How far both threads are. -/
def State.rank (k : Sizes) (s : State) : Nat :=
  (k.arrSize + 6) * (s.producerI - s.producer.moved) + s.producer.rank k +
    ((k.arrSize + 6) * (s.consumerI - s.consumer.moved) + s.consumer.rank k)

/-- A step of the producer: it waits, or it gets on. -/
theorem Inv.producer_rank (h : Inv k n s) : producerStep k s = s ∨ s.rank k < (producerStep k s).rank k := by
  have hproducerI := h.producerI
  cases hpc : s.producer <;> simp only [producerStep, hpc, State.rank] <;> rw [hpc] at hproducerI
  case finished => exact .inl trivial
  case loop =>
    right
    split <;> dsimp only [ProducerPc.moved, ProducerPc.rank] <;> omega
  case spin =>
    split
    case isTrue => exact .inl rfl
    case isFalse =>
        right
        dsimp only [ProducerPc.moved, ProducerPc.rank]
        omega
  case write j =>
    right
    split <;> dsimp only [ProducerPc.moved, ProducerPc.rank] <;> omega
  case increment =>
    right
    dsimp only [ProducerPc.moved, ProducerPc.rank]
    omega
  case next =>
    right
    dsimp only [ProducerPc.moved, ProducerPc.rank]
    rw [Nat.add_sub_cancel, Nat.sub_zero]
    omega
  case raise =>
    right
    dsimp only [ProducerPc.moved, ProducerPc.rank] at hproducerI ⊢
    rw [hproducerI, Nat.add_sub_cancel, Nat.sub_zero, Nat.mul_succ]
    omega

theorem Inv.consumer_rank (h : Inv k n s) : consumerStep k s = s ∨ s.rank k < (consumerStep k s).rank k := by
  have hconsumerI := h.consumerI
  cases hpc : s.consumer <;> simp only [consumerStep, hpc, State.rank] <;> rw [hpc] at hconsumerI
  case finished => exact .inl trivial
  case loop =>
    right
    split <;> dsimp only [ConsumerPc.moved, ConsumerPc.rank] <;> omega
  case spin =>
    split
    case isTrue => exact .inl rfl
    case isFalse =>
        right
        dsimp only [ConsumerPc.moved, ConsumerPc.rank]
        omega
  case read j sum =>
    right
    split <;> dsimp only [ConsumerPc.moved, ConsumerPc.rank] <;> omega
  case print =>
    right
    dsimp only [ConsumerPc.moved, ConsumerPc.rank]
    omega
  case next =>
    right
    dsimp only [ConsumerPc.moved, ConsumerPc.rank]
    rw [Nat.add_sub_cancel, Nat.sub_zero]
    omega
  case clear =>
    right
    dsimp only [ConsumerPc.moved, ConsumerPc.rank] at hconsumerI ⊢
    rw [hconsumerI, Nat.add_sub_cancel, Nat.sub_zero, Nat.mul_succ]
    omega

theorem Inv.step_rank (h : Inv k n s) (thread : Thread) :
    step k s thread = s ∨ s.rank k < (step k s thread).rank k := by
  cases thread with
  | producer => exact h.producer_rank
  | consumer => exact h.consumer_rank

theorem Inv.rank_le (h : Inv k n s) : s.rank k ≤ 2 * ((k.arrSize + 6) * (k.maxIdx + 1)) := by
  have hproducer : s.producer.rank k ≤ k.arrSize + 6 := by
    cases s.producer <;> dsimp only [ProducerPc.rank] <;> omega
  have hconsumer : s.consumer.rank k ≤ k.arrSize + 6 := by
    cases s.consumer <;> dsimp only [ConsumerPc.rank] <;> omega
  have hproducerI : (k.arrSize + 6) * (s.producerI - s.producer.moved) ≤ (k.arrSize + 6) * k.maxIdx :=
    Nat.mul_le_mul_left _ (Nat.le_trans (Nat.sub_le _ _) (Nat.le_of_add_right_le h.producerBound))
  have hconsumerI : (k.arrSize + 6) * (s.consumerI - s.consumer.moved) ≤ (k.arrSize + 6) * k.maxIdx :=
    Nat.mul_le_mul_left _ (Nat.le_trans (Nat.sub_le _ _) (Nat.le_of_add_right_le h.consumerBound))
  rw [State.rank, Nat.mul_succ]
  omega

/-- When both threads wait for ever, both are finished. -/
theorem Inv.stuck (h : Inv k n s) (hproducer : producerStep k s = s) (hconsumer : consumerStep k s = s) :
    s.producer = .finished ∧ s.consumer = .finished := by
  have hflag := h.flag
  -- a thread that is not finished and does not spin goes on to another place
  have hp : s.producer = .finished ∨ s.producer = .spin ∧ s.flag = 1 := by
    have hsame := congrArg State.producer hproducer
    cases hpc : s.producer <;> simp only [producerStep, hpc] at hsame
    case finished => exact .inl rfl
    case spin =>
      split at hsame
      case isTrue hone => exact .inr ⟨rfl, hone⟩
      case isFalse => cases hsame
    case loop | write => split at hsame <;> simp at hsame
    all_goals cases hsame
  have hc : s.consumer = .finished ∨ s.consumer = .spin ∧ s.flag = 0 := by
    have hsame := congrArg State.consumer hconsumer
    cases hpc : s.consumer <;> simp only [consumerStep, hpc] at hsame
    case finished => exact .inl rfl
    case spin =>
      split at hsame
      case isTrue hzero => exact .inr ⟨rfl, hzero⟩
      case isFalse => cases hsame
    case loop | read => split at hsame <;> simp at hsame
    all_goals cases hsame
  have hproducerI := h.producerI
  have hconsumerI := h.consumerI
  have hproducerBound := h.producerBound
  have hconsumerBound := h.consumerBound
  rcases hp with hp | ⟨hp, hone⟩ <;> rcases hc with hc | ⟨hc, hzero⟩
  · exact ⟨hp, hc⟩
  · have hdone := h.producerDone hp
    rw [hp] at hproducerI
    rw [hc] at hconsumerI hconsumerBound
    dsimp only [ProducerPc.moved, ConsumerPc.moved, ConsumerPc.begun] at hproducerI hconsumerI hconsumerBound
    omega
  · have hdone := h.consumerDone hc
    rw [hp] at hproducerI hproducerBound
    rw [hc] at hconsumerI
    dsimp only [ProducerPc.moved, ProducerPc.begun, ConsumerPc.moved] at hproducerI hproducerBound hconsumerI
    omega
  · omega

/-- **All sums are printed**, when both threads have turns again and again: both come to their end. -/
theorem sums_come (k : Sizes) {turn : Nat → Thread} (hfair : Fair turn) :
    ∃ t, (after k ((List.range t).map turn)).producer = .finished ∧
      (after k ((List.range t).map turn)).consumer = .finished ∧
      (after k ((List.range t).map turn)).printed = (List.range k.maxIdx).map (k.arrSize * ·) := by
  have hnext : ∀ t, after k ((List.range (t + 1)).map turn) = step k (after k ((List.range t).map turn)) (turn t) := by
    intro t
    rw [List.range_succ, List.map_append, after, List.foldl_append]
    rfl
  have hend : ∃ t, (after k ((List.range t).map turn)).producer = .finished ∧
      (after k ((List.range t).map turn)).consumer = .finished := by
    refine hfair.eventually (fun t => after k ((List.range t).map turn)) (State.rank k)
      (fun s thread => step k s thread ≠ s) (fun s => s.producer = .finished ∧ s.consumer = .finished)
      (fun t => (inv_after k ((List.range t).map turn)).elim fun _ h => h.rank_le) (fun t => ?_) (fun t => ?_)
      (fun t thread hthread => ?_)
    · obtain ⟨n, h⟩ := inv_after k ((List.range t).map turn)
      rw [hnext]
      rcases h.step_rank (turn t) with hsame | hgrows
      · exact Nat.le_of_eq (congrArg (State.rank k) hsame.symm)
      · exact Nat.le_of_lt hgrows
    · obtain ⟨n, h⟩ := inv_after k ((List.range t).map turn)
      by_cases hproducer : step k (after k ((List.range t).map turn)) .producer = after k ((List.range t).map turn)
      · by_cases hconsumer : step k (after k ((List.range t).map turn)) .consumer = after k ((List.range t).map turn)
        · exact .inl (h.stuck hproducer hconsumer)
        · exact .inr ⟨.consumer, hconsumer⟩
      · exact .inr ⟨.producer, hproducer⟩
    · obtain ⟨n, h⟩ := inv_after k ((List.range t).map turn)
      rw [hnext]
      rcases h.step_rank (turn t) with hsame | hgrows
      · rw [hsame]
        exact .inr ⟨fun heq => hthread (heq ▸ hsame), hthread⟩
      · exact .inl hgrows
  obtain ⟨t, hproducer, hconsumer⟩ := hend
  obtain ⟨n, h⟩ := inv_after k ((List.range t).map turn)
  have hconsumerI := h.consumerI
  have hprinted := h.printed
  rw [hconsumer] at hconsumerI hprinted
  have hn : n = k.maxIdx := hconsumerI.symm.trans (h.consumerDone hconsumer)
  rw [hn] at hprinted
  exact ⟨t, hproducer, hconsumer, hprinted⟩

/-- One step of each thread after the other, with the sizes of the program. -/
theorem sums_come_sample :
    ∃ t, (after sizes ((List.range t).map fun t => if t % 2 = 0 then .producer else .consumer)).printed =
      (List.range 15).map (100 * ·) := by
  have hfair : Fair fun t => if t % 2 = 0 then Thread.producer else Thread.consumer := by
    intro i t
    cases i with
    | producer => exact ⟨2 * t, by omega, by simp⟩
    | consumer => exact ⟨2 * t + 1, by omega, by simp⟩
  obtain ⟨t, -, -, hprinted⟩ := sums_come sizes hfair
  exact ⟨t, hprinted⟩

end Workbench.Producers.Handshake
