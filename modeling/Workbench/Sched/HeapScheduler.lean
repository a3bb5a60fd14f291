import Workbench.Heap.Order
import Workbench.Heap.Remove
import Workbench.Sched.Scheduler

/-!
# `Sched.HeapScheduler` — the scheduler on the heap

The scheduler adds 1 to the difference of two times, for a queue that inserts behind equal tasks. The heap asks whether
the difference is positive: a task that is compared with itself is, and sinks in its place forever. And the scheduler
matches a UID with 1, where the heap goes on.

## Main results
* `timed_step` — an allowed call returns and keeps the heap in order of the times;
* `removes_iff` — when `SchedulerRemove` does what it promises;
* `heap_scheduler` — the runs of allowed calls, and which dequeues end.
-/

namespace Workbench.Sched

open HeapQueue (HeapOf Rises Pops PopHalts)

/-- The priority queue on the heap. An allocation is whether `realloc` finds memory. -/
def heapPqueue : Pqueue (HeapQueue.PQueue Task) Bool where
  pqIsEmpty := HeapQueue.pqIsEmpty
  pqEnpqueue := HeapQueue.pqEnpqueue
  pqDepqueue := HeapQueue.pqDepqueue
  pqErase := HeapQueue.pqErase
  mayReturn _ _ := True

/-- `SchedulerCreate`. -/
def heapScheduler : System (State (HeapQueue.PQueue Task)) (Call Bool) :=
  schedulerSystem heapPqueue (fun container => container = HeapQueue.pqCreate comparFunc)

/-- The tasks in the order of the vector. -/
def tasksOf (container : HeapQueue.PQueue Task) : List Task := container.queue.vector.elements

def NotLater (t u : Task) : Prop := t.timeToExecute ≤ u.timeToExecute

theorem notLater_trans (t u v : Task) (htu : NotLater t u) (huv : NotLater u v) : NotLater t v := Int.le_trans htu huv

/-- A task is enqueued unless the vector is full and `realloc` fails. Then there is a place, and on the way up from it
    the comparator decides as the times do. -/
def EnqueueAllowed (container : HeapQueue.PQueue Task) (task : Task) (alloc : Bool) : Prop :=
  alloc = true ∨ HeapQueue.vectorIsFull container.queue.vector = false →
    (tasksOf container).length ≠ 2147483647 ∧
      Rises NotLater comparFunc (tasksOf container) (tasksOf container).length task

/-- What keeps the heap in order and ends: a dequeue needs that the comparator decides as the times do on the way down,
    and that the loop does not stay at a leaf. A removal needs a single task with another UID. -/
def HeapAllowed (s : State (HeapQueue.PQueue Task)) : Call Bool → Prop
  | .add interval now new alloc =>
      ∀ uid, new = some uid → EnqueueAllowed s.scheduler.container (taskCreate interval now uid) alloc
  | .returned status now alloc => status = 0 → ∀ task, s.pc = .executing task →
      EnqueueAllowed s.scheduler.container (taskSetTimeToExecute task now) alloc
  | .turn => s.scheduler.stopFlag = 0 → Pops NotLater comparFunc (tasksOf s.scheduler.container)
  | .clearTurn => Pops NotLater comparFunc (tasksOf s.scheduler.container)
  | .remove uid => ∃ task, tasksOf s.scheduler.container = [task] ∧ task.taskUid ≠ uid
  | _ => True

/-- The container is a heap in order of the times. -/
def Timed (container : HeapQueue.PQueue Task) : Prop :=
  HeapOf NotLater comparFunc container.queue (tasksOf container)

variable {s s' : State (HeapQueue.PQueue Task)} {call : Call Bool} {container container' : HeapQueue.PQueue Task}
  {task : Task} {uid : Uid} {alloc : Bool}

/-! ## The functions of the queue -/

theorem enpqueue_timed (h : Timed container) (hallowed : EnqueueAllowed container task alloc) :
    ∃ container' failed, heapPqueue.pqEnpqueue container task alloc = some (container', failed) ∧ Timed container' := by
  by_cases henters : alloc = true ∨ HeapQueue.vectorIsFull container.queue.vector = false
  · obtain ⟨hsize, hrises⟩ := hallowed henters
    obtain ⟨queue, hpush, hqueue⟩ := HeapOf.push notLater_trans h (Nat.lt_of_le_of_ne h.small hsize) hrises
    have hsame : HeapQueue.heapPush container.queue task alloc = HeapQueue.heapPush container.queue task true := by
      rcases henters with rfl | hroom
      · rfl
      · simp only [HeapQueue.heapPush, HeapQueue.vectorPushBack, hroom, Bool.false_eq_true, if_false]
    refine ⟨⟨queue⟩, 0, ?_, { hqueue with perm := List.Perm.refl _ }⟩
    simp only [heapPqueue, HeapQueue.pqEnpqueue, hsame, hpush, bind, Option.bind_some, pure]
  · -- the vector is full, and does not grow
    obtain ⟨hnone, hfull⟩ := not_or.mp henters
    have hnone : alloc = false := Bool.eq_false_iff.mpr hnone
    have hfull : HeapQueue.vectorIsFull container.queue.vector = true := Bool.not_eq_false _ ▸ hfull
    refine ⟨container, 1, ?_, h⟩
    simp only [heapPqueue, HeapQueue.pqEnpqueue, HeapQueue.heapPush, HeapQueue.vectorPushBack, hfull, hnone,
      HeapQueue.vectorReserve, if_true, Bool.false_eq_true, if_false, bind, Option.bind_some, pure]
    rfl

theorem depqueue_timed (h : Timed container) (hne : tasksOf container ≠ [])
    (hpops : Pops NotLater comparFunc (tasksOf container)) :
    ∃ container' task, HeapQueue.pqDepqueue container = some (container', task) ∧ Timed container' := by
  obtain ⟨queue, x, ys, hpeek, hpop, -, hqueue⟩ := HeapOf.pop notLater_trans h hne hpops
  refine ⟨⟨queue⟩, x, ?_, { hqueue with perm := List.Perm.refl _ }⟩
  simp only [HeapQueue.pqDepqueue, hpeek, hpop, bind, Option.bind_some, pure]

/-- **When a dequeue ends**, the task is one with the least time, and the others stay. -/
theorem depqueue_least (h : Timed container) (hdeq : HeapQueue.pqDepqueue container = some (container', task)) :
    (tasksOf container).Perm (task :: tasksOf container') ∧
      ∀ u ∈ tasksOf container, task.timeToExecute ≤ u.timeToExecute := by
  simp only [HeapQueue.pqDepqueue, bind] at hdeq
  obtain ⟨x, hpeek, hdeq⟩ := Option.bind_eq_some_iff.mp hdeq
  obtain ⟨queue, hpop, hdeq⟩ := Option.bind_eq_some_iff.mp hdeq
  obtain ⟨rfl, rfl⟩ := Prod.mk.inj (Option.some.inj hdeq)
  obtain ⟨hmem, hleast⟩ := HeapOf.peek (fun t => Int.le_refl t.timeToExecute) notLater_trans h hpeek
  have hsome : (HeapQueue.heapPop container.queue).isSome := by
    rw [hpop]
    rfl
  have hhalts := (HeapOf.pop_isSome_iff h (List.ne_nil_of_mem hmem)).mp hsome
  obtain ⟨queue', y, hpeek', hpop', hperm⟩ := HeapOf.pop_halts h (List.ne_nil_of_mem hmem) hhalts
  obtain rfl := Option.some.inj (hpeek.symm.trans hpeek')
  obtain rfl := Option.some.inj (hpop.symm.trans hpop')
  exact ⟨hperm, hleast⟩

theorem depqueue_isSome_iff (h : Timed container) (hne : tasksOf container ≠ []) :
    (HeapQueue.pqDepqueue container).isSome ↔ PopHalts comparFunc (tasksOf container) := by
  have hiff := HeapOf.pop_isSome_iff h hne
  obtain ⟨x, hpeek⟩ : ∃ x, HeapQueue.heapPeek container.queue = some x := by
    obtain ⟨x, xs, hcons⟩ := List.exists_cons_of_ne_nil hne
    have helements : container.queue.vector.elements = x :: xs := hcons
    exact ⟨x, by unfold HeapQueue.heapPeek; rw [HeapQueue.vectorGetElement_succ, helements]; rfl⟩
  refine Iff.trans ?_ hiff
  simp only [HeapQueue.pqDepqueue, hpeek, bind, Option.bind_some, pure]
  cases HeapQueue.heapPop container.queue <;> simp

theorem isEmpty_timed (h : Timed container) :
    HeapQueue.pqIsEmpty container = some (decide (tasksOf container = [])) := by
  have hsize := HeapQueue.vectorSize_eq h.small
  simp only [HeapQueue.pqIsEmpty, HeapQueue.heapIsEmpty, hsize, Option.map_some, List.length_eq_zero_iff]
  rfl

/-! ## Removing a task -/

/-- **What `SchedulerRemove` promises**: it removes the task with the UID and returns 0, if there is one, and otherwise
    changes nothing. -/
def Removes (s : State (HeapQueue.PQueue Task)) (uid : Uid) : Prop :=
  ∃ scheduler returned destroyed, schedulerRemove heapPqueue s.scheduler uid = some (scheduler, returned, destroyed) ∧
    (returned = 0 ↔ uid ∈ uids (tasksOf s.scheduler.container)) ∧ (∀ t ∈ destroyed, t.taskUid = uid) ∧
    (tasksOf s.scheduler.container).Perm (destroyed ++ tasksOf scheduler.container) ∧
    (returned = 0 ↔ destroyed ≠ [])

theorem comparUid_ne_zero_iff : comparUid task uid ≠ 0 ↔ task.taskUid = uid := by
  obtain ⟨pid, stamp, counter⟩ := uid
  obtain ⟨interval, time, ⟨pid', stamp', counter'⟩⟩ := task
  simp [comparUid, uidIsSame]

/-- A single task is never removed. -/
theorem remove_singleton (hone : tasksOf s.scheduler.container = [task]) :
    schedulerRemove heapPqueue s.scheduler uid = some (s.scheduler, 1, []) := by
  simp only [schedulerRemove, heapPqueue, HeapQueue.pqErase, HeapQueue.heapRemove_singleton hone, bind,
    Option.bind_some, pure]

/-- **`SchedulerRemove` does it** only if there is a single task, which is another one. -/
theorem removes_iff (h : Timed s.scheduler.container) : Removes s uid ↔ HeapAllowed s (.remove uid) := by
  constructor
  · rintro ⟨scheduler, returned, destroyed, hremove, hreturned, hdestroyed, -, hnonempty⟩
    show ∃ task, tasksOf s.scheduler.container = [task] ∧ task.taskUid ≠ uid
    cases htasks : tasksOf s.scheduler.container with
    | nil =>
        -- the search of an empty heap fails
        simp only [schedulerRemove, heapPqueue, HeapQueue.pqErase, HeapQueue.heapRemove_nil htasks, bind,
          Option.bind_none, reduceCtorEq] at hremove
    | cons t rest =>
        cases rest with
        | nil =>
            rw [remove_singleton htasks] at hremove
            obtain ⟨-, rfl, -⟩ := Option.some.inj hremove
            refine ⟨t, rfl, fun heq => ?_⟩
            rw [htasks] at hreturned
            exact absurd (hreturned.mpr (heq ▸ List.mem_cons_self)) Int.one_ne_zero
        | cons u rest =>
            exfalso
            simp only [schedulerRemove, heapPqueue, HeapQueue.pqErase, bind] at hremove
            obtain ⟨⟨container', removed⟩, herase, hremove⟩ := Option.bind_eq_some_iff.mp hremove
            obtain ⟨⟨queue, removed'⟩, hheap, herase⟩ := Option.bind_eq_some_iff.mp herase
            obtain ⟨rfl, rfl⟩ := Prod.mk.inj (Option.some.inj herase)
            have hmany : 2 ≤ s.scheduler.container.queue.vector.elements.length := by
              have hlength : (tasksOf s.scheduler.container).length = rest.length + 2 := by rw [htasks]; rfl
              unfold tasksOf at hlength
              omega
            rcases HeapQueue.heapRemove_disagrees h.small hmany hheap with ⟨v, rfl, hv⟩ | ⟨rfl, v, hmem, hv⟩
            · obtain ⟨-, -, rfl⟩ := Option.some.inj hremove
              exact comparUid_ne_zero_iff.mpr (hdestroyed v (List.mem_singleton_self v)) hv
            · obtain ⟨-, rfl, -⟩ := Option.some.inj hremove
              have hin : uid ∈ uids (tasksOf s.scheduler.container) :=
                comparUid_ne_zero_iff.mp hv ▸ List.mem_map_of_mem hmem
              exact absurd (hreturned.mpr hin) Int.one_ne_zero
  · rintro ⟨task, hone, hne⟩
    refine ⟨s.scheduler, 1, [], remove_singleton hone, ⟨fun h => absurd h Int.one_ne_zero, fun hin => ?_⟩,
      fun t ht => absurd ht List.not_mem_nil, List.Perm.refl _,
      ⟨fun h => absurd h Int.one_ne_zero, fun h => absurd rfl h⟩⟩
    rw [hone] at hin
    exact absurd (List.mem_singleton.mp hin).symm hne

/-! ## Runs -/

/-- `SchedulerAdd`: the new task is pushed. -/
theorem add_timed (h : Timed s.scheduler.container) {interval : Nat} {now : Int} {new : Option Uid} {alloc : Bool}
    (hallowed : HeapAllowed s (.add interval now new alloc)) :
    ∃ s', exec heapPqueue s (.add interval now new alloc) = some s' ∧ Timed s'.scheduler.container := by
  cases new with
  | none => exact ⟨_, rfl, h⟩
  | some uid =>
      obtain ⟨container, failed, henq, hcontainer⟩ := enpqueue_timed h (hallowed uid rfl)
      let scheduler : Scheduler (HeapQueue.PQueue Task) := { s.scheduler with container }
      by_cases hfailed : failed = 0
      · have hadd : schedulerAdd heapPqueue s.scheduler interval now (some uid) alloc =
            some (scheduler, uid, []) := by
          simp only [schedulerAdd, henq, bind, Option.bind_some, hfailed, ne_eq, not_true, if_false, pure]
          rfl
        simp only [exec, hadd, bind, Option.bind_some, pure]
        exact ⟨_, rfl, hcontainer⟩
      · have hadd : schedulerAdd heapPqueue s.scheduler interval now (some uid) alloc =
            some (scheduler, uidGetBadUid, [taskCreate interval now uid]) := by
          simp only [schedulerAdd, henq, bind, Option.bind_some, hfailed, ne_eq, not_false_iff, if_true, pure]
          rfl
        simp only [exec, hadd, bind, Option.bind_some, pure]
        exact ⟨_, rfl, hcontainer⟩

/-- A turn of `SchedulerClear`. -/
theorem clearTurn_timed (h : Timed s.scheduler.container) (hallowed : HeapAllowed s .clearTurn) :
    ∃ s', exec heapPqueue s .clearTurn = some s' ∧ Timed s'.scheduler.container := by
  have hempty := isEmpty_timed h
  by_cases hnil : tasksOf s.scheduler.container = []
  · have hclear : schedulerClearTurn heapPqueue s.scheduler = some (s.scheduler, []) := by
      simp only [schedulerClearTurn, heapPqueue, hempty, hnil, bind, Option.bind_some, pure]
      rfl
    simp only [exec, hclear, bind, Option.bind_some, pure]
    exact ⟨_, rfl, h⟩
  · obtain ⟨container, task, hdeq, hcontainer⟩ := depqueue_timed h hnil hallowed
    let scheduler : Scheduler (HeapQueue.PQueue Task) := { s.scheduler with container }
    have hclear : schedulerClearTurn heapPqueue s.scheduler = some (scheduler, [task]) := by
      simp only [schedulerClearTurn, heapPqueue, hempty, hnil, hdeq, bind, Option.bind_some, pure, decide_false,
        Bool.not_false, if_true]
      rfl
    simp only [exec, hclear, bind, Option.bind_some, pure]
    exact ⟨_, rfl, hcontainer⟩

/-- A turn of the loop of `SchedulerRun`. -/
theorem turn_timed (h : Timed s.scheduler.container) (hallowed : HeapAllowed s .turn) :
    ∃ s', exec heapPqueue s .turn = some s' ∧ Timed s'.scheduler.container := by
  have hempty := isEmpty_timed h
  by_cases hgoes : tasksOf s.scheduler.container ≠ [] ∧ s.scheduler.stopFlag = 0
  · obtain ⟨hne, hflag⟩ := hgoes
    obtain ⟨container, task, hdeq, hcontainer⟩ := depqueue_timed h hne (hallowed hflag)
    let scheduler : Scheduler (HeapQueue.PQueue Task) := { s.scheduler with container }
    have hcondition :
        (!decide (tasksOf s.scheduler.container = []) && decide (s.scheduler.stopFlag = 0)) = true := by
      simp [hne, hflag]
    have hturn : schedulerRunTurn heapPqueue s.scheduler = some (scheduler, some task) := by
      simp only [schedulerRunTurn, heapPqueue, hempty, hcondition, hdeq, bind, Option.bind_some, pure, if_true]
      rfl
    simp only [exec, hturn, bind, Option.bind_some, pure]
    exact ⟨_, rfl, hcontainer⟩
  · have hcondition :
        (!decide (tasksOf s.scheduler.container = []) && decide (s.scheduler.stopFlag = 0)) = false := by
      by_cases hnil : tasksOf s.scheduler.container = []
      · simp [hnil]
      · have hflag : ¬ s.scheduler.stopFlag = 0 := fun hflag => hgoes ⟨hnil, hflag⟩
        simp [hflag]
    have hturn : schedulerRunTurn heapPqueue s.scheduler = some (s.scheduler, none) := by
      simp only [schedulerRunTurn, heapPqueue, hempty, hcondition, bind, Option.bind_some, pure,
        Bool.false_eq_true, if_false]
    have hend : schedulerRunEnd heapPqueue s.scheduler =
        some (if tasksOf s.scheduler.container = [] then .finishAllWork else .stopped) := by
      simp only [schedulerRunEnd, heapPqueue, hempty, bind, Option.bind_some, pure, decide_eq_true_eq]
    simp only [exec, hturn, hend, bind, Option.bind_some, pure]
    exact ⟨_, rfl, h⟩

/-- The rest of the turn, after the task. -/
theorem returned_timed (h : Timed s.scheduler.container) {status now : Int} {alloc : Bool}
    (henabled : Enabled heapPqueue s (.returned status now alloc))
    (hallowed : HeapAllowed s (.returned status now alloc)) :
    ∃ s', exec heapPqueue s (.returned status now alloc) = some s' ∧ Timed s'.scheduler.container := by
  obtain ⟨⟨task, hpc⟩, -⟩ := henabled
  by_cases hstatus : status = 0
  · obtain ⟨container, failed, henq, hcontainer⟩ := enpqueue_timed h (hallowed hstatus task hpc)
    let scheduler : Scheduler (HeapQueue.PQueue Task) := { s.scheduler with container }
    have hreturned : schedulerRunReturned heapPqueue s.scheduler task status now alloc =
        some (scheduler, decide (failed ≠ 0), []) := by
      simp only [schedulerRunReturned, if_pos hstatus, henq, bind, Option.bind_some, pure]
      rfl
    simp only [exec, hpc, hreturned, bind, Option.bind_some, pure]
    exact ⟨_, rfl, hcontainer⟩
  · have hreturned : schedulerRunReturned heapPqueue s.scheduler task status now alloc =
        some (s.scheduler, false, [task]) := by
      simp only [schedulerRunReturned, if_neg hstatus]
    simp only [exec, hpc, hreturned, bind, Option.bind_some, pure]
    exact ⟨_, rfl, h⟩

/-- **An allowed call** returns, and keeps the heap in order. -/
theorem timed_step (h : Timed s.scheduler.container) (henabled : Enabled heapPqueue s call)
    (hallowed : HeapAllowed s call) :
    ∃ s', exec heapPqueue s call = some s' ∧ Timed s'.scheduler.container := by
  cases call with
  | add interval now new alloc => exact add_timed h hallowed
  | remove uid =>
      obtain ⟨task, hone, -⟩ := hallowed
      simp only [exec, remove_singleton hone, bind, Option.bind_some, pure]
      exact ⟨_, rfl, h⟩
  | pause => exact ⟨_, rfl, h⟩
  | clearTurn => exact clearTurn_timed h hallowed
  | run => exact ⟨_, rfl, h⟩
  | turn => exact turn_timed h hallowed
  | returned status now alloc => exact returned_timed h henabled hallowed

/-- The heap is in order in every run of allowed calls. -/
def InTime (s : State (HeapQueue.PQueue Task)) : Prop := Timed s.scheduler.container

theorem reachable_inTime (h : heapScheduler.Reachable HeapAllowed s) : InTime s := by
  refine System.invariant ?_ ?_ h
  · rintro s ⟨hcreated, -⟩
    unfold InTime Timed
    rw [hcreated]
    exact HeapQueue.heapOf_create NotLater comparFunc
  · rintro s call s' hinv hallowed ⟨henabled, hexec⟩
    obtain ⟨s'', hexec', hinv'⟩ := timed_step hinv henabled hallowed
    obtain rfl := Option.some.inj (hexec.symm.trans hexec')
    exact hinv'

/-- **The scheduler on the heap**, in every run of allowed calls:

    * each allowed call returns;
    * a dequeue ends exactly if its loop does not stay at a leaf, and then takes off a task with the least time;
    * a removal does what it promises exactly if it is allowed. -/
theorem heap_scheduler (h : heapScheduler.Reachable HeapAllowed s) :
    (∀ call, Enabled heapPqueue s call → HeapAllowed s call → (exec heapPqueue s call).isSome) ∧
    (tasksOf s.scheduler.container ≠ [] → ((HeapQueue.pqDepqueue s.scheduler.container).isSome ↔
      PopHalts comparFunc (tasksOf s.scheduler.container))) ∧
    (∀ container task, HeapQueue.pqDepqueue s.scheduler.container = some (container, task) →
      (tasksOf s.scheduler.container).Perm (task :: tasksOf container) ∧
        ∀ u ∈ tasksOf s.scheduler.container, task.timeToExecute ≤ u.timeToExecute) ∧
    ∀ uid, Removes s uid ↔ HeapAllowed s (.remove uid) := by
  have hinv := reachable_inTime h
  refine ⟨fun call henabled hallowed => ?_, depqueue_isSome_iff hinv, fun container task => depqueue_least hinv,
    fun uid => removes_iff hinv⟩
  obtain ⟨s', hexec, -⟩ := timed_step hinv henabled hallowed
  rw [hexec]
  rfl

/-- The task that is due at ten times its number. -/
def sampleTask (counter : Nat) : Task := ⟨10 * counter, 10 * counter, ⟨1, 0, counter⟩⟩

def addSample (counter : Nat) : Call Bool := .add (10 * counter) 0 (some ⟨1, 0, counter⟩) true

/-- A scheduler to which the tasks were added. -/
def heapState (tasks : List Task) : State (HeapQueue.PQueue Task) :=
  ⟨⟨⟨⟨⟨tasks, 7⟩, comparFunc⟩⟩, 0⟩, .idle none, tasks, uids tasks, [], [], [], false⟩

theorem heapState_idle (tasks : List Task) : (heapState tasks).pc ≠ .turn := by
  intro h
  cases h

theorem reachable_heapState (ok : State (HeapQueue.PQueue Task) → Call Bool → Prop) :
    heapScheduler.Reachable ok (heapState []) := .init ⟨rfl, rfl, rfl, rfl, rfl, rfl, rfl, rfl⟩

/-- Of four tasks that are due at 10, 20, 30 and 40, the first one is dequeued: the last one sinks to a leaf that is not
    the last place of the vector, and stays there. -/
theorem run_stays : ∃ s, heapScheduler.Reachable System.Any s ∧ Enabled heapPqueue s .turn ∧
    tasksOf s.scheduler.container ≠ [] ∧ HeapQueue.pqDepqueue s.scheduler.container = none ∧
    exec heapPqueue s .turn = none := by
  have h₁ : heapScheduler.Reachable System.Any (heapState [sampleTask 1]) :=
    (reachable_heapState _).step (a := addSample 1) trivial ⟨⟨heapState_idle _, trivial⟩, rfl⟩
  have h₂ : heapScheduler.Reachable System.Any (heapState [sampleTask 1, sampleTask 2]) :=
    h₁.step (a := addSample 2) trivial ⟨⟨heapState_idle _, trivial⟩, rfl⟩
  have h₃ : heapScheduler.Reachable System.Any (heapState [sampleTask 1, sampleTask 2, sampleTask 3]) :=
    h₂.step (a := addSample 3) trivial ⟨⟨heapState_idle _, trivial⟩, rfl⟩
  have h₄ : heapScheduler.Reachable System.Any (heapState [sampleTask 1, sampleTask 2, sampleTask 3, sampleTask 4]) :=
    h₃.step (a := addSample 4) trivial ⟨⟨heapState_idle _, trivial⟩, rfl⟩
  have h₅ : heapScheduler.Reachable System.Any
      { heapState [sampleTask 1, sampleTask 2, sampleTask 3, sampleTask 4] with pc := .turn } :=
    h₄.step (a := .run) trivial ⟨⟨none, rfl⟩, rfl⟩
  exact ⟨_, h₅, rfl, List.cons_ne_nil _ _, rfl, rfl⟩

/-- Another task than the single one is not removed. -/
theorem heap_scheduler_sample : Removes (heapState [sampleTask 1]) ⟨1, 0, 2⟩ := by
  have hallowed : HeapAllowed (heapState []) (addSample 1) := by
    rintro uid - -
    refine ⟨Nat.zero_ne_add_one _, fun i p x _ _ hx => ?_⟩
    cases hx
  have h₁ : heapScheduler.Reachable HeapAllowed (heapState [sampleTask 1]) :=
    (reachable_heapState _).step (a := addSample 1) hallowed ⟨⟨heapState_idle _, trivial⟩, rfl⟩
  obtain ⟨-, -, -, hremoves⟩ := heap_scheduler h₁
  exact (hremoves ⟨1, 0, 2⟩).mpr ⟨sampleTask 1, rfl, by decide⟩

end Workbench.Sched
