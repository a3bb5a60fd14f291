import Workbench.Lib.System

/-!
# `Sched.Scheduler` — tasks, and the scheduler on a priority queue

The scheduler is the same text over both priority queues, so the queue is a parameter. A task is a value: the scheduler
writes to a task while the task is outside of the queue. What a task function does is not part of the scheduler; it
may call the scheduler, and returns any status. So `SchedulerRun` is cut where it calls the function.

## Contents
* `Uid`, `Task`, `comparFunc`, `comparUid` — what the queue holds and how it is compared;
* `Pqueue` — the queue; `schedulerAdd` … `schedulerClearTurn` — the functions;
* `schedulerSystem` — all orders of calls and turns, with what has happened to the tasks.
-/

namespace Workbench.Sched

/-! ## Tasks -/

structure Uid where
  pid : Nat
  timeStamp : Int
  counter : Nat
  deriving DecidableEq

def uidIsSame (one two : Uid) : Int :=
  if one.pid = two.pid ∧ one.timeStamp = two.timeStamp ∧ one.counter = two.counter then 1 else 0

def uidGetBadUid : Uid := ⟨0, 0, 0⟩

/-- `task_t`, without the function and its argument. -/
structure Task where
  interval : Nat
  timeToExecute : Int
  taskUid : Uid
  deriving DecidableEq

/-- The conversion to `time_t`. -/
def toTimeT (x : Int) : Int := Int.bmod x 18446744073709551616

/-- The conversion to `int`. -/
def toInt (x : Int) : Int := Int.bmod x 4294967296

/-- `now` is what `time` returns, and `uid` what `UIDCreate` does. -/
def taskCreate (interval : Nat) (now : Int) (uid : Uid) : Task := ⟨interval, toTimeT (now + interval), uid⟩

def taskSetTimeToExecute (task : Task) (now : Int) : Task :=
  { task with timeToExecute := toTimeT (now + task.interval) }

/-- `ComparFunc`: 1 is added, so that a task is inserted behind those with its time. -/
def comparFunc (data dataToCompare : Task) : Int := toInt (dataToCompare.timeToExecute - data.timeToExecute + 1)

def comparUid (data : Task) (uidToCompare : Uid) : Int := uidIsSame data.taskUid uidToCompare

/-! ## The functions -/

/-- The functions of `pqueue.h` that the scheduler calls, on a queue of tasks that is created with `ComparFunc`. An
    assertion that fails, and a call that does not end, are `none`. -/
structure Pqueue (Q A : Type) where
  pqIsEmpty : Q → Option Bool
  /-- The return value is not 0 on a failure. -/
  pqEnpqueue : Q → Task → A → Option (Q × Int)
  pqDepqueue : Q → Option (Q × Task)
  pqErase : Q → (Task → Uid → Int) → Uid → Option (Q × Option Task)
  /-- What an allocation may return. -/
  mayReturn : Q → A → Prop

/-- The statuses of `scheduler.h`. -/
inductive Status
  | finishAllWork
  | stopped
  | error
  deriving DecidableEq

structure Scheduler (Q : Type) where
  container : Q
  stopFlag : Int

variable {Q A : Type} (pq : Pqueue Q A)

/-- The UID of the task, unless the task or its place in the queue cannot be allocated, and what `TaskDestroy` is called
    for. -/
def schedulerAdd (scheduler : Scheduler Q) (interval : Nat) (now : Int) (new : Option Uid) (alloc : A) :
    Option (Scheduler Q × Uid × List Task) :=
  match new with
  | none => some (scheduler, uidGetBadUid, [])
  | some uid => do
      let newTask := taskCreate interval now uid
      let (container, failed) ← pq.pqEnpqueue scheduler.container newTask alloc
      if failed ≠ 0 then
        return ({ scheduler with container }, uidGetBadUid, [newTask])
      else
        return ({ scheduler with container }, newTask.taskUid, [])

/-- `SchedulerRun` up to its loop. -/
def schedulerRun (scheduler : Scheduler Q) : Scheduler Q := { scheduler with stopFlag := 0 }

/-- The loop of `SchedulerRun` up to the call of the function of the task; `none` if the loop ends. -/
def schedulerRunTurn (scheduler : Scheduler Q) : Option (Scheduler Q × Option Task) := do
  let empty ← pq.pqIsEmpty scheduler.container
  if !empty && scheduler.stopFlag = 0 then
    let (container, exeTask) ← pq.pqDepqueue scheduler.container
    return ({ scheduler with container }, some exeTask)
  else
    return (scheduler, none)

/-- The rest of the turn: whether `SchedulerRun` returns `ERROR`, and what is destroyed. -/
def schedulerRunReturned (scheduler : Scheduler Q) (exeTask : Task) (returnStatus now : Int) (alloc : A) :
    Option (Scheduler Q × Bool × List Task) :=
  if returnStatus = 0 then do
    let (container, failed) ← pq.pqEnpqueue scheduler.container (taskSetTimeToExecute exeTask now) alloc
    return ({ scheduler with container }, failed ≠ 0, [])
  else
    some (scheduler, false, [exeTask])

/-- What `SchedulerRun` returns after its loop. -/
def schedulerRunEnd (scheduler : Scheduler Q) : Option Status := do
  let empty ← pq.pqIsEmpty scheduler.container
  return if empty then .finishAllWork else .stopped

def schedulerPause (scheduler : Scheduler Q) : Scheduler Q := { scheduler with stopFlag := 1 }

/-- 0 if a task was removed, and what is destroyed. -/
def schedulerRemove (scheduler : Scheduler Q) (uid : Uid) : Option (Scheduler Q × Int × List Task) := do
  let (container, returnValue) ← pq.pqErase scheduler.container comparUid uid
  match returnValue with
  | some task => return ({ scheduler with container }, 0, [task])
  | none => return ({ scheduler with container }, 1, [])

/-- A turn of the loop of `SchedulerClear`, and what is destroyed; nothing if the loop ends. -/
def schedulerClearTurn (scheduler : Scheduler Q) : Option (Scheduler Q × List Task) := do
  let empty ← pq.pqIsEmpty scheduler.container
  if !empty then
    let (container, task) ← pq.pqDepqueue scheduler.container
    return ({ scheduler with container }, [task])
  else
    return (scheduler, [])

/-! ## Runs -/

/-- Where `SchedulerRun` is. -/
inductive Pc
  /-- Not called, or returned. -/
  | idle (returned : Option Status)
  /-- In front of the loop, or of its next turn. -/
  | turn
  /-- The function of a task runs. -/
  | executing (task : Task)

/-- The scheduler, and what has happened. -/
structure State (Q : Type) where
  scheduler : Scheduler Q
  pc : Pc
  /-- The tasks in the container, in the order in which they were enqueued. -/
  enqueued : List Task
  added : List Uid
  /-- What `SchedulerRemove` and `SchedulerClear` took out of the container. -/
  removed : List Uid
  /-- Whose function returned a status other than 0. -/
  completed : List Uid
  /-- What `TaskDestroy` was called for. -/
  destroyed : List Uid
  /-- Whether `SchedulerPause` was called since the last start of `SchedulerRun`. -/
  paused : Bool

inductive Call (A : Type)
  | add (interval : Nat) (now : Int) (new : Option Uid) (alloc : A)
  | remove (uid : Uid)
  | pause
  | clearTurn
  | run
  | turn
  | returned (status now : Int) (alloc : A)

/-- What is called next: the functions of the scheduler from outside and from the function of a task, and the turns of
    `SchedulerRun` in their order. -/
def Enabled (s : State Q) : Call A → Prop
  | .add _ _ _ alloc => s.pc ≠ .turn ∧ pq.mayReturn s.scheduler.container alloc
  | .remove _ => s.pc ≠ .turn
  | .pause => s.pc ≠ .turn
  | .clearTurn => s.pc ≠ .turn
  | .run => ∃ returned, s.pc = .idle returned
  | .turn => s.pc = .turn
  | .returned _ _ alloc => (∃ task, s.pc = .executing task) ∧ pq.mayReturn s.scheduler.container alloc

def uids (tasks : List Task) : List Uid := tasks.map Task.taskUid

/-- The call is made; `none` if it does not return. -/
def exec (s : State Q) : Call A → Option (State Q)
  | .add interval now new alloc => do
      let (scheduler, uid, destroyed) ← schedulerAdd pq s.scheduler interval now new alloc
      match new, destroyed with
      | some _, [] => return { s with
          scheduler, enqueued := s.enqueued ++ [taskCreate interval now uid], added := s.added ++ [uid] }
      | _, _ => return { s with scheduler, destroyed := s.destroyed ++ uids destroyed }
  | .remove uid => do
      let (scheduler, returned, destroyed) ← schedulerRemove pq s.scheduler uid
      return { s with
        scheduler, enqueued := s.enqueued.diff destroyed,
        removed := if returned = 0 then s.removed ++ [uid] else s.removed,
        destroyed := s.destroyed ++ uids destroyed }
  | .pause => return { s with scheduler := schedulerPause s.scheduler, paused := true }
  | .clearTurn => do
      let (scheduler, destroyed) ← schedulerClearTurn pq s.scheduler
      return { s with
        scheduler, enqueued := s.enqueued.diff destroyed, removed := s.removed ++ uids destroyed,
        destroyed := s.destroyed ++ uids destroyed }
  | .run => return { s with scheduler := schedulerRun s.scheduler, pc := .turn, paused := false }
  | .turn => do
      let (scheduler, next) ← schedulerRunTurn pq s.scheduler
      match next with
      | some exeTask => return { s with scheduler, pc := .executing exeTask, enqueued := s.enqueued.erase exeTask }
      | none => do
          let status ← schedulerRunEnd pq scheduler
          return { s with scheduler, pc := .idle (some status) }
  | .returned status now alloc =>
      match s.pc with
      | .executing exeTask => do
          let (scheduler, failed, destroyed) ← schedulerRunReturned pq s.scheduler exeTask status now alloc
          return { s with
            scheduler, pc := if failed then .idle (some .error) else .turn,
            enqueued := if status = 0 ∧ ¬ failed then s.enqueued ++ [taskSetTimeToExecute exeTask now] else s.enqueued,
            completed := if status ≠ 0 then s.completed ++ [exeTask.taskUid] else s.completed,
            destroyed := s.destroyed ++ uids destroyed }
      | _ => none

/-- A scheduler that was created, with a queue for which `created` holds. `SchedulerCreate` does not set the flag. -/
def schedulerSystem (created : Q → Prop) : System (State Q) (Call A) where
  init s := created s.scheduler.container ∧ s.pc = .idle none ∧ s.enqueued = [] ∧ s.added = [] ∧ s.removed = [] ∧
    s.completed = [] ∧ s.destroyed = [] ∧ s.paused = false
  step s call s' := Enabled pq s call ∧ exec pq s call = some s'

end Workbench.Sched
