import Workbench.Linked.Pqueue
import Workbench.Sched.Scheduler

/-!
# `Sched.Effects` — what a call does on the sorted list

The queue contains a list of tasks. Each call changes it in one of a few ways, and always returns.

## Main results
* `Effect` — what a call does to the state and to the list;
* `exec_effect` — that it does so.
-/

namespace Workbench.Sched

open DoublyLinked

/-- The priority queue on the sorted list. -/
def listPqueue : Pqueue (PQueue Task) (Option Nat) where
  pqIsEmpty := DoublyLinked.pqIsEmpty
  pqEnpqueue := DoublyLinked.pqEnpqueue
  pqDepqueue := DoublyLinked.pqDepqueue
  pqErase := DoublyLinked.pqErase
  mayReturn pqueue alloc := ∀ address, alloc = some address → Unused pqueue address

/-- `SchedulerCreate`. -/
def listScheduler : System (State (PQueue Task)) (Call (Option Nat)) :=
  schedulerSystem listPqueue (fun container => container = pqCreate comparFunc)

variable {s s' : State (PQueue Task)} {call : Call (Option Nat)} {tasks tasks' : List Task} {t : Task} {uid : Uid}

/-- The state with another container. -/
def State.withContainer (s : State (PQueue Task)) (container : PQueue Task) : State (PQueue Task) :=
  { s with scheduler := { s.scheduler with container } }

/-- What a call does, when the container of `s` has the `tasks`. -/
inductive Effect (s : State (PQueue Task)) (tasks : List Task) :
    Call (Option Nat) → State (PQueue Task) → List Task → Prop
  /-- The task is not created. -/
  | notCreated {interval : Nat} {now : Int} {alloc : Option Nat} : Effect s tasks (.add interval now none alloc) s tasks
  /-- The task is not enqueued, and destroyed. -/
  | notEnqueued {interval : Nat} {now : Int} {uid : Uid} : Effect s tasks (.add interval now (some uid) none)
      { s with destroyed := s.destroyed ++ [uid] } tasks
  | added {interval : Nat} {now : Int} {uid : Uid} {address : Nat} (container : PQueue Task) :
      Effect s tasks (.add interval now (some uid) (some address))
        { s.withContainer container with
          enqueued := s.enqueued ++ [taskCreate interval now uid], added := s.added ++ [uid] }
        (insertSorted comparFunc (taskCreate interval now uid) tasks)
  | removed {uid : Uid} {t : Task} (container : PQueue Task) : tasks.find? (isFound comparUid uid) = some t →
      Effect s tasks (.remove uid)
        { s.withContainer container with
          enqueued := s.enqueued.erase t, removed := s.removed ++ [uid], destroyed := s.destroyed ++ [t.taskUid] }
        (tasks.eraseP (isFound comparUid uid))
  | notRemoved {uid : Uid} (container : PQueue Task) : tasks.find? (isFound comparUid uid) = none →
      Effect s tasks (.remove uid) (s.withContainer container) tasks
  | paused : Effect s tasks .pause { s with scheduler := schedulerPause s.scheduler, paused := true } tasks
  | cleared {t : Task} {rest : List Task} (container : PQueue Task) : tasks = t :: rest →
      Effect s tasks .clearTurn
        { s.withContainer container with
          enqueued := s.enqueued.erase t, removed := s.removed ++ [t.taskUid],
          destroyed := s.destroyed ++ [t.taskUid] }
        rest
  | clear : tasks = [] → Effect s tasks .clearTurn s []
  | run : Effect s tasks .run { s with scheduler := schedulerRun s.scheduler, pc := .turn, paused := false } tasks
  | dequeued {t : Task} {rest : List Task} (container : PQueue Task) : tasks = t :: rest → s.scheduler.stopFlag = 0 →
      Effect s tasks .turn { s.withContainer container with pc := .executing t, enqueued := s.enqueued.erase t } rest
  | left : tasks = [] ∨ s.scheduler.stopFlag ≠ 0 →
      Effect s tasks .turn { s with pc := .idle (some (if tasks = [] then .finishAllWork else .stopped)) } tasks
  | again {t : Task} {status now : Int} {address : Nat} (container : PQueue Task) : s.pc = .executing t → status = 0 →
      Effect s tasks (.returned status now (some address))
        { s.withContainer container with pc := .turn, enqueued := s.enqueued ++ [taskSetTimeToExecute t now] }
        (insertSorted comparFunc (taskSetTimeToExecute t now) tasks)
  | failed {t : Task} {status now : Int} : s.pc = .executing t → status = 0 →
      Effect s tasks (.returned status now none) { s with pc := .idle (some .error) } tasks
  | completed {t : Task} {status now : Int} {alloc : Option Nat} : s.pc = .executing t → status ≠ 0 →
      Effect s tasks (.returned status now alloc)
        { s with
          pc := .turn, completed := s.completed ++ [t.taskUid], destroyed := s.destroyed ++ [t.taskUid] }
        tasks

/-- Erasing the first that is found is erasing it. -/
theorem eraseP_eq_erase {p : Task → Bool} (h : tasks.find? p = some t) : tasks.eraseP p = tasks.erase t := by
  obtain ⟨hp, as, bs, rfl, hnone⟩ := List.find?_eq_some_iff_append.mp h
  have hnot : ∀ a ∈ as, ¬ p a = true := fun a ha => by simpa using hnone a ha
  have hmem : t ∉ as := fun hmem => hnot t hmem hp
  rw [List.eraseP_append_right _ hnot, List.erase_append_right _ hmem, List.eraseP_cons_of_pos hp, List.erase_cons_head]

theorem diff_singleton (l : List Task) (t : Task) : l.diff [t] = l.erase t := by
  rw [List.diff_cons, List.diff_nil]

/-- `SchedulerAdd`: a task may fail to be created, or to be enqueued. -/
theorem add_effect (h : Contains comparFunc s.scheduler.container tasks) {interval : Nat} {now : Int}
    {new : Option Uid} {alloc : Option Nat} (henabled : Enabled listPqueue s (.add interval now new alloc)) :
    ∃ s' tasks', exec listPqueue s (.add interval now new alloc) = some s' ∧
      Contains comparFunc s'.scheduler.container tasks' ∧ Effect s tasks (.add interval now new alloc) s' tasks' := by
  have hone : (1 : Int) ≠ 0 := by decide
  cases new with
  | none =>
      refine ⟨s, tasks, ?_, h, .notCreated⟩
      simp [exec, schedulerAdd, uids]
  | some uid =>
      cases alloc with
      | none =>
          have henq := h.enpqueue_fails (taskCreate interval now uid)
          refine ⟨_, tasks, ?_, ?_, .notEnqueued⟩
          · simp only [exec, schedulerAdd, listPqueue, henq, bind, Option.bind_some, pure, if_pos hone]
            rfl
          · exact h
      | some address =>
          obtain ⟨container, henq, hcontains⟩ := h.enpqueue (henabled.2 address rfl) (taskCreate interval now uid)
          refine ⟨_, _, ?_, ?_, .added container⟩
          · simp only [exec, schedulerAdd, listPqueue, henq, bind, Option.bind_some, pure, ne_eq, not_true,
              if_false]
            rfl
          · exact hcontains

/-- `SchedulerRemove`: the first task with the number. -/
theorem remove_effect (h : Contains comparFunc s.scheduler.container tasks) (uid : Uid) :
    ∃ s' tasks', exec listPqueue s (.remove uid) = some s' ∧ Contains comparFunc s'.scheduler.container tasks' ∧
      Effect s tasks (.remove uid) s' tasks' := by
  have hone : (1 : Int) ≠ 0 := by decide
  obtain ⟨container, herase, hcontains⟩ := h.erase comparUid uid
  cases hfind : tasks.find? (isFound comparUid uid) with
  | none =>
      rw [hfind] at herase
      refine ⟨s.withContainer container, tasks, ?_, ?_, .notRemoved container hfind⟩
      · simp only [exec, schedulerRemove, listPqueue, herase, bind, Option.bind_some, pure, if_neg hone,
          List.diff_nil, uids, List.map_nil, List.append_nil]
        rfl
      · rwa [List.eraseP_of_forall_not (List.find?_eq_none.mp hfind)] at hcontains
  | some t =>
      rw [hfind] at herase
      refine ⟨_, _, ?_, ?_, .removed container hfind⟩
      · simp only [exec, schedulerRemove, listPqueue, herase, bind, Option.bind_some, pure, if_true,
          diff_singleton, uids, List.map_cons, List.map_nil]
        rfl
      · exact hcontains

/-- A turn of `SchedulerClear`. -/
theorem clearTurn_effect (h : Contains comparFunc s.scheduler.container tasks) :
    ∃ s' tasks', exec listPqueue s .clearTurn = some s' ∧ Contains comparFunc s'.scheduler.container tasks' ∧
      Effect s tasks .clearTurn s' tasks' := by
  have hempty := h.isEmpty
  cases tasks with
  | nil =>
      refine ⟨s, [], ?_, h, .clear rfl⟩
      simp [exec, schedulerClearTurn, listPqueue, hempty, uids]
  | cons t rest =>
      obtain ⟨-, container, hdeq, hcontains⟩ := h.depqueue
      refine ⟨_, rest, ?_, ?_, .cleared container rfl⟩
      · simp only [exec, schedulerClearTurn, listPqueue, hempty, hdeq, bind, Option.bind_some, pure,
          List.isEmpty_cons, Bool.not_false, if_true, diff_singleton, uids, List.map_cons, List.map_nil]
        rfl
      · exact hcontains

/-- A turn of the loop of `SchedulerRun`: the loop ends, or a task is executed. -/
theorem turn_effect (h : Contains comparFunc s.scheduler.container tasks) :
    ∃ s' tasks', exec listPqueue s .turn = some s' ∧ Contains comparFunc s'.scheduler.container tasks' ∧
      Effect s tasks .turn s' tasks' := by
  have hempty := h.isEmpty
  by_cases hgoes : tasks = [] ∨ s.scheduler.stopFlag ≠ 0
  · -- the loop ends, and the container is looked at once more
    have hcondition : (!tasks.isEmpty && decide (s.scheduler.stopFlag = 0)) = false := by
      rcases hgoes with rfl | hflag
      · rfl
      · simp [hflag]
    refine ⟨_, tasks, ?_, ?_, .left hgoes⟩
    · simp only [exec, schedulerRunTurn, schedulerRunEnd, listPqueue, hempty, hcondition, bind, Option.bind_some,
        pure, Bool.false_eq_true, if_false, List.isEmpty_iff]
    · exact h
  · obtain ⟨hne, hflag⟩ := not_or.mp hgoes
    rw [not_not] at hflag
    obtain ⟨t, rest, rfl⟩ := List.exists_cons_of_ne_nil hne
    obtain ⟨-, container, hdeq, hcontains⟩ := h.depqueue
    have hcondition : (!(t :: rest).isEmpty && decide (s.scheduler.stopFlag = 0)) = true := by simp [hflag]
    refine ⟨_, rest, ?_, ?_, .dequeued container rfl hflag⟩
    · simp only [exec, schedulerRunTurn, listPqueue, hempty, hdeq, hcondition, bind, Option.bind_some, pure,
        if_true]
      rfl
    · exact hcontains

/-- The rest of the turn, after the task: it is enqueued again, or is completed. -/
theorem returned_effect (h : Contains comparFunc s.scheduler.container tasks) {status now : Int}
    {alloc : Option Nat} (henabled : Enabled listPqueue s (.returned status now alloc)) :
    ∃ s' tasks', exec listPqueue s (.returned status now alloc) = some s' ∧
      Contains comparFunc s'.scheduler.container tasks' ∧ Effect s tasks (.returned status now alloc) s' tasks' := by
  obtain ⟨⟨t, hpc⟩, hfresh⟩ := henabled
  by_cases hstatus : status = 0
  · cases alloc with
    | none =>
        have henq := h.enpqueue_fails (taskSetTimeToExecute t now)
        refine ⟨_, tasks, ?_, ?_, .failed hpc hstatus⟩
        · simp only [exec, hpc, schedulerRunReturned, hstatus, listPqueue, henq, bind, Option.bind_some, pure,
            if_true]
          simp [uids]
        · exact h
    | some address =>
        obtain ⟨container, henq, hcontains⟩ := h.enpqueue (hfresh address rfl) (taskSetTimeToExecute t now)
        refine ⟨_, _, ?_, ?_, .again container hpc hstatus⟩
        · simp only [exec, hpc, schedulerRunReturned, hstatus, listPqueue, henq, bind, Option.bind_some, pure,
            if_true]
          simp [uids, State.withContainer]
        · exact hcontains
  · refine ⟨_, tasks, ?_, ?_, .completed hpc hstatus⟩
    · simp only [exec, hpc, schedulerRunReturned, if_neg hstatus, bind, Option.bind_some, pure]
      simp [uids, hstatus]
    · exact h

/-- **A call returns, and does one of these.** -/
theorem exec_effect (h : Contains comparFunc s.scheduler.container tasks) (henabled : Enabled listPqueue s call) :
    ∃ s' tasks', exec listPqueue s call = some s' ∧ Contains comparFunc s'.scheduler.container tasks' ∧
      Effect s tasks call s' tasks' := by
  cases call with
  | add interval now new alloc => exact add_effect h henabled
  | remove uid => exact remove_effect h uid
  | pause => exact ⟨_, tasks, rfl, h, .paused⟩
  | clearTurn => exact clearTurn_effect h
  | run => exact ⟨_, tasks, rfl, h, .run⟩
  | turn => exact turn_effect h
  | returned status now alloc => exact returned_effect h henabled

/-- A task can be added whenever `SchedulerAdd` can be called. -/
theorem reachable_add {ok : State (PQueue Task) → Call (Option Nat) → Prop} (h : listScheduler.Reachable ok s)
    (hcontains : Contains comparFunc s.scheduler.container tasks) (hpc : s.pc ≠ .turn) (interval : Nat) (now : Int)
    (uid : Uid) (hok : ∀ address, ok s (.add interval now (some uid) (some address))) :
    ∃ container, Contains comparFunc container (insertSorted comparFunc (taskCreate interval now uid) tasks) ∧
      listScheduler.Reachable ok { s.withContainer container with
        enqueued := s.enqueued ++ [taskCreate interval now uid], added := s.added ++ [uid] } := by
  obtain ⟨address, hunused⟩ := exists_unused s.scheduler.container
  have henabled : Enabled listPqueue s (.add interval now (some uid) (some address)) := by
    refine ⟨hpc, ?_⟩
    rintro _ h
    obtain rfl := Option.some.inj h
    exact hunused
  obtain ⟨s', tasks', hexec, hcontains', heffect⟩ := exec_effect hcontains henabled
  cases heffect with
  | added container => exact ⟨container, hcontains', h.step (hok address) ⟨henabled, hexec⟩⟩

end Workbench.Sched
