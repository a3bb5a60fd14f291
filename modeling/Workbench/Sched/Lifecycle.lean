import Workbench.Sched.Order

/-!
# `Sched.Lifecycle` — what becomes of a task

A task that is added is in the container or executed, until it is removed or has completed. The functions of the tasks
may add, remove and pause while they run: the task that is executed is outside of the container then.

## Main results
* `lifecycle_step` — a call keeps the numbers of the tasks;
* `lifecycle` — no task is lost or destroyed twice, and when `SchedulerRun` returns what.
-/

namespace Workbench.Sched

open DoublyLinked

variable {s s' : State (PQueue Task)} {call : Call (Option Nat)} {tasks tasks' : List Task}

/-- Nothing fails to be allocated, and `UIDCreate` gives a UID that no task had before. -/
def NoFailure (s : State (PQueue Task)) : Call (Option Nat) → Prop
  | .add _ _ new alloc => (∃ uid, new = some uid ∧ uid ∉ s.added) ∧ alloc ≠ none
  | .returned _ _ alloc => alloc ≠ none
  | _ => True

/-- The UID of the task that is executed. -/
def running : Pc → List Uid
  | .executing task => [task.taskUid]
  | _ => []

/-- How often a task is where, and the flag that stops the loop. -/
structure Counted (s : State (PQueue Task)) (tasks : List Task) : Prop where
  places (uid : Uid) : (uids tasks).count uid + (running s.pc).count uid + s.removed.count uid +
    s.completed.count uid = s.added.count uid
  once (uid : Uid) : s.added.count uid ≤ 1
  destroyed (uid : Uid) : s.destroyed.count uid = s.removed.count uid + s.completed.count uid
  paused : (∀ returned, s.pc ≠ .idle returned) → s.scheduler.stopFlag ≠ 0 → s.paused = true

theorem count_insertSorted (t : Task) (tasks : List Task) (uid : Uid) :
    (uids (insertSorted comparFunc t tasks)).count uid = (uids tasks).count uid + [t.taskUid].count uid := by
  unfold uids
  rw [((insertSorted_perm comparFunc t tasks).map Task.taskUid).count_eq]
  simp only [List.map_cons, List.count_cons, List.count_nil, Nat.zero_add]

theorem count_cons (t : Task) (rest : List Task) (uid : Uid) :
    (uids (t :: rest)).count uid = [t.taskUid].count uid + (uids rest).count uid := by
  simp only [uids, List.map_cons, List.count_cons, List.count_nil]
  omega

theorem taskUid_of_find {uid : Uid} {t : Task} (h : tasks.find? (isFound comparUid uid) = some t) :
    t.taskUid = uid := by
  have hfound := List.find?_some h
  unfold isFound comparUid uidIsSame at hfound
  obtain ⟨pid, stamp, counter⟩ := uid
  by_contra hne
  simp only [decide_eq_true_eq] at hfound
  split at hfound
  · rename_i hsame
    exact hne (by cases htask : t.taskUid; simp_all)
  · exact absurd rfl hfound

theorem count_eraseP {uid v : Uid} {t : Task} (h : tasks.find? (isFound comparUid uid) = some t) :
    (uids (tasks.eraseP (isFound comparUid uid))).count v + [t.taskUid].count v = (uids tasks).count v := by
  have hperm := ((List.perm_cons_erase (List.mem_of_find?_eq_some h)).map Task.taskUid).count_eq v
  rw [eraseP_eq_erase h]
  simp only [uids, List.map_cons, List.count_cons, List.count_nil, Nat.zero_add] at hperm ⊢
  omega

/-- **A call keeps the numbers.** -/
theorem counted_step (h : Counted s tasks) (hok : NoFailure s call) (henabled : Enabled listPqueue s call)
    (heffect : Effect s tasks call s' tasks') : Counted s' tasks' := by
  have hplaces := h.places
  have honce := h.once
  have hdestroyed := h.destroyed
  have hpaused := h.paused
  cases heffect with
  | notCreated => exact h
  | notEnqueued => exact absurd rfl hok.2
  | @added interval now uid address container =>
      obtain ⟨⟨_, hnew, hfresh⟩, -⟩ := hok
      obtain rfl := Option.some.inj hnew
      refine ⟨fun v => ?_, fun v => ?_, hdestroyed, hpaused⟩
      · rw [count_insertSorted, List.count_append, ← hplaces v]
        simp only [taskCreate, State.withContainer]
        omega
      · rw [List.count_append]
        by_cases hv : v = uid
        · subst hv
          rw [List.count_eq_zero_of_not_mem hfresh]
          simp
        · have hzero : [uid].count v = 0 := List.count_eq_zero_of_not_mem (by simpa using hv)
          have hv := honce v
          omega
  | removed container hfind =>
      have huid := taskUid_of_find hfind
      refine ⟨fun v => ?_, honce, fun v => ?_, hpaused⟩
      · have hcount := count_eraseP (v := v) hfind
        have hv := hplaces v
        rw [huid] at hcount
        simp only [State.withContainer, List.count_append]
        omega
      · have hv := hdestroyed v
        simp only [List.count_append, huid, State.withContainer]
        omega
  | notRemoved container hfind => exact ⟨hplaces, honce, hdestroyed, hpaused⟩
  | paused => exact ⟨hplaces, honce, hdestroyed, fun _ _ => rfl⟩
  | cleared container hcons =>
      subst hcons
      refine ⟨fun v => ?_, honce, fun v => ?_, hpaused⟩
      · have hv := hplaces v
        rw [count_cons] at hv
        simp only [State.withContainer, List.count_append]
        omega
      · have hv := hdestroyed v
        simp only [List.count_append, State.withContainer]
        omega
  | clear hnil => exact hnil ▸ h
  | run =>
      -- `SchedulerRun` is called when no task is executed
      obtain ⟨returned, hpc⟩ := henabled
      refine ⟨fun v => ?_, honce, hdestroyed, fun _ hflag => absurd rfl hflag⟩
      have hv := hplaces v
      rwa [hpc] at hv
  | dequeued container hcons hflag =>
      subst hcons
      have hpc : s.pc = .turn := henabled
      refine ⟨fun v => ?_, honce, hdestroyed, fun _ hstop => absurd hflag hstop⟩
      have hv := hplaces v
      rw [hpc, count_cons] at hv
      simp only [running, List.count_nil, State.withContainer] at hv ⊢
      omega
  | left hends =>
      have hpc : s.pc = .turn := henabled
      refine ⟨fun v => ?_, honce, hdestroyed, fun hnot => absurd rfl (hnot _)⟩
      have hv := hplaces v
      rwa [hpc] at hv
  | again container hpc hstatus =>
      refine ⟨fun v => ?_, honce, hdestroyed, fun _ => hpaused (fun _ hidle => by rw [hpc] at hidle; cases hidle)⟩
      have hv := hplaces v
      rw [hpc] at hv
      rw [count_insertSorted]
      simp only [State.withContainer, running, taskSetTimeToExecute, List.count_nil] at hv ⊢
      omega
  | failed hpc hstatus => exact absurd rfl hok
  | completed hpc hstatus =>
      refine ⟨fun v => ?_, honce, fun v => ?_, fun _ => hpaused (fun _ hidle => by rw [hpc] at hidle; cases hidle)⟩
      · have hv := hplaces v
        rw [hpc] at hv
        simp only [running, List.count_append, List.count_nil] at hv ⊢
        omega
      · have hv := hdestroyed v
        simp only [List.count_append]
        omega

/-- Where a task is, in every run without failures. -/
def Alive (s : State (PQueue Task)) : Prop :=
  ∃ tasks, Contains comparFunc s.scheduler.container tasks ∧ Counted s tasks

theorem reachable_alive (h : listScheduler.Reachable NoFailure s) : Alive s := by
  refine System.invariant ?_ ?_ h
  · rintro s ⟨hcreated, hpc, -, hadded, hremoved, hcompleted, hdestroyed, -⟩
    refine ⟨[], hcreated ▸ contains_create comparFunc, fun v => ?_, fun v => ?_, fun v => ?_, fun hnot => ?_⟩
    · rw [hpc, hadded, hremoved, hcompleted]
      rfl
    · rw [hadded]
      exact Nat.zero_le 1
    · rw [hdestroyed, hremoved, hcompleted]
      rfl
    · exact absurd hpc (hnot none)
  · rintro s call s' ⟨tasks, hcontains, hcounted⟩ hok hstep
    obtain ⟨s'', tasks', hexec, hcontains', heffect⟩ := exec_effect hcontains hstep.1
    obtain rfl := Option.some.inj (hstep.2.symm.trans hexec)
    exact ⟨tasks', hcontains', counted_step hcounted hok hstep.1 heffect⟩

/-- The loop of `SchedulerRun` ends. -/
def Leaves (s s' : State (PQueue Task)) (returned : Option Status) : Prop :=
  (∀ before, s.pc ≠ .idle before) ∧ s'.pc = .idle returned

/-- **The tasks of a scheduler**: in every run without failures, at every moment,

    * each call returns;
    * a task that was added, and neither removed nor completed, is in the container exactly once or is the task that is
      executed;
    * a task is destroyed once, if it was removed or has completed, and otherwise not;
    * the loop is left with an empty container or after `SchedulerPause`, and what is returned says which. -/
theorem lifecycle (h : listScheduler.Reachable NoFailure s) :
    ∃ tasks, Contains comparFunc s.scheduler.container tasks ∧
      (∀ call, Enabled listPqueue s call → (exec listPqueue s call).isSome) ∧
      (∀ uid ∈ s.added, uid ∉ s.removed → uid ∉ s.completed →
        (uids tasks).count uid = 1 ∧ running s.pc ≠ [uid] ∨ (uids tasks).count uid = 0 ∧ running s.pc = [uid]) ∧
      (∀ uid, s.destroyed.count uid = if uid ∈ s.removed ∨ uid ∈ s.completed then 1 else 0) ∧
      ∀ call s' returned, NoFailure s call → listScheduler.step s call s' → Leaves s s' returned →
        Contains comparFunc s'.scheduler.container tasks ∧ (tasks = [] ∨ s.paused = true) ∧
          returned = some (if tasks = [] then .finishAllWork else .stopped) := by
  obtain ⟨tasks, hcontains, hcounted⟩ := reachable_alive h
  have hplaces := hcounted.places
  have honce := hcounted.once
  refine ⟨tasks, hcontains, fun call henabled => ?_, fun uid hadded hremoved hcompleted => ?_, fun uid => ?_, ?_⟩
  · obtain ⟨s', -, hexec, -⟩ := exec_effect hcontains henabled
    rw [hexec]
    rfl
  · have hplace := hplaces uid
    have hpos := List.count_pos_iff.mpr hadded
    have hle := honce uid
    rw [List.count_eq_zero_of_not_mem hremoved, List.count_eq_zero_of_not_mem hcompleted] at hplace
    by_cases hruns : running s.pc = [uid]
    · right
      rw [hruns, List.count_singleton_self] at hplace
      exact ⟨by omega, hruns⟩
    · left
      have hzero : (running s.pc).count uid = 0 := by
        refine List.count_eq_zero_of_not_mem fun hmem => hruns ?_
        cases hpc : s.pc with
        | idle returned => rw [hpc] at hmem; cases hmem
        | turn => rw [hpc] at hmem; cases hmem
        | executing task => rw [hpc] at hmem; exact congrArg (fun v => [v]) (List.mem_singleton.mp hmem).symm
      exact ⟨by omega, hruns⟩
  · have hplace := hplaces uid
    have hle := honce uid
    rw [hcounted.destroyed]
    split
    · rename_i hgone
      rcases hgone with hgone | hgone
      · have hpos := List.count_pos_iff.mpr hgone
        omega
      · have hpos := List.count_pos_iff.mpr hgone
        omega
    · rename_i hgone
      obtain ⟨hremoved, hcompleted⟩ := not_or.mp hgone
      rw [List.count_eq_zero_of_not_mem hremoved, List.count_eq_zero_of_not_mem hcompleted]
  · rintro call s' returned hok hstep ⟨hin, hout⟩
    obtain ⟨s'', tasks', hexec, -, heffect⟩ := exec_effect hcontains hstep.1
    obtain rfl := Option.some.inj (hstep.2.symm.trans hexec)
    cases heffect with
    | left hends =>
        refine ⟨hcontains, ?_, (Pc.idle.inj hout).symm⟩
        exact hends.imp_right (hcounted.paused hin)
    | run => cases hout
    | dequeued => cases hout
    | again => cases hout
    | failed => exact absurd rfl hok
    | completed => cases hout
    | notCreated => exact absurd hout (hin _)
    | notEnqueued => exact absurd hout (hin _)
    | added => exact absurd hout (hin _)
    | removed => exact absurd hout (hin _)
    | notRemoved => exact absurd hout (hin _)
    | paused => exact absurd hout (hin _)
    | cleared => exact absurd hout (hin _)
    | clear => exact absurd hout (hin _)

/-- A task is added to a new scheduler, and waits. -/
theorem lifecycle_sample : ∃ (s : State (PQueue Task)) (tasks : List Task), s.added = [sampleUid 1] ∧
    ((uids tasks).count (sampleUid 1) = 1 ∧ running s.pc ≠ [sampleUid 1] ∨
      (uids tasks).count (sampleUid 1) = 0 ∧ running s.pc = [sampleUid 1]) := by
  have h₀ : listScheduler.Reachable NoFailure sampleStart := .init ⟨rfl, rfl, rfl, rfl, rfl, rfl, rfl, rfl⟩
  have hidle : sampleStart.pc ≠ .turn := by
    intro h
    cases h
  obtain ⟨container, -, h⟩ := reachable_add h₀ (contains_create comparFunc) hidle 10 0 (sampleUid 1)
    (fun address => ⟨⟨sampleUid 1, rfl, List.not_mem_nil⟩, Option.some_ne_none address⟩)
  obtain ⟨tasks, -, -, halive, -⟩ := lifecycle h
  exact ⟨_, tasks, rfl, halive _ (List.mem_singleton_self _) List.not_mem_nil List.not_mem_nil⟩

end Workbench.Sched
