import Workbench.Lib.Served
import Workbench.Sched.Effects

/-!
# `Sched.Order` — in which order tasks are executed

The comparator adds 1 to the difference of the times, so that a task is inserted behind the tasks with its time. But it
is inserted behind a task that is due one second later too, and behind or in front of others when the difference does
not fit into an `int`.

## Main results
* `order_step` — a step whose times allow it keeps the queue in order, `timesAllow_of_served` — and no other does;
* `dequeued_first` — then `SchedulerRun` dequeues a task with the least time that was enqueued first.
-/

namespace Workbench.Sched

open DoublyLinked

/-- The comparator goes past the tasks that are not later than `time`, and not past the next one. -/
def TimesAllow (time : Int) (tasks : List Task) : Prop :=
  (∀ u ∈ tasks, u.timeToExecute ≤ time → 0 ≤ toInt (time - u.timeToExecute + 1)) ∧
    ∀ u ∈ tasks, time < u.timeToExecute → (∀ v ∈ tasks, time < v.timeToExecute → u.timeToExecute ≤ v.timeToExecute) →
      toInt (time - u.timeToExecute + 1) < 0

/-- The times allow what the call enqueues. -/
def CallAllowed (s : State (PQueue Task)) : Call (Option Nat) → Prop
  | .add interval now (some _) (some _) => TimesAllow (toTimeT (now + interval)) s.enqueued
  | .returned status now (some _) => status = 0 →
      ∀ task, s.pc = .executing task → TimesAllow (toTimeT (now + task.interval)) s.enqueued
  | _ => True

/-- With differences that fit into an `int`, no task may be due one second later. -/
theorem timesAllow_iff {time : Int} {tasks : List Task}
    (hfits : ∀ u ∈ tasks, time - u.timeToExecute < 2147483647 ∧ u.timeToExecute - time ≤ 2147483648) :
    TimesAllow time tasks ↔ ∀ u ∈ tasks, u.timeToExecute ≠ time + 1 := by
  have htoInt : ∀ u ∈ tasks, toInt (time - u.timeToExecute + 1) = time - u.timeToExecute + 1 := by
    intro u hu
    have hu := hfits u hu
    exact Int.bmod_eq_of_le (by omega) (by omega)
  constructor
  · intro h u hu heq
    have hneg := h.2 u hu (by omega) (fun v _ hv => by omega)
    rw [htoInt u hu] at hneg
    omega
  · intro h
    refine ⟨fun u hu hle => ?_, fun u hu hlt _ => ?_⟩
    · rw [htoInt u hu]
      omega
    · have hne := h u hu
      rw [htoInt u hu]
      omega

/-- The queue is in order. -/
def InOrder (s : State (PQueue Task)) : Prop :=
  ∃ tasks, Contains comparFunc s.scheduler.container tasks ∧ Served Task.timeToExecute s.enqueued tasks

variable {s s' : State (PQueue Task)} {call : Call (Option Nat)} {tasks tasks' : List Task} {task : Task}

theorem TimesAllow.congr {time : Int} (h : TimesAllow time tasks) (hmem : ∀ u, u ∈ tasks' ↔ u ∈ tasks) :
    TimesAllow time tasks' := by
  refine ⟨fun u hu => h.1 u ((hmem u).mp hu), fun u hu hlt hleast => h.2 u ((hmem u).mp hu) hlt ?_⟩
  exact fun v hv => hleast v ((hmem v).mpr hv)

theorem stopsAt_iff : StopsAt Task.timeToExecute (fun u => decide (0 ≤ comparFunc u task)) task tasks ↔
    TimesAllow task.timeToExecute tasks := by
  constructor
  · intro h
    refine ⟨fun u hu hle => of_decide_eq_true (h.1 u hu hle), fun u hu hlt hleast => ?_⟩
    exact lt_of_not_ge (of_decide_eq_false (h.2 u hu hlt hleast))
  · intro h
    refine ⟨fun u hu hle => decide_eq_true (h.1 u hu hle), fun u hu hlt hleast => ?_⟩
    exact decide_eq_false (not_le_of_gt (h.2 u hu hlt hleast))

/-- A new task gets its place. -/
theorem served_insertSorted (h : Served Task.timeToExecute s.enqueued tasks)
    (hallow : TimesAllow task.timeToExecute s.enqueued) :
    Served Task.timeToExecute (s.enqueued ++ [task]) (insertSorted comparFunc task tasks) :=
  h.insert (stopsAt_iff.mpr (hallow.congr h.mem_iff))

/-- **No other times do**: a new task is in order only if the times allow it. -/
theorem timesAllow_of_served {enqueued : List Task} (h : Served Task.timeToExecute enqueued tasks)
    (hnew : task ∉ tasks)
    (hafter : Served Task.timeToExecute (enqueued ++ [task]) (insertSorted comparFunc task tasks)) :
    TimesAllow task.timeToExecute enqueued := by
  refine (stopsAt_iff.mp (hafter.stopsAt hnew ?_)).congr fun u => (h.mem_iff u).symm
  intro u _ v _ heq
  unfold comparFunc
  rw [heq]

/-- **A step keeps the queue in order**, if the times allow it. -/
theorem order_step (h : InOrder s) (hallowed : CallAllowed s call) (hstep : listScheduler.step s call s') :
    InOrder s' := by
  obtain ⟨tasks, hcontains, hserved⟩ := h
  obtain ⟨s'', tasks', hexec, hcontains', heffect⟩ := exec_effect hcontains hstep.1
  obtain rfl := Option.some.inj (hstep.2.symm.trans hexec)
  refine ⟨tasks', hcontains', ?_⟩
  cases heffect with
  | notCreated => exact hserved
  | notEnqueued => exact hserved
  | added container => exact served_insertSorted hserved hallowed
  | removed container hfind =>
      rw [eraseP_eq_erase hfind]
      exact hserved.erase _
  | notRemoved container hfind => exact hserved
  | paused => exact hserved
  | cleared container hcons =>
      subst hcons
      exact hserved.tail
  | clear hnil => exact hnil ▸ hserved
  | run => exact hserved
  | dequeued container hcons hflag =>
      subst hcons
      exact hserved.tail
  | left hends => exact hserved
  | again container hpc hstatus => exact served_insertSorted hserved (hallowed hstatus _ hpc)
  | failed hpc hstatus => exact hserved
  | completed hpc hstatus => exact hserved

/-- In every run the times of which allow it, the queue is in order. -/
theorem reachable_inOrder (h : listScheduler.Reachable CallAllowed s) : InOrder s := by
  refine System.invariant ?_ ?_ h
  · rintro s ⟨hcreated, -, henqueued, -⟩
    refine ⟨[], hcreated ▸ contains_create comparFunc, ?_⟩
    rw [henqueued]
    exact .nil
  · exact fun s call s' => order_step

/-- **The task that `SchedulerRun` dequeues** has the least time of all in the container, and was enqueued first of
    those with its time, in every run the times of which allow it. -/
theorem dequeued_first (h : listScheduler.Reachable CallAllowed s) (hstep : listScheduler.step s .turn s')
    (hpc : s'.pc = .executing task) :
    ∃ tasks, Contains comparFunc s.scheduler.container tasks ∧ tasks.Perm s.enqueued ∧
      (∀ u ∈ tasks, task.timeToExecute ≤ u.timeToExecute) ∧
      (s.enqueued.filter (fun u => decide (u.timeToExecute = task.timeToExecute))).head? = some task := by
  obtain ⟨tasks, hcontains, hserved⟩ := reachable_inOrder h
  obtain ⟨s'', tasks', hexec, -, heffect⟩ := exec_effect hcontains hstep.1
  obtain rfl := Option.some.inj (hstep.2.symm.trans hexec)
  refine ⟨tasks, hcontains, hserved.perm, ?_⟩
  cases heffect with
  | dequeued container hcons hflag =>
      obtain rfl := Pc.executing.inj hpc
      subst hcons
      obtain ⟨hleast, hfirst⟩ := hserved.head
      exact ⟨fun u hu => hleast u ((hserved.mem_iff u).mp hu), hfirst⟩
  | left hends => cases hpc

/-! ## Two runs -/

def sampleUid (counter : Nat) : Uid := ⟨1, 0, counter⟩

/-- A new scheduler. -/
def sampleStart : State (PQueue Task) := ⟨⟨pqCreate comparFunc, 0⟩, .idle none, [], [], [], [], [], false⟩

/-- Two tasks are added to a new scheduler at the time 0, and `SchedulerRun` dequeues one. -/
theorem reachable_two (ok : State (PQueue Task) → Call (Option Nat) → Prop) (i j : Nat)
    (hfirst : ∀ address, ok sampleStart (.add i 0 (some (sampleUid 1)) (some address)))
    (hsecond : ∀ s address, s.enqueued = [taskCreate i 0 (sampleUid 1)] →
      ok s (.add j 0 (some (sampleUid 2)) (some address))) (hrun : ∀ s, ok s .run) {t u : Task}
    (hsorted : insertSorted comparFunc (taskCreate j 0 (sampleUid 2)) [taskCreate i 0 (sampleUid 1)] = [t, u]) :
    ∃ s s', listScheduler.Reachable ok s ∧ listScheduler.step s .turn s' ∧ s'.pc = .executing t ∧
      pqPeek s'.scheduler.container = some u ∧
      s.enqueued = [taskCreate i 0 (sampleUid 1), taskCreate j 0 (sampleUid 2)] := by
  have h₀ : listScheduler.Reachable ok sampleStart := .init ⟨rfl, rfl, rfl, rfl, rfl, rfl, rfl, rfl⟩
  have hidle : sampleStart.pc ≠ .turn := by
    intro h
    cases h
  obtain ⟨container₁, hcontains₁, h₁⟩ := reachable_add h₀ (contains_create comparFunc) hidle i 0 (sampleUid 1) hfirst
  obtain ⟨container₂, hcontains₂, h₂⟩ :=
    reachable_add h₁ hcontains₁ hidle j 0 (sampleUid 2) (fun address => hsecond _ address rfl)
  obtain ⟨s, h₃, hs⟩ : ∃ s, listScheduler.Reachable ok s ∧ s = _ :=
    ⟨_, h₂.step (a := .run) (hrun _) ⟨⟨_, rfl⟩, rfl⟩, rfl⟩
  have hcontains₃ : Contains comparFunc s.scheduler.container [t, u] := by
    rw [hs, ← hsorted]
    exact hcontains₂
  have henabled : Enabled listPqueue s .turn := by
    rw [hs]
    rfl
  obtain ⟨s', tasks', hexec, hcontains', heffect⟩ := exec_effect hcontains₃ henabled
  refine ⟨s, s', h₃, ⟨henabled, hexec⟩, ?_⟩
  cases heffect with
  | dequeued container hcons hflag =>
      obtain ⟨rfl, rfl⟩ := List.cons.inj hcons
      exact ⟨rfl, hcontains'.depqueue.1, by rw [hs]; rfl⟩
  | left hends =>
      rcases hends with hnil | hflag
      · cases hnil
      · rw [hs] at hflag
        exact absurd rfl hflag

/-- A task that is due at 11 is executed, while one that is due at 10 waits. -/
theorem dequeued_late : ∃ s s' task u, listScheduler.Reachable System.Any s ∧ listScheduler.step s .turn s' ∧
    s'.pc = .executing task ∧ pqPeek s'.scheduler.container = some u ∧ u.timeToExecute < task.timeToExecute := by
  obtain ⟨s, s', h, hstep, hpc, hpeek, -⟩ := reachable_two System.Any 11 10 (fun _ => trivial)
    (fun _ _ _ => trivial) (fun _ => trivial) (t := taskCreate 11 0 (sampleUid 1)) (u := taskCreate 10 0 (sampleUid 2))
    (by decide)
  exact ⟨s, s', _, _, h, hstep, hpc, hpeek, by decide⟩

/-- Of two tasks that are due at 10, the one that was enqueued first is executed first. -/
theorem dequeued_first_sample : ∃ s s' : State (PQueue Task), s'.pc = .executing (taskCreate 10 0 (sampleUid 1)) ∧
    ∃ tasks, Contains comparFunc s.scheduler.container tasks ∧ tasks.Perm s.enqueued ∧
      (∀ u ∈ tasks, 10 ≤ u.timeToExecute) ∧
      (s.enqueued.filter (fun u => decide (u.timeToExecute = 10))).head? =
        some (taskCreate 10 0 (sampleUid 1)) := by
  have hempty : TimesAllow (toTimeT (0 + 10)) [] :=
    ⟨fun u hu => absurd hu List.not_mem_nil, fun u hu => absurd hu List.not_mem_nil⟩
  have hone : TimesAllow (toTimeT (0 + 10)) [taskCreate 10 0 (sampleUid 1)] := by
    have htime : toTimeT (0 + 10) = 10 := by decide
    have htask : (taskCreate 10 0 (sampleUid 1)).timeToExecute = 10 := by decide
    rw [htime]
    refine (timesAllow_iff ?_).mpr ?_
    · intro u hu
      rw [List.mem_singleton.mp hu, htask]
      omega
    · intro u hu
      rw [List.mem_singleton.mp hu, htask]
      omega
  obtain ⟨s, s', h, hstep, hpc, -, -⟩ := reachable_two CallAllowed 10 10 (fun _ => hempty)
    (fun s _ hs => by
      show TimesAllow (toTimeT (0 + 10)) s.enqueued
      rw [hs]
      exact hone)
    (fun _ => trivial) (t := taskCreate 10 0 (sampleUid 1)) (u := taskCreate 10 0 (sampleUid 2)) (by decide)
  exact ⟨s, s', hpc, dequeued_first h hstep hpc⟩

end Workbench.Sched
