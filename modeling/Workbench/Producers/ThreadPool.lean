import Mathlib.Data.Fintype.Basic
import Workbench.Lib.Threads

/-!
# `Producers.ThreadPool` — `ThreadPool`, and what a pause does not stop

A worker tests under a mutex whether the pool is paused. It takes a task later, from a queue with a mutex of its own. A
worker that is past the test when the pool is paused may still take a task.

## Contents
* `Pc`, `State`, `step` — where a thread is, the pool, and the step of one thread;
* `Quiet` — no worker starts on a task that was added in the pause;
* `late_start` — a worker may start on such a task;
* `quiet_of_settled` — it does not, if no task is added in a pause while a worker is past its test.
-/

namespace Workbench.Producers.Pool

variable {ι : Type}

inductive Priority
  | low
  | normal
  | high
  | first
  deriving DecidableEq

def Priority.toNat : Priority → Nat
  | low => 1
  | normal => 2
  | high => 3
  | first => 4

inductive Status
  | run
  | pause
  | stop
  deriving DecidableEq

/-- A task in the queue: its priority, and the number of the call of `Add`. -/
structure Entry where
  priority : Priority
  number : Nat
  deriving DecidableEq

/-- The calls of a client. -/
inductive Call
  | add (priority : Priority)
  | run
  | pause
  deriving DecidableEq

/-- What a thread does next. -/
inductive Pc
  /-- A client, between its calls. -/
  | client
  /-- A worker locks `m_mutex`. -/
  | lock
  /-- It compares the state with `PAUSE`. -/
  | testPause
  /-- It compares the state with `RUN`, after the queue was empty. -/
  | testEmpty
  | testRun
  | wait
  | waiting
  | relock
  | unlock
  | pop
  | callDo (task : Entry)
  deriving DecidableEq

structure State (ι : Type) where
  tasks : List Entry
  status : Status
  mutex : Option ι
  calls : ι → List Call
  pc : ι → Pc
  /-- How often `Add` pushed a task. -/
  added : Nat
  /-- How often it did when `Pause` returned, until the next `Run`. -/
  pausedAt : Option Nat

/-- The queue gives a task of the highest priority. -/
def front (tasks : List Entry) (i : Nat) : Option Entry := do
  let task ← tasks[i]?
  if tasks.all fun other => other.priority.toNat ≤ task.priority.toNat then some task else none

namespace State

def add (s : State ι) (priority : Priority) : State ι :=
  { s with tasks := s.tasks ++ [⟨priority, s.added⟩], added := s.added + 1 }

def run (s : State ι) : State ι := { s with status := .run, pausedAt := none }

def pause (s : State ι) : State ι := { s with status := .pause, pausedAt := some (s.pausedAt.getD s.added) }

end State

variable [DecidableEq ι]

def State.goto (s : State ι) (t : ι) (p : Pc) : State ι := { s with pc := Function.update s.pc t p }

/-- The step of the thread `t`. Which of the tasks of the highest priority is the front one depends on addresses: it is
    the task at `i`. A worker that waits may be woken at any time, by a notification or spuriously. -/
def step (s : State ι) : ι × Nat → Option (State ι)
  | (t, i) =>
    match s.pc t with
    | .client =>
        match s.calls t with
        | [] => none
        | .add priority :: calls => some { s.add priority with calls := Function.update s.calls t calls }
        | .run :: calls => some { s.run with calls := Function.update s.calls t calls }
        | .pause :: calls => some { s.pause with calls := Function.update s.calls t calls }
    | .lock | .relock => if s.mutex = none then some ({ s with mutex := some t }.goto t .testPause) else none
    | .testPause => some (s.goto t (if s.status = .pause then .wait else .testEmpty))
    | .testEmpty => some (s.goto t (if s.tasks.isEmpty then .testRun else .unlock))
    | .testRun => some (s.goto t (if s.status = .run then .wait else .unlock))
    | .wait => some ({ s with mutex := none }.goto t .waiting)
    | .waiting => some (s.goto t .relock)
    | .unlock => some ({ s with mutex := none }.goto t .pop)
    | .pop => do
        let task ← front s.tasks i
        return { s with tasks := s.tasks.eraseIdx i }.goto t (.callDo task)
    | .callDo _ => some (s.goto t .lock)

/-- A new pool, its workers, and clients with their calls. -/
def Start (s : State ι) : Prop :=
  ∃ calls pc, (∀ t, pc t = .client ∨ pc t = .lock) ∧ s = ⟨[], .pause, none, calls, pc, 0, none⟩

/-- The runs of the pool. -/
def program (ι : Type) [DecidableEq ι] : System (State ι) (ι × Nat) := .ofThreads Start step

/-- **No worker starts on a task that was added in the pause.** -/
def Quiet (s : State ι) : Prop :=
  ∀ t task, s.pc t = .callDo task → ∀ n, s.pausedAt = some n → task.number < n

/-- Both workers find one task and are past their tests. One takes it, the pool is paused, and the other worker takes
    what is added then. -/
theorem late_start : ∃ s : State (Fin 3), (program (Fin 3)).Reachable System.Any s ∧ ¬ Quiet s := by
  obtain ⟨s, hreachable, hstate⟩ := System.exists_reachable Start step System.Any
    ⟨fun t => if t = (0 : Fin 3) then [.add .normal, .run, .pause, .add .normal] else [],
      fun t => if t = 0 then .client else .lock, fun t => by by_cases ht : t = 0 <;> simp [ht], rfl⟩
    [(0, 0), (0, 0), (1, 0), (1, 0), (1, 0), (1, 0), (2, 0), (2, 0), (2, 0), (2, 0), (1, 0), (0, 0), (0, 0), (2, 0)]
    (fun s => decide (s.pc 2 = .callDo ⟨.normal, 1⟩ ∧ s.pausedAt = some 1)) (by decide)
  obtain ⟨hpc, hpaused⟩ := of_decide_eq_true hstate
  exact ⟨s, hreachable, fun hquiet => absurd (hquiet 2 _ hpc 1 hpaused) (Nat.lt_irrefl 1)⟩

/-! ## Runs where the workers settle before a task is added -/

namespace Pc

/-- The worker found the pool not paused, and has not taken a task yet. -/
def past : Pc → Bool
  | testEmpty | testRun | unlock | pop => true
  | _ => false

/-- The task that the worker starts on next. -/
def starts : Pc → Option Entry
  | callDo task => some task
  | _ => none

end Pc

/-- The thread calls `Add`. -/
def adds (s : State ι) (t : ι) : Prop :=
  s.pc t = .client ∧ (s.calls t).head?.any fun call => call ≠ .run ∧ call ≠ .pause

/-- **The workers settled**: while the pool is paused, a task is added only when no worker is past its test. -/
def Settled (s : State ι) (a : ι × Nat) : Prop :=
  adds s a.1 → s.pausedAt.isSome = true → ∀ u, (s.pc u).past = false

instance [Fintype ι] (s : State ι) (a : ι × Nat) : Decidable (Settled s a) :=
  inferInstanceAs (Decidable (_ ∧ _ → _ → _))

variable {s s' : State ι} {t : ι} {p q : Pc}

/-- The invariant: what is added in the pause stays in the queue, and then no worker is past its test. -/
structure Inv (s : State ι) : Prop where
  queued : ∀ task ∈ s.tasks, task.number < s.added
  started : ∀ t task, (s.pc t).starts = some task → task.number < s.added
  status : s.pausedAt.isSome = true → s.status = .pause
  early : ∀ n, s.pausedAt = some n → n ≤ s.added ∧ ∀ t task, (s.pc t).starts = some task → task.number < n
  settled : ∀ n, s.pausedAt = some n → n < s.added → ∀ t, (s.pc t).past = false

omit [DecidableEq ι] in
theorem Inv.calls (h : Inv s) (calls : ι → List Call) : Inv { s with calls } :=
  ⟨h.queued, h.started, h.status, h.early, h.settled⟩

omit [DecidableEq ι] in
theorem Inv.add (h : Inv s) {priority : Priority}
    (hsettled : s.pausedAt.isSome = true → ∀ u, (s.pc u).past = false) : Inv (s.add priority) where
  queued task htask := by
    rcases List.mem_append.mp htask with hold | hnew
    · exact Nat.lt_succ_of_lt (h.queued task hold)
    · rw [List.mem_singleton.mp hnew]
      exact Nat.lt_succ_self _
  started u task hu := Nat.lt_succ_of_lt (h.started u task hu)
  status := h.status
  early n hn := ⟨Nat.le_succ_of_le (h.early n hn).1, (h.early n hn).2⟩
  settled n hn _ := hsettled (by rw [show s.pausedAt = some n from hn]; rfl)

omit [DecidableEq ι] in
theorem Inv.run (h : Inv s) : Inv s.run where
  queued := h.queued
  started := h.started
  status hsome := by cases hsome
  early n hn := by cases hn
  settled n hn := by cases hn

omit [DecidableEq ι] in
theorem Inv.pause (h : Inv s) : Inv s.pause := by
  cases hpaused : s.pausedAt with
  | none =>
      -- nothing is added in the pause yet
      have hnew : s.pause.pausedAt = some s.added := by rw [State.pause, hpaused, Option.getD_none]
      refine ⟨h.queued, h.started, fun _ => rfl, fun n hn => ?_, fun n hn hlt => ?_⟩
      · obtain rfl := Option.some.inj (hnew.symm.trans hn)
        exact ⟨Nat.le_refl _, h.started⟩
      · obtain rfl := Option.some.inj (hnew.symm.trans hn)
        exact absurd hlt (Nat.lt_irrefl _)
  | some m =>
      have hsame : s.pause.pausedAt = s.pausedAt := by rw [State.pause, hpaused, Option.getD_some]
      refine ⟨h.queued, h.started, fun _ => rfl, ?_, ?_⟩
      · rw [hsame]
        exact h.early
      · rw [hsame]
        exact h.settled

/-- A worker goes on, and does not start on a task. -/
theorem Inv.goes (h : Inv s) (hold : s.pc t = p) (hnew : s'.pc = Function.update s.pc t q)
    (hsame : (s'.tasks, s'.status, s'.added, s'.pausedAt) = (s.tasks, s.status, s.added, s.pausedAt))
    (hstarts : q.starts = none) (hpast : q.past = true → p.past = true ∨ s.pausedAt = none) : Inv s' := by
  simp only [Prod.mk.injEq] at hsame
  obtain ⟨htasks, hstatus, hadded, hpausedAt⟩ := hsame
  have hothers : ∀ u task, (s'.pc u).starts = some task → (s.pc u).starts = some task := by
    intro u task hu
    by_cases hut : u = t
    · rw [hnew, hut, Function.update_self, hstarts] at hu
      cases hu
    · rwa [hnew, Function.update_of_ne hut] at hu
  refine ⟨?_, ?_, ?_, ?_, ?_⟩
  · rw [htasks, hadded]
    exact h.queued
  · rw [hadded]
    exact fun u task hu => h.started u task (hothers u task hu)
  · rw [hpausedAt, hstatus]
    exact h.status
  · rw [hpausedAt, hadded]
    exact fun n hn => ⟨(h.early n hn).1, fun u task hu => (h.early n hn).2 u task (hothers u task hu)⟩
  · rw [hpausedAt, hadded]
    intro n hn hlt u
    by_cases hut : u = t
    · rw [hnew, hut, Function.update_self]
      refine Bool.eq_false_iff.mpr fun hq => ?_
      rcases hpast hq with hp | hnone
      · have hsettled := h.settled n hn hlt t
        rw [hold, hp] at hsettled
        cases hsettled
      · rw [hn] at hnone
        cases hnone
    · rw [hnew, Function.update_of_ne hut]
      exact h.settled n hn hlt u

theorem Inv.pop (h : Inv s) {i : Nat} {task : Entry} (hpc : s.pc t = .pop) (htask : task ∈ s.tasks) :
    Inv ({ s with tasks := s.tasks.eraseIdx i }.goto t (.callDo task)) := by
  have hnumber := h.queued task htask
  have hpc' : ∀ u task', (Function.update s.pc t (.callDo task) u).starts = some task' →
      task' = task ∨ (s.pc u).starts = some task' := by
    intro u task' hu
    by_cases hut : u = t
    · rw [hut, Function.update_self] at hu
      exact .inl (Option.some.inj hu).symm
    · rw [Function.update_of_ne hut] at hu
      exact .inr hu
  refine ⟨fun other hother => h.queued other (List.mem_of_mem_eraseIdx hother), fun u task' hu => ?_, h.status,
    fun n hn => ⟨(h.early n hn).1, fun u task' hu => ?_⟩, fun n hn hlt u => ?_⟩
  · rcases hpc' u task' hu with rfl | hu
    · exact hnumber
    · exact h.started u task' hu
  · rcases hpc' u task' hu with rfl | hu
    · -- this worker is past its test, so that nothing was added in the pause
      have hnone : ¬ n < s.added := fun hlt => by
        have hsettled := h.settled n hn hlt t
        rw [hpc] at hsettled
        cases hsettled
      omega
    · exact (h.early n hn).2 u task' hu
  · have hsettled := h.settled n hn hlt t
    rw [hpc] at hsettled
    cases hsettled

theorem front_mem {tasks : List Entry} {i : Nat} {task : Entry} (h : front tasks i = some task) : task ∈ tasks := by
  obtain ⟨task', hget, hfront⟩ := Option.bind_eq_some_iff.mp h
  obtain ⟨-, heq⟩ := Option.ite_none_right_eq_some.mp hfront
  obtain rfl := Option.some.inj heq
  exact List.mem_of_getElem? hget

theorem Inv.step (h : Inv s) {i : Nat} (hsettled : Settled s (t, i)) (hstep : step s (t, i) = some s') : Inv s' := by
  cases hpc : s.pc t <;>
    simp only [Pool.step, hpc, Option.ite_none_right_eq_some, Option.some.injEq] at hstep
  case client =>
    cases hcalls : s.calls t with
    | nil =>
        rw [hcalls] at hstep
        cases hstep
    | cons call calls =>
        rw [hcalls] at hstep
        cases call with
        | add priority =>
            obtain rfl := Option.some.inj hstep
            have hadds : adds s t := ⟨hpc, by rw [hcalls]; simp⟩
            exact (h.add (hsettled hadds)).calls _
        | run =>
            obtain rfl := Option.some.inj hstep
            exact h.run.calls _
        | pause =>
            obtain rfl := Option.some.inj hstep
            exact h.pause.calls _
  case lock | relock =>
    obtain ⟨-, rfl⟩ := hstep
    exact h.goes hpc rfl rfl rfl fun hq => by cases hq
  case testPause =>
    by_cases hpause : s.status = .pause
    · rw [if_pos hpause] at hstep
      subst hstep
      exact h.goes hpc rfl rfl rfl fun hq => by cases hq
    · rw [if_neg hpause] at hstep
      subst hstep
      exact h.goes hpc rfl rfl rfl fun _ => .inr (Option.not_isSome_iff_eq_none.mp fun hsome => hpause (h.status hsome))
  case testEmpty =>
    subst hstep
    by_cases hempty : s.tasks.isEmpty = true
    · rw [if_pos hempty]
      exact h.goes hpc rfl rfl rfl fun _ => .inl rfl
    · rw [if_neg hempty]
      exact h.goes hpc rfl rfl rfl fun _ => .inl rfl
  case testRun =>
    subst hstep
    by_cases hrun : s.status = .run
    · rw [if_pos hrun]
      exact h.goes hpc rfl rfl rfl fun _ => .inl rfl
    · rw [if_neg hrun]
      exact h.goes hpc rfl rfl rfl fun _ => .inl rfl
  case wait | waiting | callDo =>
    subst hstep
    exact h.goes hpc rfl rfl rfl fun hq => by cases hq
  case unlock =>
    subst hstep
    exact h.goes hpc rfl rfl rfl fun _ => .inl rfl
  case pop =>
    obtain ⟨task, hfront, hstep⟩ := Option.bind_eq_some_iff.mp hstep
    obtain rfl := Option.some.inj hstep
    exact h.pop hpc (front_mem hfront)

omit [DecidableEq ι] in
theorem inv_start (hstart : Start s) : Inv s := by
  obtain ⟨calls, pc, hpc, rfl⟩ := hstart
  refine ⟨fun task htask => absurd htask List.not_mem_nil, fun t task ht => ?_, fun hsome => ?_, fun n hn => ?_,
    fun n hn => ?_⟩
  · rcases hpc t with hclient | hlock
    · dsimp only at ht
      rw [hclient] at ht
      cases ht
    · dsimp only at ht
      rw [hlock] at ht
      cases ht
  · cases hsome
  · cases hn
  · cases hn

/-- **No worker starts on a task that was added in the pause**, if the workers settle before one is added. -/
theorem quiet_of_settled (h : (program ι).Reachable Settled s) : Quiet s := by
  have hinv : Inv s := System.invariant (fun _ h => inv_start h) (fun _ _ _ h hsettled hstep => h.step hsettled hstep) h
  intro t task hpc n hn
  exact (hinv.early n hn).2 t task (by rw [hpc]; rfl)

/-- A worker takes its task in the pause, and the task that is added then stays in the queue. -/
theorem quiet_sample : ∃ s : State (Fin 2), s.pc 1 = .callDo ⟨.normal, 0⟩ ∧ s.pausedAt = some 1 ∧
    s.tasks = [⟨.high, 1⟩] ∧ Quiet s := by
  obtain ⟨s, hreachable, hstate⟩ := System.exists_reachable Start step Settled
    ⟨fun t => if t = (0 : Fin 2) then [.add .normal, .run, .pause, .add .high] else [],
      fun t => if t = 0 then .client else .lock, fun t => by by_cases ht : t = 0 <;> simp [ht], rfl⟩
    [(0, 0), (0, 0), (1, 0), (1, 0), (1, 0), (1, 0), (0, 0), (1, 0), (0, 0)]
    (fun s => decide (s.pc 1 = .callDo ⟨.normal, 0⟩ ∧ s.pausedAt = some 1 ∧ s.tasks = [⟨.high, 1⟩])) (by decide)
  obtain ⟨hpc, hpaused, htasks⟩ := of_decide_eq_true hstate
  exact ⟨s, hpc, hpaused, htasks, quiet_of_settled hreachable⟩

end Workbench.Producers.Pool
