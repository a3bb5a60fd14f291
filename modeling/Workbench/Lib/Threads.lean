import Mathlib.Algebra.Order.BigOperators.Group.Finset
import Workbench.Lib.System

/-!
# `Lib.Threads` — threads that take steps in any order

Each thread is at a place of its program. A step is a step of one thread. A mutex has the thread that holds it, and
what threads have on the way is counted by a weight of their places.

## Main results
* `exists_reachable` — the state at the end of a schedule is reachable;
* `schedule_length_le` — a schedule comes to its end, if each step makes a measure smaller;
* `Guards` — the thread in the critical section is the one that holds the mutex;
* `tally_update` — how a count changes when one thread goes on.
-/

namespace Workbench

variable {σ ι : Type}

/-- Threads that each have at most one next step. -/
def System.ofThreads (init : σ → Prop) (step : σ → ι → Option σ) : System σ ι where
  init := init
  step s i s' := step s i = some s'

/-- The state at the end of a schedule whose steps meet the condition `ok`. -/
def System.run (step : σ → ι → Option σ) (ok : σ → ι → Prop) [∀ s i, Decidable (ok s i)] (schedule : List ι) (s : σ) :
    Option σ :=
  schedule.foldlM (fun s i => if ok s i then step s i else none) s

theorem System.Reachable.schedule {init : σ → Prop} {step : σ → ι → Option σ} {ok : σ → ι → Prop}
    [∀ s i, Decidable (ok s i)] {schedule : List ι} {s s' : σ} (h : (ofThreads init step).Reachable ok s)
    (hrun : run step ok schedule s = some s') : (ofThreads init step).Reachable ok s' := by
  induction schedule generalizing s with
  | nil =>
      obtain rfl := Option.some.inj hrun
      exact h
  | cons i schedule ih =>
      rw [run, List.foldlM_cons] at hrun
      obtain ⟨t, hstep, hrest⟩ := Option.bind_eq_some_iff.mp hrun
      obtain ⟨hok, hstep⟩ := Option.ite_none_right_eq_some.mp hstep
      exact ih (h.step hok hstep) hrest

/-- **A schedule that ends in a state with the property `p`.** -/
theorem System.exists_reachable (init : σ → Prop) (step : σ → ι → Option σ) (ok : σ → ι → Prop)
    [∀ s i, Decidable (ok s i)] {s : σ} (hinit : init s) (schedule : List ι) (p : σ → Bool)
    (hrun : (run step ok schedule s).any p = true) : ∃ s', (ofThreads init step).Reachable ok s' ∧ p s' = true := by
  obtain ⟨s', hs', hp⟩ := (Option.any_eq_true _ _).mp hrun
  exact ⟨s', (Reachable.init hinit).schedule hs', hp⟩

/-- What is kept by each step of a schedule holds at its end. -/
theorem System.schedule_invariant {step : σ → ι → Option σ} {ok : σ → ι → Prop} [∀ s i, Decidable (ok s i)]
    {Inv : σ → Prop} (hkeep : ∀ s i s', Inv s → ok s i → step s i = some s' → Inv s') {schedule : List ι} {s s' : σ}
    (h : Inv s) (hrun : run step ok schedule s = some s') : Inv s' := by
  induction schedule generalizing s with
  | nil =>
      obtain rfl := Option.some.inj hrun
      exact h
  | cons i schedule ih =>
      rw [run, List.foldlM_cons] at hrun
      obtain ⟨t, hstep, hrest⟩ := Option.bind_eq_some_iff.mp hrun
      obtain ⟨hok, hstep⟩ := Option.ite_none_right_eq_some.mp hstep
      exact ih (hkeep s i t h hok hstep) hrest

/-- **A schedule is not longer than the measure says**, if each step makes it smaller. -/
theorem System.schedule_length_le {step : σ → ι → Option σ} {ok : σ → ι → Prop} [∀ s i, Decidable (ok s i)]
    (measure : σ → Nat) (hlt : ∀ s i s', ok s i → step s i = some s' → measure s' < measure s) {schedule : List ι}
    {s s' : σ} (hrun : run step ok schedule s = some s') : schedule.length + measure s' ≤ measure s := by
  induction schedule generalizing s with
  | nil =>
      obtain rfl := Option.some.inj hrun
      rw [List.length_nil, Nat.zero_add]
  | cons i schedule ih =>
      rw [run, List.foldlM_cons] at hrun
      obtain ⟨t, hstep, hrest⟩ := Option.bind_eq_some_iff.mp hrun
      obtain ⟨hok, hstep⟩ := Option.ite_none_right_eq_some.mp hstep
      have hrest := ih hrest
      have hless := hlt s i t hok hstep
      rw [List.length_cons]
      omega

variable {P : Type} {pc : ι → P} {i j : ι} {q : P}

/-! ## Mutexes -/

/-- The threads that are in the critical section are those that hold the mutex. -/
def Guards (inside : P → Bool) (pc : ι → P) (mutex : Option ι) : Prop :=
  ∀ i, inside (pc i) = true ↔ mutex = some i

namespace Guards

variable {inside : P → Bool} {mutex : Option ι}

theorem free (h : ∀ i, inside (pc i) = false) : Guards inside pc none := by
  intro i
  simp [h i]

/-- Only one thread is in the critical section. -/
theorem unique (h : Guards inside pc mutex) (hi : inside (pc i) = true) (hj : inside (pc j) = true) : i = j :=
  Option.some.inj (((h i).mp hi).symm.trans ((h j).mp hj))

variable [DecidableEq ι] {p : P}

theorem lock (h : Guards inside pc mutex) (hfree : mutex = none) (hq : inside q = true) :
    Guards inside (Function.update pc i q) (some i) := by
  intro j
  by_cases hj : j = i
  · subst hj
    simp [hq]
  · rw [Function.update_of_ne hj, h j, hfree]
    simp [Ne.symm hj]

theorem unlock (h : Guards inside pc mutex) (hpc : pc i = p) (hp : inside p = true) (hq : inside q = false) :
    Guards inside (Function.update pc i q) none := by
  intro j
  by_cases hj : j = i
  · subst hj
    simp [hq]
  · rw [Function.update_of_ne hj]
    have hout : inside (pc j) ≠ true := fun hin => hj (h.unique hin (by rw [hpc, hp]))
    simp [hout]

/-- A thread goes on, and stays inside or outside. -/
theorem goes (h : Guards inside pc mutex) (hpc : pc i = p) (hq : inside q = inside p) :
    Guards inside (Function.update pc i q) mutex := by
  intro j
  by_cases hj : j = i
  · subst hj
    rw [Function.update_self, hq, ← hpc]
    exact h j
  · rw [Function.update_of_ne hj]
    exact h j

end Guards

/-! ## Turns -/

/-- The threads that locked a mutex, in order: those that are done, and one that is not done yet. -/
def Turns (busy : P → Bool) (pc : ι → P) (mutex : Option ι) (locked done : List ι) : Prop :=
  locked = done ++ mutex.toList.filter fun i => busy (pc i)

namespace Turns

variable {busy : P → Bool} {mutex : Option ι} {locked done : List ι} {p : P}

theorem isPrefix (h : Turns busy pc mutex locked done) : done <+: locked := ⟨_, h.symm⟩

variable [DecidableEq ι]

theorem lock (h : Turns busy pc mutex locked done) (hfree : mutex = none) (hq : busy q = true) :
    Turns busy (Function.update pc i q) (some i) (locked ++ [i]) done := by
  have hlocked := h
  rw [Turns, hfree] at hlocked
  rw [Turns, hlocked]
  simp [hq]

theorem finish (h : Turns busy pc mutex locked done) (hmutex : mutex = some i) (hpc : pc i = p) (hp : busy p = true)
    (hq : busy q = false) : Turns busy (Function.update pc i q) mutex locked (done ++ [i]) := by
  have hlocked := h
  rw [Turns, hmutex] at hlocked
  rw [Turns, hlocked, hmutex]
  simp [hpc, hp, hq]

theorem unlock (h : Turns busy pc mutex locked done) (hmutex : mutex = some i) (hpc : pc i = p) (hp : busy p = false) :
    Turns busy (Function.update pc i q) none locked done := by
  have hlocked := h
  rw [Turns, hmutex] at hlocked
  rw [Turns, hlocked]
  simp [hpc, hp]

theorem goes (h : Turns busy pc mutex locked done) (hpc : pc i = p) (hq : busy q = busy p) :
    Turns busy (Function.update pc i q) mutex locked done := by
  have hsame : (fun j => busy (Function.update pc i q j)) = fun j => busy (pc j) := by
    funext j
    by_cases hj : j = i
    · subst hj
      rw [Function.update_self, hq, hpc]
    · rw [Function.update_of_ne hj]
  rw [Turns, hsame]
  exact h

end Turns

/-! ## Counting -/

variable [Fintype ι]

/-- What all threads have together. -/
def tally (weight : P → Nat) (pc : ι → P) : Nat := ∑ i, weight (pc i)

variable {weight : P → Nat}

theorem tally_zero (h : ∀ i, weight (pc i) = 0) : tally weight pc = 0 := Finset.sum_eq_zero fun i _ => h i

theorem le_tally (i : ι) : weight (pc i) ≤ tally weight pc :=
  Finset.single_le_sum (f := fun j => weight (pc j)) (fun _ _ => Nat.zero_le _) (Finset.mem_univ i)

/-- Only one thread has something. -/
theorem tally_single (h : ∀ j ≠ i, weight (pc j) = 0) : tally weight pc = weight (pc i) :=
  Finset.sum_eq_single i (fun j _ hj => h j hj) fun hi => absurd (Finset.mem_univ i) hi

/-- What only the thread in the critical section has. -/
theorem Guards.tally {inside : P → Bool} {mutex : Option ι} {p : P} (h : Guards inside pc mutex) (hpc : pc i = p)
    (hp : inside p = true) (hout : ∀ q, inside q = false → weight q = 0) : tally weight pc = weight p := by
  rw [tally_single (i := i), hpc]
  intro j hj
  refine hout (pc j) (Bool.eq_false_iff.mpr fun hin => hj (h.unique hin ?_))
  rw [hpc, hp]

/-- Nobody is in the critical section. -/
theorem Guards.tally_free {inside : P → Bool} {mutex : Option ι} (h : Guards inside pc mutex) (hfree : mutex = none)
    (hout : ∀ q, inside q = false → weight q = 0) : Workbench.tally weight pc = 0 := by
  refine tally_zero fun i => hout (pc i) (Bool.eq_false_iff.mpr fun hin => ?_)
  rw [h i, hfree] at hin
  cases hin

/-- **One thread goes on**: what it had is replaced. -/
theorem tally_update [DecidableEq ι] (weight : P → Nat) (pc : ι → P) (i : ι) (q : P) :
    tally weight (Function.update pc i q) + weight (pc i) = tally weight pc + weight q := by
  have hnew := Finset.add_sum_erase Finset.univ (fun j => weight (Function.update pc i q j)) (Finset.mem_univ i)
  have hold := Finset.add_sum_erase Finset.univ (fun j => weight (pc j)) (Finset.mem_univ i)
  have hothers : ∑ j ∈ Finset.univ.erase i, weight (Function.update pc i q j) =
      ∑ j ∈ Finset.univ.erase i, weight (pc j) :=
    Finset.sum_congr rfl fun j hj => by rw [Function.update_of_ne (Finset.ne_of_mem_erase hj)]
  simp only [Function.update_self] at hnew
  unfold tally
  omega

end Workbench
