import Workbench.Bios.Reload

/-!
# `Bios.Cycles` — what holds after any number of update cycles

A run of cycles is a run of `Progress.exec`s (`runCycles_fresh`), so its results are read off the progress
and its history of executions. `Tells g log` is the invariant that ties the two: the log executed every
action as often as `g` says, in order, and never again once it succeeded.

## Main results
* `cycles_sound` — the shape of the plan and of the whole history at the end of every cycle;
* `reload_plan` — saving and loading any reachable plan gives the same plan back.
-/

namespace Workbench.Bios

open Python

namespace Progress

variable {base : PyDict} {n max : Nat}

/-! ## The history of a progress -/

/-- `log` is a possible history of the progress `g`. -/
structure Tells (g : Progress n max) (log : List Execution) : Prop where
  count : ∀ i, log.countP (fun e => e.index == i) = g.attemptsAt i
  sorted : log.Pairwise (fun a b => a.index ≤ b.index)
  once : log.Pairwise (fun a b => a.succeeded = true → a.index < b.index)
  bound : ∀ e ∈ log, e.index ≤ g.done.length
  succeeded : ∀ e ∈ log, e.succeeded = true → e.index < g.done.length

theorem tells_init : Tells (init n max) [] where
  count := by
    intro i
    unfold attemptsAt
    split
    · rfl
    · split <;> rfl
  sorted := List.Pairwise.nil
  once := List.Pairwise.nil
  bound := by simp
  succeeded := by simp

/-- One more entry about the current action keeps the history sorted and without repetition. -/
theorem Tells.snoc_pairwise {g : Progress n max} {log : List Execution} (h : Tells g log) (b : Bool) :
    (log ++ [(⟨g.done.length, b⟩ : Execution)]).Pairwise (fun a c => a.index ≤ c.index) ∧
      (log ++ [(⟨g.done.length, b⟩ : Execution)]).Pairwise
        (fun a c => a.succeeded = true → a.index < c.index) := by
  constructor
  · refine List.pairwise_append.mpr ⟨h.sorted, List.pairwise_singleton _ _, fun a ha e he => ?_⟩
    obtain rfl := List.mem_singleton.mp he
    exact h.bound a ha
  · refine List.pairwise_append.mpr ⟨h.once, List.pairwise_singleton _ _, fun a ha e he hs => ?_⟩
    obtain rfl := List.mem_singleton.mp he
    exact h.succeeded a ha hs

/-- Counting one more execution of the current action. -/
theorem Tells.snoc_count {g : Progress n max} {log : List Execution} (h : Tells g log) (b : Bool)
    (i : Nat) : (log ++ [(⟨g.done.length, b⟩ : Execution)]).countP (fun e => e.index == i) =
      Function.update g.attemptsAt g.done.length (g.attempts + 1) i := by
  rw [List.countP_append, h.count i]
  by_cases hi : i = g.done.length
  · subst hi
    simp [attemptsAt_self]
  · rw [Function.update_of_ne hi]
    simp [Ne.symm hi]

theorem tells_succeed {g : Progress n max} {log : List Execution} (h : Tells g log)
    (hact : g.Active) : Tells (g.succeed hact) (log ++ [⟨g.done.length, true⟩]) where
  count := by
    intro i
    rw [h.snoc_count true i, attemptsAt_succeed hact]
  sorted := (h.snoc_pairwise true).1
  once := (h.snoc_pairwise true).2
  bound := by
    intro e he
    have hlen : (g.succeed hact).done.length = g.done.length + 1 := by simp [succeed]
    rcases List.mem_append.mp he with he | he
    · have := h.bound e he
      omega
    · obtain rfl := List.mem_singleton.mp he
      simp [hlen]
  succeeded := by
    intro e he hs
    have hlen : (g.succeed hact).done.length = g.done.length + 1 := by simp [succeed]
    rcases List.mem_append.mp he with he | he
    · have := h.succeeded e he hs
      omega
    · obtain rfl := List.mem_singleton.mp he
      simp [hlen]

theorem tells_fail {g : Progress n max} {log : List Execution} (h : Tells g log) (hact : g.Active)
    (text : String) : Tells (g.fail hact text) (log ++ [⟨g.done.length, false⟩]) where
  count := by
    intro i
    rw [h.snoc_count false i, attemptsAt_fail hact text]
  sorted := (h.snoc_pairwise false).1
  once := (h.snoc_pairwise false).2
  bound := by
    intro e he
    rcases List.mem_append.mp he with he | he
    · exact h.bound e he
    · obtain rfl := List.mem_singleton.mp he
      exact le_rfl
  succeeded := by
    intro e he hs
    rcases List.mem_append.mp he with he | he
    · exact h.succeeded e he hs
    · obtain rfl := List.mem_singleton.mp he
      simp at hs

/-- **Run lemma.** A pass of the loop extends a history of `g` to one of the progress it ends in. -/
theorem tells_loop (resets : Nat → Bool) :
    ∀ (fuel : Nat) (outcomes : Nat → Outcome) (g : Progress n max) (log : List Execution),
      Tells g log → Tells (g.loop resets fuel outcomes).1 (log ++ (g.loop resets fuel outcomes).2)
  | 0, _, g, log => fun h => by simpa [loop] using h
  | fuel + 1, outcomes, g, log => by
      intro h
      rw [loop]
      by_cases hact : g.Active
      · rw [dif_pos hact]
        cases outcomes 0 with
        | exception text => exact tells_fail h hact text
        | success =>
            by_cases hr : resets g.done.length = true
            · simpa [hr] using tells_succeed h hact
            · have ih := tells_loop resets fuel (fun k => outcomes (k + 1)) (g.succeed hact) _
                (tells_succeed h hact)
              simpa [hr] using ih
      · rw [dif_neg hact]
        simpa using h

/-! ## Runs of cycles -/

/-- The progresses at the ends of successive cycles, each with what its cycle executed. -/
def trail (base : PyDict) : List (Nat → Outcome) → Progress n max →
    List (Progress n max × List Execution)
  | [], _ => []
  | outcomes :: rest, g => g.exec base outcomes :: trail base rest (g.exec base outcomes).1

/-- The cycle end a progress stands for. -/
def cycleEnd (base : PyDict) (r : Progress n max × List Execution) : CycleEnd :=
  ⟨r.1.plan base, .json (.dict (r.1.state base)), r.2⟩

theorem runCycles_state (intParse : String → Option Int) (hbase : ValidBase base)
    (hn : (actionsOf base).length = n) (hmax : 1 ≤ max) (streams : List (Nat → Outcome)) :
    ∀ g : Progress n max,
      runCycles intParse (.json (.dict base)) streams (some (.json (.dict (g.state base)))) =
        some ((trail base streams g).map (cycleEnd base)) := by
  induction streams with
  | nil => intro g; rfl
  | cons outcomes rest ih =>
      intro g
      simp only [runCycles, cycle_state intParse hbase hn hmax outcomes g, bind, Option.bind,
        ih (g.exec base outcomes).1, pure, trail, List.map_cons, cycleEnd]

theorem runCycles_fresh {intParse : String → Option Int} (hbase : ValidBase base)
    (hn : (actionsOf base).length = n) (hmax : 1 ≤ max)
    (hlim : pyInt intParse (getOr base "max_attempts_per_action" (.int 2)) = .ok (max : Int))
    (streams : List (Nat → Outcome)) :
    runCycles intParse (.json (.dict base)) streams none =
      some ((trail base streams (init n max)).map (cycleEnd base)) := by
  cases streams with
  | nil => rfl
  | cons outcomes rest =>
      simp only [runCycles, cycle_fresh hbase hn hmax hlim outcomes, bind, Option.bind,
        runCycles_state intParse hbase hn hmax rest, pure, trail, List.map_cons, cycleEnd]

theorem trail_length (streams : List (Nat → Outcome)) (g : Progress n max) :
    (trail base streams g).length = streams.length := by
  induction streams generalizing g with
  | nil => rfl
  | cons outcomes rest ih => simp [trail, ih]

/-- Every cycle of a run extends the history. -/
theorem trail_tells (streams : List (Nat → Outcome)) :
    ∀ (g : Progress n max) (log : List Execution), Tells g log →
      ∀ (k : Nat) (hk : k < (trail base streams g).length),
        Tells (trail base streams g)[k].1
          (log ++ ((trail base streams g).take (k + 1)).flatMap Prod.snd) := by
  induction streams with
  | nil => intro g log _ k hk; simp [trail] at hk
  | cons outcomes rest ih =>
      intro g log h k hk
      have hstep := tells_loop (resetAt base) (n + 1) outcomes g log h
      cases k with
      | zero => simpa [trail, exec] using hstep
      | succ k =>
          have hk' : k < (trail base rest (g.exec base outcomes).1).length := by
            simpa [trail] using hk
          have := ih (g.exec base outcomes).1 (log ++ (g.exec base outcomes).2) hstep k hk'
          simpa [trail, List.append_assoc] using this

/-- Once no action may run, the remaining cycles execute nothing and change nothing. -/
theorem trail_frozen (streams : List (Nat → Outcome)) :
    ∀ (g : Progress n max), ¬ g.Active → ∀ r ∈ trail base streams g, r = (g, []) := by
  induction streams with
  | nil => intro g _ r hr; simp [trail] at hr
  | cons outcomes rest ih =>
      intro g hg r hr
      have hexec : g.exec base outcomes = (g, []) := loop_of_not_active hg _ _ _
      rw [trail, hexec] at hr
      rcases List.mem_cons.mp hr with rfl | hr
      · rfl
      · exact ih g hg r hr

theorem trail_frozen_after (streams : List (Nat → Outcome)) :
    ∀ (g : Progress n max) (j k : Nat) (hj : j < (trail base streams g).length) (hkj : k < j),
      ¬ (trail base streams g)[k].1.Active →
        (trail base streams g)[j] = ((trail base streams g)[k].1, []) := by
  induction streams with
  | nil => intro g j k hj; simp [trail] at hj
  | cons outcomes rest ih =>
      intro g j k hj hkj hk
      obtain ⟨j, rfl⟩ : ∃ j', j = j' + 1 := ⟨j - 1, by omega⟩
      cases k with
      | zero =>
          have hk' : ¬ (g.exec base outcomes).1.Active := by simpa [trail] using hk
          have hj' : j < (trail base rest (g.exec base outcomes).1).length := by
            simpa [trail] using hj
          simpa [trail] using trail_frozen rest _ hk' _ (List.getElem_mem hj')
      | succ k =>
          have hj' : j < (trail base rest (g.exec base outcomes).1).length := by
            simpa [trail] using hj
          simpa [trail] using ih (g.exec base outcomes).1 j k hj' (by omega)
            (by simpa [trail] using hk)

end Progress

/-! ## The state machine seen from outside -/

/-- `plan["actions"][i]["status"]`. -/
def statusOf (plan : PyDict) (i : Nat) : PyVal := item (actionAt plan i) "status"

/-- `plan["actions"][i]["attempts"]`. -/
def attemptsOf (plan : PyDict) (i : Nat) : PyVal := item (actionAt plan i) "attempts"

/-- What holds of the plan and of everything executed so far at the end of a cycle, for `n` actions of at
    most `max` attempts. -/
structure CycleSound (n max : Nat) (plan : PyDict) (history : List Execution) : Prop where
  length : (actionsOf plan).length = n
  /-- Completed actions, then one that is failed or pending, then untouched ones. -/
  shape : ∃ i ≤ n, (∀ j < i, statusOf plan j = .str "completed") ∧
    (i < n → statusOf plan i = .str "failed" ∨ statusOf plan i = .str "pending") ∧
    ∀ j, i < j → j < n → statusOf plan j = .str "pending" ∧ attemptsOf plan j = .int 0
  in_order : history.Pairwise (fun a b => a.index ≤ b.index)
  in_range : ∀ e ∈ history, e.index < n
  /-- After an action succeeded, only later actions are executed. -/
  never_again : history.Pairwise (fun a b => a.succeeded = true → a.index < b.index)
  executions : ∀ i < n, ∃ k ≤ max, attemptsOf plan i = .int k ∧
    history.countP (fun e => e.index == i) = k
  index : item plan "current_action_index" = .int ((findNextPendingAction plan).getD n)
  completed_iff : item plan "state" = .str "completed" ↔
    ∀ i < n, statusOf plan i = .str "completed"
  failed_iff : item plan "state" = .str "failed" ↔
    ∃ i < n, statusOf plan i = .str "failed" ∧ attemptsOf plan i = .int max

namespace Progress

variable {base : PyDict} {n max : Nat}

theorem statusOf_plan (hn : (actionsOf base).length = n) (g : Progress n max) {i : Nat} (hi : i < n) :
    statusOf (g.plan base) i = .str (g.statusAt i) := by
  rw [statusOf, plan, actionAt_planWith (by omega)]
  simp [actionWith]

theorem attemptsOf_plan (hn : (actionsOf base).length = n) (g : Progress n max) {i : Nat} (hi : i < n) :
    attemptsOf (g.plan base) i = .int (g.attemptsAt i) := by
  rw [attemptsOf, plan, actionAt_planWith (by omega)]
  simp [actionWith]

theorem attemptsAt_le (g : Progress n max) (i : Nat) : g.attemptsAt i ≤ max := by
  unfold attemptsAt
  split
  · next h =>
      rw [List.getD_eq_getElem?_getD, List.getElem?_eq_getElem h]
      exact (g.done_bounds _ (List.getElem_mem h)).2
  · split
    · exact g.attempts_le
    · exact Nat.zero_le max

theorem planState_completed (g : Progress n max) : g.planState = "completed" ↔ g.done.length = n := by
  unfold planState
  split
  · next h => simp [h]
  · next h => split <;> [skip; split] <;> simp [h]

theorem planState_failed (hmax : 1 ≤ max) (g : Progress n max) :
    g.planState = "failed" ↔ g.attempts = max := by
  unfold planState
  split
  · next h =>
      have := g.attempts_done h
      simp
      omega
  · next h => split <;> [skip; split] <;> simp_all

/-- **Soundness of a progress with its history.** -/
theorem cycleSound (hn : (actionsOf base).length = n) (hmax : 1 ≤ max) {g : Progress n max}
    {log : List Execution} (h : Tells g log) : CycleSound n max (g.plan base) log where
  length := by rw [actionsOf_plan, List.length_mapIdx, hn]
  shape := by
    -- completed before the current action, untouched behind it
    refine ⟨g.done.length, g.done_le, ?_, ?_, ?_⟩
    · intro j hj
      rw [statusOf_plan hn g (by have := g.done_le; omega), statusAt_lt hj]
    · intro hi
      rw [statusOf_plan hn g hi, statusAt_self]
      split <;> simp
    · intro j hj hjn
      rw [statusOf_plan hn g hjn, attemptsOf_plan hn g hjn, (untouched hj).1, (untouched hj).2]
      exact ⟨rfl, rfl⟩
  in_order := h.sorted
  in_range := by
    intro e he
    -- an execution of index `n` would be counted, but `g` counts none there
    have hle := h.bound e he
    have hdone := g.done_le
    by_contra hcon
    have heq : e.index = n := by omega
    have hlen : g.done.length = n := by omega
    have hzero : g.attemptsAt n = 0 := by
      have hself := g.attemptsAt_self
      rwa [g.attempts_done hlen, hlen] at hself
    have hcount := h.count n
    rw [hzero, List.countP_eq_zero] at hcount
    exact absurd (hcount e he) (by simp [heq])
  never_again := h.once
  executions := by
    intro i hi
    exact ⟨g.attemptsAt i, g.attemptsAt_le i, attemptsOf_plan hn g hi, h.count i⟩
  index := by
    rw [item_plan g (v := .int g.done.length) (by simp [runtimeFields])]
    rcases Nat.lt_or_eq_of_le g.done_le with hlt | heq
    · rw [findNext_plan hn hlt, Option.getD_some]
    · rw [findNext_plan_none hn heq, Option.getD_none, heq]
  completed_iff := by
    rw [item_plan g (v := .str g.planState) (by simp [runtimeFields]), PyVal.str.injEq,
      planState_completed]
    constructor
    · intro hd i hi
      rw [statusOf_plan hn g hi, statusAt_lt (by omega)]
    · -- an action that is not completed is the current one, or behind it
      intro hall
      by_contra hne
      have hlt : g.done.length < n := Nat.lt_of_le_of_ne g.done_le hne
      have := hall _ hlt
      rw [statusOf_plan hn g hlt, PyVal.str.injEq] at this
      exact statusAt_self_ne this
  failed_iff := by
    rw [item_plan g (v := .str g.planState) (by simp [runtimeFields]), PyVal.str.injEq,
      planState_failed hmax]
    constructor
    · intro ha
      have hne : g.done.length ≠ n := fun hd => by
        have := g.attempts_done hd
        omega
      have hlt : g.done.length < n := Nat.lt_of_le_of_ne g.done_le hne
      refine ⟨g.done.length, hlt, ?_, ?_⟩
      · rw [statusOf_plan hn g hlt, statusAt_self, if_pos ha]
      · rw [attemptsOf_plan hn g hlt, attemptsAt_self, ha]
    · rintro ⟨i, hi, hst, -⟩
      rw [statusOf_plan hn g hi, PyVal.str.injEq, statusAt] at hst
      split at hst
      · simp at hst
      · split at hst
        · next h => exact h.2
        · simp at hst

theorem final_of_state (g : Progress n max) {s : String} (hs : s ∈ finalState)
    (h : item (g.plan base) "state" = .str s) : ¬ g.Active := by
  rw [item_plan g (v := .str g.planState) (by simp [runtimeFields]), PyVal.str.injEq] at h
  have hf := g.planState_final
  rw [h, List.contains_iff_mem.mpr hs] at hf
  simpa using hf.symm

end Progress

/-! ## Main results -/

/-- **The update cycles are sound.** Starting without a state file, every cycle runs to its end, the plan
    and the history of executions are sound after each of them, and once the plan is completed or failed
    the remaining cycles execute nothing and change nothing. -/
theorem cycles_sound (intParse : String → Option Int) (base : PyDict) (max : Nat)
    (hbase : validateBaseUpgradePlan (.dict base) = .ok ())
    (hlim : pyInt intParse (getOr base "max_attempts_per_action" (.int 2)) = .ok (max : Int))
    (hmax : 1 ≤ max) (streams : List (Nat → Outcome)) :
    ∃ ends, runCycles intParse (.json (.dict base)) streams none = some ends ∧
      ends.length = streams.length ∧
      (∀ (k : Nat) (hk : k < ends.length),
        CycleSound (actionsOf base).length max ends[k].plan
          ((ends.take (k + 1)).flatMap CycleEnd.executed)) ∧
      ∀ (k j : Nat) (hkj : k < j) (hj : j < ends.length), ∀ s ∈ finalState,
        item ends[k].plan "state" = .str s → ends[j] = ⟨ends[k].plan, ends[k].stateFile, []⟩ := by
  obtain ⟨b, hb, hvalid⟩ := validateBaseUpgradePlan_eq_ok.mp hbase
  obtain rfl := PyVal.dict.inj hb
  refine ⟨_, Progress.runCycles_fresh hvalid rfl hmax hlim streams, ?_, ?_, ?_⟩
  · rw [List.length_map, Progress.trail_length]
  · intro k hk
    rw [List.length_map] at hk
    have htells := @Progress.trail_tells base _ _ streams _ [] Progress.tells_init k hk
    have hsound := @Progress.cycleSound base _ _ rfl hmax _ _ htells
    simpa [Progress.cycleEnd, ← List.map_take, List.flatMap_map] using hsound
  · intro k j hkj hj s hs hstate
    rw [List.length_map] at hj
    rw [List.getElem_map] at hstate
    have hfinal := Progress.final_of_state _ hs hstate
    have hsame := Progress.trail_frozen_after streams _ j k hj hkj hfinal
    simp only [List.getElem_map, hsame, Progress.cycleEnd]

theorem cycles_sound_sample :
    ∃ ends, runCycles (fun _ => none) (.json (.dict samplePlan))
        [fun _ => .exception "timeout", fun _ => .success, fun _ => .success] none = some ends ∧
      ends.length = 3 ∧
      (∀ (k : Nat) (hk : k < ends.length), CycleSound 2 2 ends[k].plan
        ((ends.take (k + 1)).flatMap CycleEnd.executed)) ∧
      ∀ (k j : Nat) (hkj : k < j) (hj : j < ends.length), ∀ s ∈ finalState,
        item ends[k].plan "state" = .str s → ends[j] = ⟨ends[k].plan, ends[k].stateFile, []⟩ :=
  cycles_sound (fun _ => none) samplePlan 2 samplePlan_valid rfl (by decide) _

/-- The merged plans that loading, executing and saving can reach, in any order and number. -/
inductive ReachablePlan (intParse : String → Option Int) (planFile : FileContent) : PyDict → Prop
  | load {p : PyDict} : loadUpgradePlanWithState intParse planFile none = some p →
      ReachablePlan intParse planFile p
  | execute {p p' : PyDict} {outcomes : Nat → Outcome} {executed : List Execution} :
      ReachablePlan intParse planFile p → runNextAction outcomes p = some (p', executed) →
      ReachablePlan intParse planFile p'
  | reload {p p' : PyDict} {stateFile : FileContent} :
      ReachablePlan intParse planFile p → saveUpgradeState p = some stateFile →
      loadUpgradePlanWithState intParse planFile (some stateFile) = some p' →
      ReachablePlan intParse planFile p'

/-- A plan that loads without a state file has a usable retry limit. -/
theorem limit_of_load {intParse : String → Option Int} {base p : PyDict} (hbase : ValidBase base)
    (h : loadUpgradePlanWithState intParse (.json (.dict base)) none = some p) :
    ∃ max : Nat, 1 ≤ max ∧
      pyInt intParse (getOr base "max_attempts_per_action" (.int 2)) = .ok (max : Int) := by
  simp only [loadUpgradePlanWithState, loadBasePlan_eq_ok hbase] at h
  cases hinit : loadOrInitRuntimeState intParse base none with
  | error e => simp [hinit, bind, Except.bind, Except.toOption] at h
  | ok state =>
      obtain ⟨hdefault, haccept⟩ := Progress.loadOrInit_none.mp hinit
      obtain ⟨i, hi, hone⟩ := Progress.limit_of_default hdefault haccept
      exact ⟨i.toNat, by omega, by rw [Int.toNat_of_nonneg (by omega), hi]⟩

/-- Every reachable plan is the plan of a progress. -/
theorem ReachablePlan.progress {intParse : String → Option Int} {base p : PyDict}
    (hbase : ValidBase base) (h : ReachablePlan intParse (.json (.dict base)) p) :
    ∃ max : Nat, 1 ≤ max ∧ ∃ g : Progress (actionsOf base).length max, p = g.plan base := by
  induction h with
  | load hload =>
      obtain ⟨max, hmax, hlim⟩ := limit_of_load hbase hload
      rw [Progress.load_fresh hbase rfl hmax hlim] at hload
      exact ⟨max, hmax, _, (Option.some.inj hload).symm⟩
  | execute _ hrun ih =>
      obtain ⟨max, hmax, g, rfl⟩ := ih
      rw [g.run_plan hbase rfl hmax] at hrun
      exact ⟨max, hmax, _, (congrArg Prod.fst (Option.some.inj hrun)).symm⟩
  | reload _ hsave hload ih =>
      obtain ⟨max, hmax, g, rfl⟩ := ih
      rw [g.save_plan hbase rfl hmax] at hsave
      obtain rfl := Option.some.inj hsave
      rw [g.load_state intParse hbase rfl hmax] at hload
      exact ⟨max, hmax, g, (Option.some.inj hload).symm⟩

/-- **Reloading a saved state reproduces the plan.** A reachable plan can be saved; what is saved passes
    every validation on the way back, is not reinitialised, and merges to the very same plan, so the next
    action is the same. -/
theorem reload_plan (intParse : String → Option Int) (base p : PyDict)
    (hbase : validateBaseUpgradePlan (.dict base) = .ok ())
    (hreach : ReachablePlan intParse (.json (.dict base)) p) :
    ∃ state, saveUpgradeState p = some (.json (.dict state)) ∧
      state = extractRuntimeStateFromPlan p ∧
      validateUpgradeState (.dict state) (actionsOf base).length = .ok () ∧
      runtimeStateMatchesBasePlan state base = true ∧
      loadOrInitRuntimeState intParse base (some (.json (.dict state))) = .ok state ∧
      mergePlanAndState base state = .ok p ∧
      ∃ p', loadUpgradePlanWithState intParse (.json (.dict base)) (some (.json (.dict state))) =
          some p' ∧ p' = p ∧ findNextPendingAction p' = findNextPendingAction p := by
  obtain ⟨b, hb, hvalid⟩ := validateBaseUpgradePlan_eq_ok.mp hbase
  obtain rfl := PyVal.dict.inj hb
  obtain ⟨max, hmax, g, rfl⟩ := hreach.progress hvalid
  refine ⟨g.state base, g.save_plan hvalid rfl hmax, (g.extract_plan).symm,
    validateUpgradeState_eq_ok.mpr ⟨_, rfl, g.validState hvalid rfl hmax⟩, g.matches_state hvalid,
    g.loadOrInit_state intParse hvalid rfl hmax, g.merge_state hvalid rfl hmax, _,
    g.load_state intParse hvalid rfl hmax, rfl, rfl⟩

/-- The sample plan after its first action failed once. -/
theorem reload_plan_sample :
    ∃ p, ReachablePlan (fun _ => none) (.json (.dict samplePlan)) p ∧
      ∃ state, saveUpgradeState p = some (.json (.dict state)) ∧
        loadUpgradePlanWithState (fun _ => none) (.json (.dict samplePlan))
          (some (.json (.dict state))) = some p := by
  have hvalid : ValidBase samplePlan := by
    obtain ⟨b, hb, h⟩ := validateBaseUpgradePlan_eq_ok.mp samplePlan_valid
    exact PyVal.dict.inj hb ▸ h
  have hload := @Progress.load_fresh samplePlan 2 2 (fun _ => none) hvalid rfl (by decide) rfl
  have hrun := Progress.run_plan hvalid rfl (by decide) (fun _ => .exception "timeout")
    (Progress.init 2 2)
  have hreach := ReachablePlan.execute (ReachablePlan.load hload) hrun
  obtain ⟨state, hsave, -, -, -, -, -, p', hp', rfl, -⟩ :=
    reload_plan (fun _ => none) samplePlan _ samplePlan_valid hreach
  exact ⟨_, hreach, state, hsave, hp'⟩

end Workbench.Bios
