import Mathlib.Logic.Relation
import Workbench.Bios.Cycles
import Workbench.Bios.Recovery

/-!
# `Bios.Restart` — the updater under interruptions

`auto_execute_bios_upgrade` as a machine whose process can be killed at any point. Memory is the phase the
process is in; what survives is the state file, which opening for writing truncates, and the commands that
have taken effect. The state is written only after a whole cycle, so an interruption between the start of a
command and the opening of the state file forgets executions.

## Main results
* `uninterrupted_cycle` — a process that is left alone performs one `cycle`;
* `restarts_safe` — if no interruption forgets an execution, no succeeded command is executed again and no
  action is executed more often than its limit;
* `restarts_unsafe` — interruptions elsewhere break both.
-/

namespace Workbench.Bios

open Python Relation

/-! ## The machine -/

/-- Steps 1 to 4 of `auto_execute_bios_upgrade`: the plan handed to `execute_next_action`. `payload` is the
    answer of `extract_bios_files_from_plan_payload`; `none` is any of the ways to stop before. -/
def preparePlan (intParse : String → Option Int) (dir : PlansDir) (stateFile : Option FileContent)
    (target : Target) (payload : Bool) : Option PyDict :=
  match choosePlanFile dir stateFile target with
  | .ok (some path) => do
      let content ← dir.read path
      let plan ← loadUpgradePlanWithState intParse content stateFile
      if payload then some plan else none
  | _ => none

/-- Where a process is. -/
inductive Phase where
  /-- No process is running. -/
  | idle
  /-- At the head of the `while True` loop. -/
  | loop (plan : PyDict)
  /-- The command of action `i` is running. -/
  | running (plan : PyDict) (i : Nat)
  /-- `executeNextAction` has returned. -/
  | save (plan : PyDict)
  /-- The state file is open for writing, and so truncated. -/
  | writing (plan : PyDict)

structure Machine where
  stateFile : Option FileContent
  phase : Phase
  /-- The commands that have ended, or were cut off, over all restarts. -/
  history : List Execution
  /-- A command was started since the plan was loaded, and the state file not opened since. -/
  unsaved : Bool

/-- Nothing has run yet and there is no state file. -/
def Machine.initial : Machine := ⟨none, .idle, [], false⟩

/-- The execution an interruption cuts off; whether the command took effect before is open. -/
def Phase.cutOff (succeeded : Bool) : Phase → List Execution
  | .running _ i => [⟨i, succeeded⟩]
  | _ => []

/-- All executions so far, the one in progress included. -/
def Machine.log (m : Machine) : List Execution := m.history ++ m.phase.cutOff false

/-- One step of the machine; `mayCrash` says in which machines an interruption is considered. -/
inductive Step (intParse : String → Option Int) (dir : PlansDir) (mayCrash : Machine → Prop) :
    Machine → Machine → Prop
  | boot {m : Machine} {target : Target} {payload final : Bool} {plan : PyDict} :
      m.phase = .idle → preparePlan intParse dir m.stateFile target payload = some plan →
      validateUpgradePlan (.dict plan) = .ok () → (item plan "state").inStrSet finalState = .ok final →
      Step intParse dir mayCrash m
        { m with phase := if final then .save plan else .loop plan, unsaved := false }
  | begin {m : Machine} {plan : PyDict} {i : Nat} :
      m.phase = .loop plan → findNextPendingAction plan = some i →
      Step intParse dir mayCrash m { m with phase := .running (beginAction plan i) i, unsaved := true }
  | finish {m : Machine} {plan : PyDict} :
      m.phase = .loop plan → findNextPendingAction plan = none →
      Step intParse dir mayCrash m { m with phase := .save (finishPlan plan) }
  | success {m : Machine} {plan : PyDict} {i : Nat} :
      m.phase = .running plan i →
      Step intParse dir mayCrash m
        { m with
          phase := if (afterSuccess plan i).2 then .save (afterSuccess plan i).1
            else .loop (afterSuccess plan i).1
          history := m.history ++ [⟨i, true⟩] }
  | exception {m : Machine} {plan : PyDict} {i : Nat} {text : String} :
      m.phase = .running plan i →
      Step intParse dir mayCrash m
        { m with phase := .save (afterException plan i text), history := m.history ++ [⟨i, false⟩] }
  | openFile {m : Machine} {plan : PyDict} :
      m.phase = .save plan → validateUpgradePlan (.dict plan) = .ok () →
      Step intParse dir mayCrash m
        { m with stateFile := some .undecodable, phase := .writing plan, unsaved := false }
  | closeFile {m : Machine} {plan : PyDict} :
      m.phase = .writing plan →
      Step intParse dir mayCrash m
        { m with stateFile := some (.json (.dict (extractRuntimeStateFromPlan plan))), phase := .idle }
  | crash {m : Machine} (succeeded : Bool) :
      mayCrash m →
      Step intParse dir mayCrash m
        { m with phase := .idle, history := m.history ++ m.phase.cutOff succeeded, unsaved := false }

/-- The machines a run reaches, from nothing. -/
def Reaches (intParse : String → Option Int) (dir : PlansDir) (mayCrash : Machine → Prop) :
    Machine → Prop :=
  ReflTransGen (Step intParse dir mayCrash) Machine.initial

/-- No command is executed again after it succeeded, and no action more than `max` times. -/
def ExecutesSafely (max : Nat) (log : List Execution) : Prop :=
  log.Pairwise (fun a b => a.succeeded = true → b.index ≠ a.index) ∧
    ∀ i, log.countP (fun e => e.index == i) ≤ max

section Steps

variable {intParse : String → Option Int} {dir : PlansDir} {mayCrash : Machine → Prop}

/-! ## A process that is left alone -/

/-- The loop, step by step. -/
theorem loop_steps {file : Option FileContent} : ∀ (fuel : Nat) (outcomes : Nat → Outcome)
    (plan plan' : PyDict) (history executed : List Execution) (unsaved : Bool),
    executeLoop fuel outcomes plan = some (plan', executed) →
    ∃ unsaved', ReflTransGen (Step intParse dir mayCrash) ⟨file, .loop plan, history, unsaved⟩
      ⟨file, .save plan', history ++ executed, unsaved'⟩
  | 0, _, _, _, _, _, _ => fun h => by simp [executeLoop] at h
  | fuel + 1, outcomes, plan, plan', history, executed, unsaved => by
      intro h
      rw [executeLoop] at h
      cases hnext : findNextPendingAction plan with
      | none =>
          simp only [hnext, Option.some.injEq, Prod.mk.injEq] at h
          obtain ⟨rfl, rfl⟩ := h
          rw [List.append_nil]
          exact ⟨unsaved, ReflTransGen.single (.finish rfl hnext)⟩
      | some i =>
          have hbegin : Step intParse dir mayCrash ⟨file, .loop plan, history, unsaved⟩
              ⟨file, .running (beginAction plan i) i, history, true⟩ := .begin rfl hnext
          simp only [hnext] at h
          cases hout : outcomes 0 with
          | exception text =>
              simp only [hout, Option.some.injEq, Prod.mk.injEq] at h
              obtain ⟨rfl, rfl⟩ := h
              exact ⟨true, (ReflTransGen.single hbegin).tail (.exception rfl)⟩
          | success =>
              have hsuccess : Step intParse dir mayCrash
                  ⟨file, .running (beginAction plan i) i, history, true⟩ _ := .success rfl
              simp only [hout] at h
              by_cases hreset : (afterSuccess (beginAction plan i) i).2 = true
              · rw [if_pos hreset, Option.some.injEq, Prod.mk.injEq] at h
                obtain ⟨rfl, rfl⟩ := h
                rw [if_pos hreset] at hsuccess
                exact ⟨true, (ReflTransGen.single hbegin).tail hsuccess⟩
              · rw [if_neg hreset, Option.map_eq_some_iff] at h
                obtain ⟨⟨last, rest⟩, hloop, hr⟩ := h
                obtain ⟨rfl, rfl⟩ := Prod.mk.inj hr
                rw [if_neg hreset] at hsuccess
                obtain ⟨unsaved', hrun⟩ := loop_steps fuel (fun k => outcomes (k + 1)) _ last
                  (history ++ [⟨i, true⟩]) rest true hloop
                rw [List.append_assoc, List.singleton_append] at hrun
                exact ⟨unsaved', (ReflTransGen.single hbegin).trans
                  ((ReflTransGen.single hsuccess).trans hrun)⟩

/-- **An uninterrupted process performs a cycle**: from the plan it prepared to the saved state file, with
    the executions of `runNextAction`. -/
theorem uninterrupted_cycle {file : Option FileContent} {target : Target} {plan plan' : PyDict}
    {outcomes : Nat → Outcome} {executed history : List Execution} {unsaved : Bool}
    {saved : FileContent} (hprep : preparePlan intParse dir file target true = some plan)
    (hrun : runNextAction outcomes plan = some (plan', executed))
    (hsave : saveUpgradeState plan' = some saved) :
    ReflTransGen (Step intParse dir mayCrash) ⟨file, .idle, history, unsaved⟩
      ⟨some saved, .idle, history ++ executed, false⟩ := by
  -- what saving wrote, and that it passed validation
  have hsaved : validateUpgradePlan (.dict plan') = .ok () ∧
      saved = .json (.dict (extractRuntimeStateFromPlan plan')) := by
    rw [saveUpgradeState, saveRuntimeState] at hsave
    cases hval : validateUpgradePlan (.dict plan') with
    | error e => simp [hval, bind, Except.bind, Except.toOption] at hsave
    | ok u =>
        simp only [hval, bind, Except.bind, pure, Except.pure, Except.toOption,
          Option.some.injEq] at hsave
        exact ⟨rfl, hsave.symm⟩
  obtain ⟨hval', rfl⟩ := hsaved
  have htail : ∀ unsaved', ReflTransGen (Step intParse dir mayCrash)
      ⟨file, .save plan', history ++ executed, unsaved'⟩
      ⟨some (.json (.dict (extractRuntimeStateFromPlan plan'))), .idle, history ++ executed, false⟩ :=
    fun unsaved' => (ReflTransGen.single (Step.openFile rfl hval')).tail (.closeFile rfl)
  rw [runNextAction, executeNextAction] at hrun
  cases hval : validateUpgradePlan (.dict plan) with
  | error e => simp [hval, bind, Except.bind, Except.toOption] at hrun
  | ok u =>
      cases hfin : (item plan "state").inStrSet finalState with
      | error e => simp [hval, hfin, bind, Except.bind, Except.toOption] at hrun
      | ok final =>
          have hboot : Step intParse dir mayCrash ⟨file, .idle, history, unsaved⟩
              ⟨file, if final then .save plan else .loop plan, history, false⟩ := .boot rfl hprep hval hfin
          cases final with
          | true =>
              simp only [hval, hfin, bind, Except.bind, pure, Except.pure, if_true, Except.toOption,
                Option.join_some, Option.some.injEq, Prod.mk.injEq] at hrun
              obtain ⟨rfl, rfl⟩ := hrun
              rw [List.append_nil] at htail ⊢
              exact (ReflTransGen.single hboot).trans (htail false)
          | false =>
              simp only [hval, hfin, bind, Except.bind, pure, Except.pure, Except.toOption,
                Bool.false_eq_true, if_false, Option.join_some] at hrun
              obtain ⟨unsaved', hloop⟩ := loop_steps (loopFuel plan) outcomes plan plan' history executed
                false hrun
              exact (ReflTransGen.single hboot).trans (hloop.trans (htail unsaved'))

end Steps

/-! ## Booting -/

/-- The pending search returns the path of a loaded plan. -/
theorem findPending_mem {dir : PlansDir} {plans : List (String × PyDict)}
    (hplans : loadValidTransitionPlans dir = .ok plans) {file : Option FileContent} {path : String}
    (h : findPendingPlanFromState dir file = .ok (some path)) : path ∈ plans.map Prod.fst := by
  unfold findPendingPlanFromState at h
  split at h
  · simp at h
  · simp at h
  · next state =>
      rw [bind_eq_ok] at h
      obtain ⟨active, -, h⟩ := h
      split at h
      · simp [pure, Except.pure] at h
      · split at h
        · simp [pure, Except.pure] at h
        · simp only [hplans, bind, Except.bind] at h
          split at h
          · simp [pure, Except.pure] at h
          · next p hp =>
              obtain rfl : p = path := by simpa [pure, Except.pure] using h
              have hmem : p ∈ (plans.filter fun p => matchesPending state p.2).map Prod.fst := by
                rw [hp]
                exact List.mem_singleton_self p
              obtain ⟨e, he, rfl⟩ := List.mem_map.mp hmem
              exact List.mem_map.mpr ⟨e, List.mem_of_mem_filter he, rfl⟩
          · simp at h
  · simp at h

/-- So does the selection by the identity of the machine. -/
theorem select_mem {dir : PlansDir} {plans : List (String × PyDict)}
    (hplans : loadValidTransitionPlans dir = .ok plans) {target : Target} {path : String}
    (h : selectTransitionPlanForBiosVersion dir target = .ok path) : path ∈ plans.map Prod.fst := by
  simp only [selectTransitionPlanForBiosVersion, seq_eq_ok, hplans] at h
  obtain ⟨-, -, -, h⟩ := h
  simp only [bind, Except.bind] at h
  split at h
  · next p hp =>
      obtain rfl : p = path := by simpa [pure, Except.pure] using h
      have hmem : p ∈ (plans.filter fun p => matchesTarget target p.2).map Prod.fst := by
        rw [hp]
        exact List.mem_singleton_self p
      obtain ⟨e, he, rfl⟩ := List.mem_map.mp hmem
      exact List.mem_map.mpr ⟨e, List.mem_of_mem_filter he, rfl⟩
  · simp at h
  · simp at h

theorem choosePlanFile_mem {dir : PlansDir} {plans : List (String × PyDict)}
    (hplans : loadValidTransitionPlans dir = .ok plans) {file : Option FileContent} {target : Target}
    {path : String} (h : choosePlanFile dir file target = .ok (some path)) :
    path ∈ plans.map Prod.fst := by
  rw [choosePlanFile, bind_eq_ok] at h
  obtain ⟨pending, hpending, h⟩ := h
  cases pending with
  | some p =>
      obtain rfl : p = path := by simpa [pure, Except.pure] using h
      exact findPending_mem hplans hpending
  | none =>
      cases hsel : selectTransitionPlanForBiosVersion dir target with
      | ok p =>
          obtain rfl : p = path := by simpa [hsel, pure, Except.pure] using h
          exact select_mem hplans hsel
      | error e =>
          simp only [hsel] at h
          split at h <;> simp_all [pure, Except.pure]

/-- In a directory with one plan, what is prepared is that plan, merged with the state file. -/
theorem preparePlan_single {intParse : String → Option Int} {dir : PlansDir} {planFile : String}
    {base : PyDict} (hdir : loadValidTransitionPlans dir = .ok [(planFile, base)])
    {file : Option FileContent} {target : Target} {payload : Bool} {plan : PyDict}
    (h : preparePlan intParse dir file target payload = some plan) :
    loadUpgradePlanWithState intParse (.json (.dict base)) file = some plan := by
  unfold preparePlan at h
  split at h
  · next path hpath =>
      obtain rfl : path = planFile := by simpa using choosePlanFile_mem hdir hpath
      have hread := (mem_loadValidTransitionPlans hdir (List.mem_singleton_self _)).1
      simp only [hread, bind, Option.bind] at h
      split at h
      · simp at h
      · next p hload =>
          cases payload <;> simp_all
  · simp at h

/-! ## The invariant -/

variable {base : PyDict} {n max : Nat}

/-- The state file that progress `g` was saved to, or that was never written. -/
def Durable (base : PyDict) (g : Progress n max) : Option FileContent → Prop
  | none => g = Progress.init n max
  | some content => content = .json (.dict (g.state base))

/-- What the phase of a machine says about the progress `g` it stands at: until a command is started, and
    again once the state file is written, that file has the progress too. -/
def Stands (base : PyDict) (g : Progress n max) (file : Option FileContent) (unsaved : Bool) :
    Phase → Prop
  | .idle => Durable base g file ∨ file = some .undecodable
  | .loop plan => plan = g.plan base ∧ (g.done.length < n → g.attempts < max) ∧
      (unsaved = false → Durable base g file)
  | .running plan i => plan = g.running base ∧ i = g.done.length ∧ g.Active ∧ unsaved = true
  | .save plan => plan = g.plan base ∧ (unsaved = false → Durable base g file)
  | .writing plan => plan = g.plan base ∧ file = some .undecodable

/-- The invariant of a run that forgets nothing: some progress accounts for the history of the machine. -/
def Accounted (base : PyDict) (n max : Nat) (m : Machine) : Prop :=
  ∃ g : Progress n max, Progress.Tells g m.history ∧ Stands base g m.stateFile m.unsaved m.phase

theorem accounted_initial : Accounted base n max Machine.initial :=
  ⟨Progress.init n max, Progress.tells_init, Or.inl rfl⟩

/-- What a boot loads. -/
theorem load_durable {intParse : String → Option Int} (hbase : ValidBase base)
    (hn : (actionsOf base).length = n) (hmax : 1 ≤ max)
    (hlim : pyInt intParse (getOr base "max_attempts_per_action" (.int 2)) = .ok (max : Int))
    {g : Progress n max} {file : Option FileContent} (hfile : Durable base g file) :
    loadUpgradePlanWithState intParse (.json (.dict base)) file = some (g.plan base) := by
  cases file with
  | none =>
      obtain rfl : g = Progress.init n max := hfile
      exact Progress.load_fresh hbase hn hmax hlim
  | some content =>
      obtain rfl : content = .json (.dict (g.state base)) := hfile
      exact g.load_state intParse hbase hn hmax

/-- A boot loads what the file has, and goes on with it. -/
theorem stands_boot {intParse : String → Option Int} {plan : PyDict} {final : Bool} (hbase : ValidBase base)
    (hn : (actionsOf base).length = n) (hmax : 1 ≤ max)
    (hlim : pyInt intParse (getOr base "max_attempts_per_action" (.int 2)) = .ok (max : Int))
    {g : Progress n max} {file : Option FileContent} {unsaved : Bool} (hg : Stands base g file unsaved .idle)
    (hload : loadUpgradePlanWithState intParse (.json (.dict base)) file = some plan)
    (hfin : (item plan "state").inStrSet finalState = .ok final) :
    Stands base g file false (if final then .save plan else .loop plan) := by
  rcases hg with hfile | hfile
  · rw [load_durable hbase hn hmax hlim hfile, Option.some.injEq] at hload
    subst hload
    have hstate : item (g.plan base) "state" = .str g.planState := g.item_plan (by simp [runtimeFields])
    rw [hstate, PyVal.inStrSet, g.planState_final, Except.ok.injEq] at hfin
    subst hfin
    by_cases hact : g.Active
    · simp only [hact, decide_true, Bool.not_true, Bool.false_eq_true, if_false]
      exact ⟨rfl, fun _ => hact.2, fun _ => hfile⟩
    · simp only [hact, decide_false, Bool.not_false, if_true]
      exact ⟨rfl, fun _ => hfile⟩
  · -- nothing is loaded from a truncated file
    rw [hfile, load_undecodable hbase] at hload
    cases hload

/-- A crash with nothing unsaved leaves a file that has the progress, or a truncated one. -/
theorem stands_crash {g : Progress n max} {file : Option FileContent} {phase : Phase}
    (hg : Stands base g file false phase) : Stands base g file false .idle := by
  cases phase with
  | idle => exact hg
  | loop plan => exact Or.inl (hg.2.2 rfl)
  | running plan i => exact absurd hg.2.2.2 Bool.false_ne_true
  | save plan => exact Or.inl (hg.2 rfl)
  | writing plan => exact Or.inr hg.2

/-- No command is cut off by a crash with nothing unsaved, as one that runs is unsaved. -/
theorem cutOff_saved {g : Progress n max} {file : Option FileContent} {phase : Phase} {succeeded : Bool}
    (hg : Stands base g file false phase) : phase.cutOff succeeded = [] := by
  cases phase with
  | running plan i => exact absurd hg.2.2.2 Bool.false_ne_true
  | _ => rfl

/-- **Step lemma.** A step that forgets nothing keeps the machine accounted for. -/
theorem accounted_step {intParse : String → Option Int} {dir : PlansDir} {planFile : String}
    (hdir : loadValidTransitionPlans dir = .ok [(planFile, base)]) (hbase : ValidBase base)
    (hn : (actionsOf base).length = n) (hmax : 1 ≤ max)
    (hlim : pyInt intParse (getOr base "max_attempts_per_action" (.int 2)) = .ok (max : Int))
    {m m' : Machine} (h : Accounted base n max m)
    (hstep : Step intParse dir (fun m => m.unsaved = false) m m') : Accounted base n max m' := by
  obtain ⟨g, htells, hg⟩ := h
  cases hstep with
  | boot hidle hprep _ hfin =>
      rw [hidle] at hg
      exact ⟨g, htells, stands_boot hbase hn hmax hlim hg (preparePlan_single hdir hprep) hfin⟩
  | begin hphase hnext =>
      rw [hphase] at hg
      obtain ⟨rfl, htry, -⟩ := hg
      have hlt : g.done.length < n := by
        by_contra hcon
        rw [g.findNext_plan_none hn (Nat.le_antisymm g.done_le (Nat.not_lt.mp hcon))] at hnext
        cases hnext
      rw [g.findNext_plan hn hlt, Option.some.injEq] at hnext
      subst hnext
      exact ⟨g, htells, g.beginAction_plan hn hlt, rfl, ⟨hlt, htry hlt⟩, rfl⟩
  | finish hphase hnext =>
      rw [hphase] at hg
      obtain ⟨rfl, -, hfile⟩ := hg
      have hend : g.done.length = n := by
        by_contra hcon
        rw [g.findNext_plan hn (Nat.lt_of_le_of_ne g.done_le hcon)] at hnext
        cases hnext
      exact ⟨g, htells, g.finishPlan_plan hn hend, hfile⟩
  | success hphase =>
      rw [hphase] at hg
      obtain ⟨rfl, rfl, hact, hunsaved⟩ := hg
      refine ⟨g.succeed hact, Progress.tells_succeed htells hact, ?_⟩
      rw [g.afterSuccess_running hn hact]
      by_cases hreset : resetAt base g.done.length = true
      · simp only [hreset, if_true]
        exact ⟨rfl, by simp [hunsaved]⟩
      · have hzero : (g.succeed hact).attempts < max := hmax
        simp only [hreset]
        exact ⟨rfl, fun _ => hzero, by simp [hunsaved]⟩
  | exception hphase =>
      rw [hphase] at hg
      obtain ⟨rfl, rfl, hact, hunsaved⟩ := hg
      exact ⟨g.fail hact _, Progress.tells_fail htells hact _, g.afterException_running hn hact _,
        by simp [hunsaved]⟩
  -- from here on the file is undecodable, until it is closed
  | openFile hphase _ =>
      rw [hphase] at hg
      exact ⟨g, htells, hg.1, rfl⟩
  | closeFile hphase =>
      rw [hphase] at hg
      obtain ⟨rfl, -⟩ := hg
      exact ⟨g, htells, Or.inl (by rw [g.extract_plan]; rfl)⟩
  -- no command is cut off, so the history stays
  | crash _ hsaved =>
      rw [hsaved] at hg
      refine ⟨g, ?_, stands_crash hg⟩
      rw [cutOff_saved hg, List.append_nil]
      exact htells

/-- An accounted machine has executed safely. -/
theorem executesSafely_of_accounted {m : Machine} (h : Accounted base n max m) :
    ExecutesSafely max m.log := by
  obtain ⟨g, htells, hg⟩ := h
  have hagain : ∀ {log : List Execution},
      log.Pairwise (fun a b => a.succeeded = true → a.index < b.index) →
      log.Pairwise (fun a b => a.succeeded = true → b.index ≠ a.index) := by
    intro log hlog
    refine hlog.imp ?_
    intro a b hab hs
    exact (Nat.ne_of_lt (hab hs)).symm
  cases hphase : m.phase with
  | running plan i =>
      -- the execution in progress is one more of the current action
      rw [hphase] at hg
      obtain ⟨-, rfl, hact, -⟩ := hg
      rw [Machine.log, hphase, Phase.cutOff]
      refine ⟨hagain (htells.snoc_pairwise false).2, ?_⟩
      intro i
      rw [htells.snoc_count false i]
      by_cases hi : i = g.done.length
      · subst hi
        rw [Function.update_self]
        exact hact.2
      · rw [Function.update_of_ne hi]
        exact g.attemptsAt_le i
  | _ =>
      have hlog : m.log = m.history := by simp [Machine.log, hphase, Phase.cutOff]
      rw [hlog]
      refine ⟨hagain htells.once, ?_⟩
      intro i
      rw [htells.count i]
      exact g.attemptsAt_le i

/-! ## Main results -/

/-- A plan without a usable limit is never executed. -/
theorem never_boots {intParse : String → Option Int} {dir : PlansDir} {planFile : String}
    {mayCrash : Machine → Prop} (hdir : loadValidTransitionPlans dir = .ok [(planFile, base)])
    (hbase : ValidBase base)
    (hlim : pyInt intParse (getOr base "max_attempts_per_action" (.int 2)) = .ok (0 : Int))
    {m : Machine} (h : Reaches intParse dir mayCrash m) : m = Machine.initial := by
  induction h with
  | refl => rfl
  | tail _ hstep ih =>
      subst ih
      cases hstep with
      | boot _ hprep =>
          obtain ⟨max, hmax, hlim'⟩ := limit_of_load hbase (preparePlan_single hdir hprep)
          rw [hlim, Except.ok.injEq] at hlim'
          omega
      | crash => rfl
      | begin hphase => cases hphase
      | finish hphase => cases hphase
      | success hphase => cases hphase
      | exception hphase => cases hphase
      | openFile hphase => cases hphase
      | closeFile hphase => cases hphase

/-- **Restarts are safe.** In a plans directory with one valid plan, over any number of restarts, for any
    outcomes and any identity of the machine: if no interruption falls between the start of a command and
    the next opening of the state file, then no command is executed again after it succeeded and no
    action is executed more often than its limit. -/
theorem restarts_safe (intParse : String → Option Int) (dir : PlansDir) (planFile : String)
    (base : PyDict) (max : Nat) (hdir : loadValidTransitionPlans dir = .ok [(planFile, base)])
    (hlim : pyInt intParse (getOr base "max_attempts_per_action" (.int 2)) = .ok (max : Int))
    (m : Machine) (hrun : Reaches intParse dir (fun m => m.unsaved = false) m) :
    ExecutesSafely max m.log := by
  have hbase : ValidBase base := (mem_loadValidTransitionPlans hdir (List.mem_singleton_self _)).2
  by_cases hmax : 1 ≤ max
  · have hinv : Accounted base (actionsOf base).length max m := by
      induction hrun with
      | refl => exact accounted_initial
      | tail _ hstep ih => exact accounted_step hdir hbase rfl hmax hlim ih hstep
    exact executesSafely_of_accounted hinv
  · obtain rfl : max = 0 := by omega
    obtain rfl := never_boots hdir hbase hlim hrun
    exact ⟨List.Pairwise.nil, fun i => Nat.le_refl 0⟩

/-! ### Runs of the sample plan -/

/-- The machine the sample plan is for. -/
def sampleTarget : Target :=
  ⟨.str "SE5C741.86B.01.01.0005", .str "M50FCP2SBSTD", .str "APOLLO_PLATFORM"⟩

theorem samplePlan_prepare : preparePlan (fun _ => none) sampleDir none sampleTarget true =
    some ((Progress.init 2 2).plan samplePlan) := by
  have hread := mem_loadValidTransitionPlans sampleDir_plans (List.mem_singleton_self _)
  have hload := @Progress.load_fresh samplePlan 2 2 (fun _ => none) hread.2 rfl (by decide) rfl
  have hchoose : choosePlanFile sampleDir none sampleTarget =
      .ok (some "/opt/harmonic/bios-update/plans/plan.json") := by
    have hsel : selectTransitionPlanForBiosVersion sampleDir sampleTarget =
        .ok "/opt/harmonic/bios-update/plans/plan.json" := by
      rw [selectTransitionPlanForBiosVersion]
      simp only [seq_eq_ok, require_eq_ok]
      refine ⟨by decide, by decide, by decide, ?_⟩
      rw [sampleDir_plans]
      rfl
    rw [choosePlanFile, findPendingPlanFromState]
    simp only [bind, Except.bind, hsel]
    rfl
  simp only [preparePlan, hchoose, hread.1, bind, Option.bind, hload, if_true]

section Sample

variable {mayCrash : Machine → Prop} {file : Option FileContent} {history : List Execution}
  {unsaved : Bool}

theorem samplePlan_length : (actionsOf samplePlan).length = 2 := rfl

theorem samplePlan_base : ValidBase samplePlan :=
  (mem_loadValidTransitionPlans sampleDir_plans (List.mem_singleton_self _)).2

/-- Without a state file, a process of the sample plan starts its first command. -/
theorem sample_begin : ReflTransGen (Step (fun _ => none) sampleDir mayCrash)
    ⟨none, .idle, history, false⟩
    ⟨none, .running ((Progress.init 2 2).running samplePlan) 0, history, true⟩ := by
  let g : Progress 2 2 := Progress.init 2 2
  have hstate : (item (g.plan samplePlan) "state").inStrSet finalState = .ok false := by
    rw [g.item_plan (v := .str g.planState) (by simp [runtimeFields])]
    rfl
  have hvalid : validateUpgradePlan (.dict (g.plan samplePlan)) = .ok () :=
    validateUpgradePlan_eq_ok.mpr (g.validPlan samplePlan_base samplePlan_length (by decide))
  have hboot : Step (fun _ => none) sampleDir mayCrash ⟨none, .idle, history, false⟩
      ⟨none, .loop (g.plan samplePlan), history, false⟩ :=
    .boot rfl samplePlan_prepare hvalid hstate
  have hbegin : Step (fun _ => none) sampleDir mayCrash ⟨none, .loop (g.plan samplePlan), history, false⟩
      ⟨none, .running (beginAction (g.plan samplePlan) 0) 0, history, true⟩ :=
    .begin rfl (Progress.findNext_plan samplePlan_length (by decide))
  have hrunning : beginAction (g.plan samplePlan) 0 = g.running samplePlan :=
    Progress.beginAction_plan samplePlan_length (by decide)
  rw [hrunning] at hbegin
  exact (ReflTransGen.single hboot).tail hbegin

/-- A process whose command raised, killed while it writes the state file. -/
theorem exception_then_crash {plan : PyDict} {i : Nat} {text : String}
    (hvalid : validateUpgradePlan (.dict (afterException plan i text)) = .ok ()) :
    ReflTransGen (Step (fun _ => none) sampleDir (fun m => m.unsaved = false))
      ⟨file, .running plan i, history, unsaved⟩
      ⟨some .undecodable, .idle, history ++ [⟨i, false⟩], false⟩ := by
  have hopen : Step (fun _ => none) sampleDir (fun m => m.unsaved = false)
      ⟨file, .save (afterException plan i text), history ++ [⟨i, false⟩], unsaved⟩
      ⟨some .undecodable, .writing (afterException plan i text), history ++ [⟨i, false⟩], false⟩ :=
    .openFile rfl hvalid
  have hcrash : Step (fun _ => none) sampleDir (fun m => m.unsaved = false)
      ⟨some .undecodable, .writing (afterException plan i text), history ++ [⟨i, false⟩], false⟩
      ⟨some .undecodable, .idle, (history ++ [⟨i, false⟩]) ++ [], false⟩ := .crash false rfl
  rw [List.append_nil] at hcrash
  exact ((ReflTransGen.single (.exception rfl)).tail hopen).tail hcrash

theorem restarts_safe_sample : ExecutesSafely 2 [⟨0, false⟩] := by
  let g : Progress 2 2 := Progress.init 2 2
  have hact : g.Active := by decide
  have hvalid : validateUpgradePlan (.dict (afterException (g.running samplePlan) 0 "timeout")) =
      .ok () := by
    have hfail := Progress.afterException_running samplePlan_length hact "timeout"
    have hok := validateUpgradePlan_eq_ok.mpr
      ((g.fail hact "timeout").validPlan samplePlan_base samplePlan_length (by decide))
    rwa [← hfail] at hok
  exact restarts_safe (fun _ => none) sampleDir _ samplePlan 2 sampleDir_plans rfl _
    (sample_begin.trans (exception_then_crash hvalid))

/-- **Interruptions forget executions.** Killed twice after its first command took effect, before anything
    was saved, the sample plan starts that command a third time, with a limit of two. -/
theorem restarts_unsafe : validateBaseUpgradePlan (.dict samplePlan) = .ok () ∧
    ∃ m, Reaches (fun _ => none) sampleDir (fun _ => True) m ∧
      ¬ m.log.Pairwise (fun a b => a.succeeded = true → b.index ≠ a.index) ∧
      2 < m.log.countP (fun e => e.index == 0) := by
  have hkill : ∀ history : List Execution, Step (fun _ => none) sampleDir (fun _ => True)
      ⟨none, .running ((Progress.init 2 2).running samplePlan) 0, history, true⟩
      ⟨none, .idle, history ++ [⟨0, true⟩], false⟩ := fun history => .crash true trivial
  have hrun : Reaches (fun _ => none) sampleDir (fun _ => True)
      ⟨none, .running ((Progress.init 2 2).running samplePlan) 0, [⟨0, true⟩, ⟨0, true⟩], true⟩ :=
    (((sample_begin.tail (hkill [])).trans sample_begin).tail (hkill [⟨0, true⟩])).trans sample_begin
  refine ⟨samplePlan_valid, _, hrun, ?_, ?_⟩
  · simp [Machine.log, Phase.cutOff]
  · simp [Machine.log, Phase.cutOff]

end Sample

end Workbench.Bios
