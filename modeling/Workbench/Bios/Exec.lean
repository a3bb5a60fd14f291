import Workbench.Bios.Plan

/-!
# `Bios.Exec` — `executeNextAction` and whole update cycles

The execution half of `bios_update_tools.py`. `executeNextAction` is a `while True` loop; one pass of it is
split at the command it runs:

* `beginAction` — pick the next action and mark it in progress (or finish the plan);
* `afterSuccess` / `afterException` — what the `try` block and its handler do with the outcome.

A cycle is `load_upgrade_plan_with_state`, `execute_next_action`, `save_upgrade_state`. Commands are opaque:
their outcomes come from a stream, and every execution is logged with its action index.
-/

namespace Workbench.Bios

open Python

/-- What `exec_command` did: it returned, or it raised an exception with this text. -/
inductive Outcome where
  | success
  | exception (text : String)
  deriving DecidableEq

/-- One execution of a command: the index of its action, and whether it returned normally. -/
structure Execution where
  index : Nat
  succeeded : Bool
  deriving DecidableEq

/-! ## One pass of the loop -/

/-- `_find_next_pending_action`. -/
def findNextPendingAction (plan : PyDict) : Option Nat :=
  (actionsOf plan).findIdx? (fun a => !(item a "status").eq (.str "completed"))

/-- `plan["actions"][i]`. -/
def actionAt (plan : PyDict) (i : Nat) : PyDict := (actionsOf plan).getD i []

/-- Assignment of the action dictionary at index `i`. -/
def putAction (plan : PyDict) (i : Nat) (a : PyDict) : PyDict :=
  plan.put "actions" (.list (((actionsOf plan).set i a).map .dict))

/-- `action_index is None`: all actions are completed. -/
def finishPlan (plan : PyDict) : PyDict :=
  (((plan.put "state" (.str "completed")).put "current_action_index"
    (.int (actionsOf plan).length)).put "current_action_id" .none).put "last_error" .none

/-- The statements before `exec_command`. -/
def beginAction (plan : PyDict) (i : Nat) : PyDict :=
  let action := actionAt plan i
  let plan := plan.put "current_action_index" (.int i)
  let plan := plan.put "current_action_id" (item action "action_id")
  let plan := plan.put "state" (.str "in_progress")
  let attempts := (getOr action "attempts" (.int 0)).asInt.getD 0 + 1
  putAction plan i ((action.put "status" (.str "in_progress")).put "attempts" (.int attempts))

/-- The rest of the `try` block; the flag says whether the loop returns here (a reset is due). -/
def afterSuccess (plan : PyDict) (i : Nat) : PyDict × Bool :=
  let action := (actionAt plan i).put "status" (.str "completed")
  let plan := putAction plan i action
  let plan := plan.put "last_completed_action_id" (item action "action_id")
  let plan := plan.put "last_error" .none
  let plan := match findNextPendingAction plan with
    | none =>
        ((plan.put "state" (.str "completed")).put "current_action_index"
          (.int (actionsOf plan).length)).put "current_action_id" .none
    | some next =>
        (plan.put "current_action_index" (.int next)).put "current_action_id"
          (item (actionAt plan next) "action_id")
  (plan, (getOr action "reset_after_action" (.bool false)).truthy)

/-- The exception handler; the loop returns after it. -/
def afterException (plan : PyDict) (i : Nat) (text : String) : PyDict :=
  let action := actionAt plan i
  let maxAttempts := (item plan "max_attempts_per_action").asInt.getD 0
  let plan := plan.put "last_error" (.str text)
  if maxAttempts ≤ (item action "attempts").asInt.getD 0 then
    (putAction plan i (action.put "status" (.str "failed"))).put "state" (.str "failed")
  else
    (putAction plan i (action.put "status" (.str "pending"))).put "state" (.str "in_progress")

/-! ## The loop and the cycle -/

/-- The `while True` loop, with the outcomes of the commands still to come. `none` is running out of fuel. -/
def executeLoop : Nat → (Nat → Outcome) → PyDict → Option (PyDict × List Execution)
  | 0, _, _ => none
  | fuel + 1, outcomes, plan =>
      match findNextPendingAction plan with
      | none => some (finishPlan plan, [])
      | some i =>
          let started := beginAction plan i
          match outcomes 0 with
          | .exception text => some (afterException started i text, [⟨i, false⟩])
          | .success =>
              let (plan', reset) := afterSuccess started i
              if reset then some (plan', [⟨i, true⟩])
              else
                (executeLoop fuel (fun k => outcomes (k + 1)) plan').map fun r =>
                  (r.1, ⟨i, true⟩ :: r.2)

/-- The fuel the loop gets: every pass but the last completes an action. -/
def loopFuel (plan : PyDict) : Nat := (actionsOf plan).length + 1

/-- `executeNextAction` (the outer `none` is an exception). -/
def executeNextAction (outcomes : Nat → Outcome) (plan : PyDict) :
    Except PyErr (Option (PyDict × List Execution)) := do
  validateUpgradePlan (.dict plan)
  let final ← (item plan "state").inStrSet finalState
  if final then return some (plan, [])
  return executeLoop (loopFuel plan) outcomes plan

/-- `execute_next_action`: any exception is logged and `None` returned. -/
def runNextAction (outcomes : Nat → Outcome) (plan : PyDict) : Option (PyDict × List Execution) :=
  (executeNextAction outcomes plan).toOption.join

/-- What a finished cycle leaves: the plan in memory, the state file, and the commands executed. -/
structure CycleEnd where
  plan : PyDict
  stateFile : FileContent
  executed : List Execution

/-- One cycle: load, execute, save. `none` when one of the three does not succeed. -/
def cycle (intParse : String → Option Int) (planFile : FileContent) (outcomes : Nat → Outcome)
    (stateFile : Option FileContent) : Option CycleEnd := do
  let plan ← loadUpgradePlanWithState intParse planFile stateFile
  let (plan', executed) ← runNextAction outcomes plan
  let saved ← saveUpgradeState plan'
  return ⟨plan', saved, executed⟩

/-- A run of cycles from the state file `stateFile`, one outcome stream per cycle; the executions of all
    cycles are concatenated, and the plan is the one of the last cycle. -/
def runCycles (intParse : String → Option Int) (planFile : FileContent) :
    List (Nat → Outcome) → Option FileContent → Option (List CycleEnd)
  | [], _ => some []
  | outcomes :: rest, stateFile => do
      let e ← cycle intParse planFile outcomes stateFile
      let es ← runCycles intParse planFile rest (some e.stateFile)
      return e :: es

end Workbench.Bios
