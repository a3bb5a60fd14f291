import Workbench.Python.Value

/-!
# `Bios.Plan` — upgrade plans, runtime states and their validation

The validation and persistence half of `bios_update_tools.py`: a *base plan* is read from a plan file, a
*runtime state* from the state file, both as decoded JSON, and `mergePlanAndState` overlays the second on
the first. Every function below is the source function of the same name; a `dict` that validation has
accepted is read with `item`, as its keys are known to be there.

`int(s)` of a *string* is the parameter `intParse`: it is only reached when a plan spells its retry limit as
a string.

## Contents
- **Files.** `FileContent`: what opening and `json.load`ing a file amounts to.
- **Validation.** `validateBaseUpgradePlan`, `validateUpgradePlan`, `validateUpgradeState`.
- **State.** `defaultStateFromBasePlan`, `runtimeStateMatchesBasePlan`, `extractRuntimeStateFromPlan`.
- **Load, merge, save.** `loadOrInitRuntimeState`, `mergePlanAndState`, `saveRuntimeState`, and the two
  `UpgradePlanManager` wrappers that turn an exception into `None` or `False`.
-/

namespace Workbench.Bios

open Python

/-! ## Constants and files -/

/-- `STATE_VALUES["allowed_states"]`. -/
def allowedStates : List String := ["pending", "in_progress", "completed", "failed"]

/-- `STATE_VALUES["active_state"]`. -/
def activeState : List String := ["pending", "in_progress"]

/-- `STATE_VALUES["final_state"]`. -/
def finalState : List String := ["completed", "failed"]

/-- `RUNTIME_STATE_FILE_VERSION = 1.00`. -/
def runtimeStateFileVersion : PyVal := .float (.fin 1)

/-- An existing file as the code reads it: `json.load` either raises or returns a value. -/
inductive FileContent where
  | undecodable
  | json (v : PyVal)

/-- `json.load(f)`. -/
def jsonLoad : FileContent → Except PyErr PyVal
  | .undecodable => .error .decodeError
  | .json v => .ok v

/-! ## Helpers shared by the validators -/

/-- `is_non_empty_string`: a `str` with something left after `strip()`. -/
def isNonEmptyString : PyVal → Bool
  | .str s => s.toList.any (fun c => !isSpace c)
  | _ => false

/-- The elements of a `list` value. -/
def items : PyVal → List PyVal
  | .list xs => xs
  | _ => []

/-- `isinstance(v, list)`. -/
def isList : PyVal → Bool
  | .list _ => true
  | _ => false

/-- The entries of a `dict` value. -/
def entries : PyVal → PyDict
  | .dict d => d
  | _ => []

/-- `for i, x in enumerate(xs): check(i, x)`. -/
def forEnum (check : Nat → PyVal → Except PyErr Unit) : Nat → List PyVal → Except PyErr Unit
  | _, [] => .ok ()
  | i, x :: xs => do
      check i x
      forEnum check (i + 1) xs

/-- The keys of `required` that `d` lacks, joined as in the error texts. -/
def missingKeys (required : List String) (d : PyDict) : String :=
  ", ".intercalate (required.filter (fun k => !Dict.hasKey d k))

/-! ## `validate_base_upgrade_plan` -/

def basePlanKeys : List String :=
  ["from_version", "to_version", "board_name", "platform", "payload_path", "actions"]

/-- The body of the loop over `base_plan["actions"]`. -/
def validateBaseAction (i : Nat) (action : PyVal) : Except PyErr Unit :=
  match action with
  | .dict a => do
      require (Dict.hasKey a "action_id") "MISSING_BASE_ACTION_FIELD"
        s!"action[{i}] missing field: action_id"
      require (Dict.hasKey a "command") "MISSING_BASE_ACTION_FIELD"
        s!"action[{i}] missing field: command"
      require (isNonEmptyString (item a "action_id")) "INVALID_BASE_ACTION_ID"
        s!"action[{i}] has invalid action_id"
      require (isNonEmptyString (item a "command")) "INVALID_BASE_ACTION_COMMAND"
        s!"action[{i}] has invalid command"
      require (match Dict.get? a "reset_after_action" with
          | some (.bool _) => true
          | some _ => false
          | none => true) "INVALID_BASE_ACTION_RESET_AFTER_ACTION"
        s!"action[{i}] reset_after_action must be boolean"
  | _ => raisePlan "INVALID_BASE_ACTION_TYPE" s!"action[{i}] must be a dict"

def validateBaseUpgradePlan (basePlan : PyVal) : Except PyErr Unit :=
  match basePlan with
  | .dict plan => do
      require (basePlanKeys.all (Dict.hasKey plan)) "MISSING_BASE_PLAN_FIELD"
        ("missing base plan fields: " ++ missingKeys basePlanKeys plan)
      require (isNonEmptyString (item plan "from_version")) "INVALID_BASE_PLAN_FROM_VERSION"
        "base plan from_version must be a non-empty string"
      require (isNonEmptyString (item plan "to_version")) "INVALID_BASE_PLAN_TO_VERSION"
        "base plan to_version must be a non-empty string"
      require (isNonEmptyString (item plan "payload_path")) "INVALID_BASE_PLAN_PAYLOAD_PATH"
        "base plan payload_path must be a non-empty string"
      require (isNonEmptyString (item plan "board_name")) "INVALID_BASE_PLAN_BOARD_NAME"
        "base plan board_name must be a non-empty string"
      require (isNonEmptyString (item plan "platform")) "INVALID_BASE_PLAN_PLATFORM"
        "base plan platform must be a non-empty string"
      require (!(items (item plan "actions")).isEmpty) "INVALID_BASE_PLAN_ACTIONS"
        "base plan actions must be a non-empty list"
      forEnum validateBaseAction 0 (items (item plan "actions"))
  | _ => raisePlan "INVALID_BASE_PLAN_TYPE" "base plan must be a dict"

/-! ## `validate_upgrade_plan` -/

def planKeys : List String :=
  ["from_version", "to_version", "board_name", "platform", "payload_path", "actions",
    "current_action_index", "max_attempts_per_action", "state", "last_error"]

/-- The body of the loop over `plan["actions"]`. -/
def validatePlanAction (i : Nat) (action : PyVal) : Except PyErr Unit :=
  match action with
  | .dict a => do
      require (Dict.hasKey a "action_id") "MISSING_ACTION_FIELD" s!"action[{i}] missing field: action_id"
      require (Dict.hasKey a "command") "MISSING_ACTION_FIELD" s!"action[{i}] missing field: command"
      require (Dict.hasKey a "status") "MISSING_ACTION_FIELD" s!"action[{i}] missing field: status"
      require (Dict.hasKey a "attempts") "MISSING_ACTION_FIELD" s!"action[{i}] missing field: attempts"
      require (isNonEmptyString (item a "action_id")) "INVALID_ACTION_ID"
        s!"action[{i}] action_id must be non-empty string"
      require (isNonEmptyString (item a "command")) "INVALID_ACTION_COMMAND"
        s!"action[{i}] command must be non-empty string"
      let known ← (item a "status").inStrSet allowedStates
      require known "INVALID_ACTION_STATUS" s!"action[{i}].status is invalid"
      require ((item a "attempts").isIntGe 0) "INVALID_ACTION_ATTEMPTS"
        s!"action[{i}].attempts must be non-negative int"
  | _ => raisePlan "INVALID_ACTION_TYPE" s!"action at index {i} must be a dict"

/-- `plan["current_action_index"] <= n`. -/
def indexWithin (v : PyVal) (n : Nat) : Bool :=
  match v.asInt with
  | some i => decide (i ≤ n)
  | none => true

def validateUpgradePlan (plan : PyVal) : Except PyErr Unit :=
  match plan with
  | .dict p => do
      require (planKeys.all (Dict.hasKey p)) "MISSING_PLAN_FIELD"
        ("missing plan fields: " ++ missingKeys planKeys p)
      require (isNonEmptyString (item p "from_version")) "INVALID_PLAN_FROM_VERSION"
        "plan.from_version must be a non-empty string"
      require (isNonEmptyString (item p "to_version")) "INVALID_PLAN_TO_VERSION"
        "plan.to_version must be a non-empty string"
      require (isNonEmptyString (item p "payload_path")) "INVALID_PLAN_PAYLOAD_PATH"
        "plan.payload_path must be a non-empty string"
      require (isNonEmptyString (item p "board_name")) "INVALID_PLAN_BOARD_NAME"
        "plan.board_name must be a non-empty string"
      require (isNonEmptyString (item p "platform")) "INVALID_PLAN_PLATFORM"
        "plan.platform must be a non-empty string"
      require (!(items (item p "actions")).isEmpty) "INVALID_PLAN_ACTIONS"
        "plan.actions must be a non-empty list"
      require ((item p "current_action_index").isIntGe 0) "INVALID_ACTION_INDEX"
        "current_action_index must be a non-negative int"
      require ((item p "max_attempts_per_action").isIntGe 1) "INVALID_MAX_ATTEMPTS"
        "max_attempts_per_action must be >= 1"
      let known ← (item p "state").inStrSet allowedStates
      require known "INVALID_PLAN_STATE"
        "state must be one of ['completed', 'failed', 'in_progress', 'pending']"
      forEnum validatePlanAction 0 (items (item p "actions"))
      require (indexWithin (item p "current_action_index") (items (item p "actions")).length)
        "ACTION_INDEX_OUT_OF_RANGE" "current_action_index out of actions bounds"
  | _ => raisePlan "INVALID_PLAN_TYPE" "plan must be a dict"

/-! ## `validate_upgrade_state` -/

def stateKeys : List String :=
  ["runtime_file_version", "from_version", "to_version", "board_name", "platform",
    "max_attempts_per_action", "current_action_index", "current_action_id",
    "last_completed_action_id", "state", "last_error", "actions"]

/-- `for key in required_keys: if key not in state: raise ...`. -/
def requireKeys (d : PyDict) : List String → Except PyErr Unit
  | [] => .ok ()
  | k :: ks => do
      require (Dict.hasKey d k) "MISSING_STATE_FIELD" s!"missing state field: {k}"
      requireKeys d ks

/-- The `runtime_file_version` check; `float(v)` raises `OverflowError` on a huge `int`. -/
def checkFileVersion (v : PyVal) : Except PyErr Unit :=
  let mismatch : PyErr := .planValidationError "STATE_FILE_VERSION_MISMATCH"
    [.text "runtime_file_version ", .value v, .text " does not match expected 1.0"]
  match v.number with
  | some _ => do
      let f ← v.toFloat
      if PyVal.numEq f (.fin 1) then .ok () else .error mismatch
  | none => .error mismatch

/-- The body of the loop over `state["actions"]`. -/
def validateActionState (i : Nat) (actionState : PyVal) : Except PyErr Unit :=
  match actionState with
  | .dict a => do
      require (isNonEmptyString (item a "action_id")) "INVALID_ACTION_STATE_ID"
        s!"invalid action_id for state action {i}"
      let known ← (item a "status").inStrSet allowedStates
      require known "INVALID_ACTION_STATE_STATUS" s!"invalid status for state action {i}"
      require ((item a "attempts").isIntGe 0) "INVALID_ACTION_STATE_ATTEMPTS"
        s!"invalid attempts for state action {i}"
  | _ => raisePlan "INVALID_ACTION_STATE_TYPE" s!"state action {i} must be a dict"

def validateUpgradeState (state : PyVal) (actionsCount : Nat) : Except PyErr Unit :=
  match state with
  | .dict s => do
      requireKeys s stateKeys
      checkFileVersion (item s "runtime_file_version")
      require ((item s "max_attempts_per_action").isIntGe 1) "INVALID_STATE_MAX_ATTEMPTS"
        "max_attempts_per_action must be >= 1"
      require (isNonEmptyString (item s "board_name")) "INVALID_STATE_BOARD_NAME"
        "state board_name is invalid"
      require (isNonEmptyString (item s "platform")) "INVALID_STATE_PLATFORM"
        "state platform is invalid"
      require ((item s "current_action_index").isIntGe 0) "INVALID_STATE_ACTION_INDEX"
        "current_action_index must be a non-negative int"
      let known ← (item s "state").inStrSet allowedStates
      require known "INVALID_STATE_VALUE"
        "state has invalid value, must be one of ['completed', 'failed', 'in_progress', 'pending']"
      require (isList (item s "actions") && (items (item s "actions")).length == actionsCount)
        "INVALID_STATE_ACTIONS" "state actions length must match base plan actions"
      forEnum validateActionState 0 (items (item s "actions"))
      require (indexWithin (item s "current_action_index") actionsCount)
        "STATE_ACTION_INDEX_OUT_OF_RANGE" "state current_action_index out of range"
  | _ => raisePlan "INVALID_STATE_TYPE" "state file must be a dict"

/-! ## Runtime state -/

/-- The actions of a plan or of a state, as dictionaries. -/
def actionsOf (d : PyDict) : List PyDict := (items (item d "actions")).map entries

/-- `int(v)`. -/
def pyInt (intParse : String → Option Int) : PyVal → Except PyErr Int
  | .int i => .ok i
  | .bool b => .ok (if b then 1 else 0)
  | .float (.fin q) => .ok (q.num.tdiv q.den)
  | .float (.inf _) => .error .overflowError
  | .float .nan => .error .valueError
  | .str s =>
      match intParse s with
      | some i => .ok i
      | none => .error .valueError
  | _ => .error .typeError

def defaultStateFromBasePlan (intParse : String → Option Int) (basePlan : PyDict) :
    Except PyErr PyDict := do
  let maxAttempts ← pyInt intParse (getOr basePlan "max_attempts_per_action" (.int 2))
  return [("runtime_file_version", runtimeStateFileVersion),
    ("from_version", item basePlan "from_version"),
    ("to_version", item basePlan "to_version"),
    ("board_name", item basePlan "board_name"),
    ("platform", item basePlan "platform"),
    ("max_attempts_per_action", .int maxAttempts),
    ("current_action_index", .int 0),
    ("current_action_id",
      if (item basePlan "actions").truthy then item ((actionsOf basePlan).getD 0 []) "action_id"
      else .none),
    ("last_completed_action_id", .none),
    ("state", .str "pending"),
    ("last_error", .none),
    ("actions", .list ((actionsOf basePlan).map fun a =>
      .dict [("action_id", item a "action_id"), ("status", .str "pending"), ("attempts", .int 0)]))]

/-- `state_actions[i].get("action_id") == base_actions[i].get("action_id")` at every position. -/
def sameActionIds : List PyDict → List PyDict → Bool
  | s :: ss, b :: bs => (item s "action_id").eq (item b "action_id") && sameActionIds ss bs
  | [], [] => true
  | _, _ => false

def runtimeStateMatchesBasePlan (state basePlan : PyDict) : Bool :=
  (item state "from_version").eq (item basePlan "from_version") &&
  (item state "to_version").eq (item basePlan "to_version") &&
  (item state "board_name").eq (item basePlan "board_name") &&
  (item state "platform").eq (item basePlan "platform") &&
  sameActionIds (actionsOf state) (actionsOf basePlan)

def extractRuntimeStateFromPlan (plan : PyDict) : PyDict :=
  [("runtime_file_version", runtimeStateFileVersion),
    ("from_version", item plan "from_version"),
    ("to_version", item plan "to_version"),
    ("board_name", item plan "board_name"),
    ("platform", item plan "platform"),
    ("max_attempts_per_action", item plan "max_attempts_per_action"),
    ("current_action_index", item plan "current_action_index"),
    ("current_action_id", item plan "current_action_id"),
    ("last_completed_action_id", item plan "last_completed_action_id"),
    ("state", item plan "state"),
    ("last_error", item plan "last_error"),
    ("actions", .list ((actionsOf plan).map fun a =>
      .dict [("action_id", item a "action_id"), ("status", getOr a "status" (.str "pending")),
        ("attempts", getOr a "attempts" (.int 0))]))]

/-- `_first_pending_action_index_from_state`. -/
def firstPendingActionIndexFromState (state : PyDict) : PyVal :=
  match (actionsOf state).findIdx? (fun a => !(item a "status").eq (.str "completed")) with
  | some i => .int i
  | none => .none

/-- `_last_completed_action_id_from_state`. -/
def lastCompletedActionIdFromState (state : PyDict) : PyVal :=
  match (actionsOf state).reverse.find? (fun a => (item a "status").eq (.str "completed")) with
  | some a => item a "action_id"
  | none => .none

/-! ## Load, merge, save -/

def loadBasePlan (file : FileContent) : Except PyErr PyDict := do
  let basePlan ← jsonLoad file
  validateBaseUpgradePlan basePlan
  return entries basePlan

/-- The state file is read *before* the `try`, and only `PlanValidationError` is caught. -/
def loadOrInitRuntimeState (intParse : String → Option Int) (basePlan : PyDict)
    (stateFile : Option FileContent) : Except PyErr PyDict := do
  let n := (actionsOf basePlan).length
  let state ← match stateFile with
    | none => defaultStateFromBasePlan intParse basePlan
    | some content => do
        let state ← jsonLoad content
        match validateUpgradeState state n with
        | .ok () =>
            if runtimeStateMatchesBasePlan (entries state) basePlan then pure (entries state)
            else defaultStateFromBasePlan intParse basePlan
        | .error (.planValidationError _ _) => defaultStateFromBasePlan intParse basePlan
        | .error e => .error e
  validateUpgradeState (.dict state) n
  return state

/-- The field-by-field overlay of a runtime state on a base plan. -/
def overlay (basePlan runtimeState : PyDict) : PyDict :=
  let copied := ["max_attempts_per_action", "current_action_index", "current_action_id",
    "last_completed_action_id", "state", "last_error"].foldl
      (fun (plan : PyDict) k => plan.put k (item runtimeState k)) basePlan
  copied.put "actions" (.list ((actionsOf basePlan).mapIdx fun i a =>
    let s := (actionsOf runtimeState).getD i []
    .dict (((a.put "action_id" (item s "action_id")).put "status" (item s "status")).put
      "attempts" (item s "attempts"))))

def mergePlanAndState (basePlan runtimeState : PyDict) : Except PyErr PyDict := do
  let merged := overlay basePlan runtimeState
  let merged := match item merged "current_action_index" with
    | .none => merged.put "current_action_index" (firstPendingActionIndexFromState runtimeState)
    | _ => merged
  let merged :=
    if (item merged "last_completed_action_id").truthy then merged
    else merged.put "last_completed_action_id" (lastCompletedActionIdFromState runtimeState)
  validateUpgradePlan (.dict merged)
  return merged

def saveRuntimeState (plan : PyDict) : Except PyErr FileContent := do
  validateUpgradePlan (.dict plan)
  return .json (.dict (extractRuntimeStateFromPlan plan))

/-- `load_upgrade_plan_with_state`: any exception is logged and `None` returned. -/
def loadUpgradePlanWithState (intParse : String → Option Int) (planFile : FileContent)
    (stateFile : Option FileContent) : Option PyDict :=
  Except.toOption do
    let basePlan ← loadBasePlan planFile
    let runtime ← loadOrInitRuntimeState intParse basePlan stateFile
    mergePlanAndState basePlan runtime

/-- `save_upgrade_state`: the new content of the state file, or `none` for `False`. -/
def saveUpgradeState (plan : PyDict) : Option FileContent := (saveRuntimeState plan).toOption

end Workbench.Bios
