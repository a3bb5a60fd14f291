import Mathlib.Data.List.Basic
import Mathlib.Logic.Function.Basic
import Workbench.Bios.Accept
import Workbench.Bios.Exec

/-!
# `Bios.Progress` — an upgrade plan as a position and a counter

The abstract model of the executor. All a merged plan knows beyond its base plan is a `Progress`: how often
each completed action was tried, how often the next one was, whether anything ran at all, and the last
error. `Progress.plan` writes a progress into a base plan, field by field as the source does.

## Contents
- **Abstract machine.** `Progress` with its two moves `succeed` and `fail`, and `loop`.
- **Concrete plans.** `planWith`, the normal form of a merged plan, with one read or write law per field.
- **Simulation.** `executeLoop_plan`: the source's loop on `g.plan base` is `Progress.loop` on `g`.
-/

namespace Workbench.Bios

open Python

/-! ## The abstract machine -/

/-- Where the upgrade stands, for `n` actions of at most `max` attempts each. -/
structure Progress (n max : Nat) where
  /-- Attempts of the completed actions, in order. -/
  done : List Nat
  /-- Attempts of the first action that is not completed. -/
  attempts : Nat
  started : Bool
  lastError : Option String
  done_le : done.length ≤ n
  done_bounds : ∀ a ∈ done, 1 ≤ a ∧ a ≤ max
  attempts_le : attempts ≤ max
  attempts_done : done.length = n → attempts = 0
  error_done : done.length = n → lastError = none
  fresh : started = false → done = [] ∧ attempts = 0

namespace Progress

variable {n max : Nat}

/-- Nothing has run yet. -/
def init (n max : Nat) : Progress n max where
  done := []
  attempts := 0
  started := false
  lastError := none
  done_le := Nat.zero_le n
  done_bounds := by simp
  attempts_le := Nat.zero_le max
  attempts_done := fun _ => rfl
  error_done := fun _ => rfl
  fresh := fun _ => ⟨rfl, rfl⟩

/-- There is an action left, and it may be tried again. -/
def Active (g : Progress n max) : Prop := g.done.length < n ∧ g.attempts < max

instance (g : Progress n max) : Decidable g.Active := inferInstanceAs (Decidable (_ ∧ _))

/-- The next action succeeds. -/
def succeed (g : Progress n max) (h : g.Active) : Progress n max where
  done := g.done ++ [g.attempts + 1]
  attempts := 0
  started := true
  lastError := none
  done_le := by simpa using Nat.succ_le_of_lt h.1
  done_bounds := by
    intro a ha
    rcases List.mem_append.mp ha with ha | ha
    · exact g.done_bounds a ha
    · obtain rfl := List.mem_singleton.mp ha
      exact ⟨by omega, h.2⟩
  attempts_le := Nat.zero_le max
  attempts_done := fun _ => rfl
  error_done := fun _ => rfl
  fresh := by simp

/-- The next action fails with the text `text`. -/
def fail (g : Progress n max) (h : g.Active) (text : String) : Progress n max where
  done := g.done
  attempts := g.attempts + 1
  started := true
  lastError := some text
  done_le := g.done_le
  done_bounds := g.done_bounds
  attempts_le := h.2
  attempts_done := fun hn => absurd h.1 (by omega)
  error_done := fun hn => absurd h.1 (by omega)
  fresh := by simp

/-- The loop: run actions until one fails, one asks for a reset, or none is left. -/
def loop (resets : Nat → Bool) :
    Nat → (Nat → Outcome) → Progress n max → Progress n max × List Execution
  | 0, _, g => (g, [])
  | fuel + 1, outcomes, g =>
      if h : g.Active then
        match outcomes 0 with
        | .exception text => (g.fail h text, [⟨g.done.length, false⟩])
        | .success =>
            if resets g.done.length then (g.succeed h, [⟨g.done.length, true⟩])
            else
              let r := loop resets fuel (fun k => outcomes (k + 1)) (g.succeed h)
              (r.1, ⟨g.done.length, true⟩ :: r.2)
      else (g, [])

/-! ### What the plan fields are -/

/-- The status of action `i`. -/
def statusAt (g : Progress n max) (i : Nat) : String :=
  if i < g.done.length then "completed"
  else if i = g.done.length ∧ g.attempts = max then "failed"
  else "pending"

/-- The attempts of action `i`. -/
def attemptsAt (g : Progress n max) (i : Nat) : Nat :=
  if i < g.done.length then g.done.getD i 0
  else if i = g.done.length then g.attempts
  else 0

/-- The state of the plan. -/
def planState (g : Progress n max) : String :=
  if g.done.length = n then "completed"
  else if g.attempts = max then "failed"
  else if g.started then "in_progress"
  else "pending"

/-- `last_error` as a JSON value. -/
def errorVal (g : Progress n max) : PyVal :=
  match g.lastError with
  | some text => .str text
  | none => .none

end Progress

/-! ## Concrete plans -/

/-- A base action with a status and an attempt counter. -/
def actionWith (a : PyDict) (status : String) (attempts : Nat) : PyDict :=
  (a.put "status" (.str status)).put "attempts" (.int attempts)

/-- The runtime fields of a merged plan, in the order `mergePlanAndState` writes them. -/
def runtimeFields (base : PyDict) (max index : Nat) (currentId lastId : PyVal) (state : String)
    (error : PyVal) (status : Nat → String) (attempts : Nat → Nat) : PyDict :=
  [("max_attempts_per_action", .int max), ("current_action_index", .int index),
    ("current_action_id", currentId), ("last_completed_action_id", lastId), ("state", .str state),
    ("last_error", error),
    ("actions", .list (((actionsOf base).mapIdx fun i a =>
      actionWith a (status i) (attempts i)).map .dict))]

/-- The normal form of a merged plan: the runtime fields over the base plan. -/
def planWith (base : PyDict) (max index : Nat) (currentId lastId : PyVal) (state : String)
    (error : PyVal) (status : Nat → String) (attempts : Nat → Nat) : PyDict :=
  Dict.update base (runtimeFields base max index currentId lastId state error status attempts)

/-- `plan["actions"][i]["action_id"]` of the base plan. -/
def idAt (base : PyDict) (i : Nat) : PyVal := item (actionAt base i) "action_id"

section PlanWith

variable {base : PyDict} {max index : Nat} {currentId lastId error : PyVal} {state : String}
  {status : Nat → String} {attempts : Nat → Nat}

theorem runtimeFields_nodup :
    (runtimeFields base max index currentId lastId state error status attempts).keys.Nodup := by
  simp [runtimeFields, Dict.keys]

theorem item_planWith {k : String} {v : PyVal}
    (h : (runtimeFields base max index currentId lastId state error status attempts).get? k = some v) :
    item (planWith base max index currentId lastId state error status attempts) k = v := by
  rw [item, planWith, Dict.get?_update runtimeFields_nodup h, Option.getD_some]

/-- A field that is not a runtime field is the base plan's. -/
theorem item_planWith_base {k : String}
    (h : k ∉ (runtimeFields base max index currentId lastId state error status attempts).keys) :
    item (planWith base max index currentId lastId state error status attempts) k = item base k := by
  rw [item, planWith, Dict.get?_update_of_not_mem h, item]

/-- Writing a runtime field of a plan in normal form changes that field of the normal form. -/
theorem put_planWith {k : String}
    (h : (runtimeFields base max index currentId lastId state error status attempts).hasKey k = true)
    (v : PyVal) :
    (planWith base max index currentId lastId state error status attempts).put k v =
      Dict.update base
        ((runtimeFields base max index currentId lastId state error status attempts).put k v) := by
  rw [planWith, Dict.put_update runtimeFields_nodup h]

@[simp] theorem planWith_put_index (i : Nat) :
    (planWith base max index currentId lastId state error status attempts).put
      "current_action_index" (.int i) =
      planWith base max i currentId lastId state error status attempts := by
  rw [put_planWith (by simp [runtimeFields, Dict.hasKey])]
  simp [planWith, runtimeFields, Dict.put]

@[simp] theorem planWith_put_currentId (v : PyVal) :
    (planWith base max index currentId lastId state error status attempts).put
      "current_action_id" v = planWith base max index v lastId state error status attempts := by
  rw [put_planWith (by simp [runtimeFields, Dict.hasKey])]
  simp [planWith, runtimeFields, Dict.put]

@[simp] theorem planWith_put_lastId (v : PyVal) :
    (planWith base max index currentId lastId state error status attempts).put
      "last_completed_action_id" v = planWith base max index currentId v state error status attempts := by
  rw [put_planWith (by simp [runtimeFields, Dict.hasKey])]
  simp [planWith, runtimeFields, Dict.put]

@[simp] theorem planWith_put_state (s : String) :
    (planWith base max index currentId lastId state error status attempts).put "state" (.str s) =
      planWith base max index currentId lastId s error status attempts := by
  rw [put_planWith (by simp [runtimeFields, Dict.hasKey])]
  simp [planWith, runtimeFields, Dict.put]

@[simp] theorem planWith_put_error (v : PyVal) :
    (planWith base max index currentId lastId state error status attempts).put "last_error" v =
      planWith base max index currentId lastId state v status attempts := by
  rw [put_planWith (by simp [runtimeFields, Dict.hasKey])]
  simp [planWith, runtimeFields, Dict.put]

@[simp] theorem actionsOf_planWith :
    actionsOf (planWith base max index currentId lastId state error status attempts) =
      (actionsOf base).mapIdx fun i a => actionWith a (status i) (attempts i) := by
  rw [actionsOf, item_planWith (k := "actions") (by simp [runtimeFields]; rfl), items, List.map_map]
  exact List.map_id _

theorem actionAt_planWith {i : Nat} (hi : i < (actionsOf base).length) :
    actionAt (planWith base max index currentId lastId state error status attempts) i =
      actionWith (actionAt base i) (status i) (attempts i) := by
  simp [actionAt, List.getD_eq_getElem?_getD, hi]

@[simp] theorem actionWith_put_status (a : PyDict) (s s' : String) (k : Nat) :
    (actionWith a s k).put "status" (.str s') = actionWith a s' k := by
  rw [actionWith, Dict.put_comm (by decide) (Dict.hasKey_put_self a "status" _), Dict.put_put,
    actionWith]

@[simp] theorem actionWith_put_attempts (a : PyDict) (s : String) (k : Nat) (k' : Nat) :
    (actionWith a s k).put "attempts" (.int k') = actionWith a s k' := by
  rw [actionWith, Dict.put_put, actionWith]

/-- Replacing one action of a plan in normal form. -/
theorem putAction_planWith (i : Nat) (s : String) (k : Nat) :
    putAction (planWith base max index currentId lastId state error status attempts) i
        (actionWith (actionAt base i) s k) =
      planWith base max index currentId lastId state error (Function.update status i s)
        (Function.update attempts i k) := by
  have hacts : ((actionsOf base).mapIdx fun j a => actionWith a (status j) (attempts j)).set i
      (actionWith (actionAt base i) s k) =
      (actionsOf base).mapIdx fun j a =>
        actionWith a (Function.update status i s j) (Function.update attempts i k j) := by
    apply List.ext_getElem?
    intro j
    by_cases hj : i = j
    · subst hj
      by_cases hi : i < (actionsOf base).length
      · simp [hi, actionAt, List.getD_eq_getElem?_getD]
      · simp [hi]
    · simp [List.getElem?_set_ne hj, Function.update_of_ne (Ne.symm hj)]
  rw [putAction, actionsOf_planWith, hacts, put_planWith (by simp [runtimeFields, Dict.hasKey])]
  simp [planWith, runtimeFields, Dict.put]

/-- The first action whose status is not `completed`. -/
theorem findNext_planWith {i : Nat} (hi : i < (actionsOf base).length)
    (hdone : ∀ j < i, status j = "completed") (hnext : status i ≠ "completed") :
    findNextPendingAction (planWith base max index currentId lastId state error status attempts) =
      some i := by
  rw [findNextPendingAction, actionsOf_planWith, List.findIdx?_eq_some_iff_getElem]
  refine ⟨by simpa using hi, ?_, ?_⟩
  · simpa [actionWith] using hnext
  · intro j hj
    simpa [actionWith] using hdone j hj

theorem findNext_planWith_none (hdone : ∀ j < (actionsOf base).length, status j = "completed") :
    findNextPendingAction (planWith base max index currentId lastId state error status attempts) =
      none := by
  rw [findNextPendingAction, actionsOf_planWith, List.findIdx?_eq_none_iff]
  intro a ha
  obtain ⟨j, hj, rfl⟩ := List.getElem_of_mem ha
  have hj' : j < (actionsOf base).length := by simpa using hj
  simpa [actionWith] using hdone j hj'

end PlanWith

/-! ## Plans of a progress -/

/-- Whether the action at index `i` asks for a reset. -/
def resetAt (base : PyDict) (i : Nat) : Bool :=
  (getOr (actionAt base i) "reset_after_action" (.bool false)).truthy

namespace Progress

variable {base : PyDict} {n max : Nat}

/-- `last_completed_action_id`. -/
def lastId (g : Progress n max) (base : PyDict) : PyVal :=
  if g.done = [] then .none else idAt base (g.done.length - 1)

/-- The merged plan that stands at progress `g`. -/
def plan (base : PyDict) (g : Progress n max) : PyDict :=
  planWith base max g.done.length (idAt base g.done.length) (g.lastId base) g.planState g.errorVal
    g.statusAt g.attemptsAt

/-- The plan while the command of the next action runs. -/
def running (base : PyDict) (g : Progress n max) : PyDict :=
  planWith base max g.done.length (idAt base g.done.length) (g.lastId base) "in_progress" g.errorVal
    (Function.update g.statusAt g.done.length "in_progress")
    (Function.update g.attemptsAt g.done.length (g.attempts + 1))

theorem statusAt_lt {g : Progress n max} {i : Nat} (h : i < g.done.length) :
    g.statusAt i = "completed" := by
  simp [statusAt, h]

theorem statusAt_self {g : Progress n max} :
    g.statusAt g.done.length = if g.attempts = max then "failed" else "pending" := by
  simp [statusAt]

theorem attemptsAt_self {g : Progress n max} : g.attemptsAt g.done.length = g.attempts := by
  simp [attemptsAt]

theorem statusAt_self_ne {g : Progress n max} : g.statusAt g.done.length ≠ "completed" := by
  rw [statusAt_self]
  split <;> decide

/-- No action past the current one has been touched. -/
theorem untouched {g : Progress n max} {i : Nat} (h : g.done.length < i) :
    g.statusAt i = "pending" ∧ g.attemptsAt i = 0 := by
  have h₁ : ¬ i < g.done.length := by omega
  have h₂ : i ≠ g.done.length := by omega
  simp [statusAt, attemptsAt, h₁, h₂]

theorem idAt_length (hn : (actionsOf base).length = n) : idAt base n = .none := by
  subst hn
  simp [idAt, actionAt, item]

/-! ### The three pieces of the loop body -/

theorem actionAt_plan (hn : (actionsOf base).length = n) {g : Progress n max} {i : Nat} (hi : i < n) :
    actionAt (g.plan base) i = actionWith (actionAt base i) (g.statusAt i) (g.attemptsAt i) :=
  actionAt_planWith (by omega)

theorem actionAt_running (hn : (actionsOf base).length = n) {g : Progress n max}
    (h : g.done.length < n) : actionAt (g.running base) g.done.length =
      actionWith (actionAt base g.done.length) "in_progress" (g.attempts + 1) := by
  rw [running, actionAt_planWith (by omega), Function.update_self, Function.update_self]

theorem findNext_plan (hn : (actionsOf base).length = n) {g : Progress n max}
    (h : g.done.length < n) : findNextPendingAction (g.plan base) = some g.done.length :=
  findNext_planWith (by omega) (fun _ => statusAt_lt) statusAt_self_ne

theorem findNext_plan_none (hn : (actionsOf base).length = n) {g : Progress n max}
    (h : g.done.length = n) : findNextPendingAction (g.plan base) = none :=
  findNext_planWith_none (fun j hj => statusAt_lt (by omega))

theorem beginAction_plan (hn : (actionsOf base).length = n) {g : Progress n max}
    (h : g.done.length < n) : beginAction (g.plan base) g.done.length = g.running base := by
  have hact := actionAt_plan (g := g) hn h
  have hid : item (actionWith (actionAt base g.done.length) (g.statusAt g.done.length)
      (g.attemptsAt g.done.length)) "action_id" = idAt base g.done.length := by
    simp [actionWith, idAt]
  have hatt : (getOr (actionWith (actionAt base g.done.length) (g.statusAt g.done.length)
      (g.attemptsAt g.done.length)) "attempts" (.int 0)).asInt.getD 0 + 1
      = ((g.attempts + 1 : Nat) : Int) := by
    simp [actionWith, PyVal.asInt, attemptsAt_self]
  rw [beginAction, hact, hid, hatt, plan, planWith_put_index, planWith_put_currentId,
    planWith_put_state, actionWith_put_status, actionWith_put_attempts, putAction_planWith, running]

/-- What the actions look like after the next one succeeded. -/
theorem statusAt_succeed {g : Progress n max} (h : g.Active) :
    (g.succeed h).statusAt = Function.update g.statusAt g.done.length "completed" := by
  have hmax : 0 ≠ max := by
    have := h.2
    omega
  funext i
  rcases Nat.lt_trichotomy i g.done.length with hi | rfl | hi
  · rw [Function.update_of_ne (by omega), statusAt_lt hi]
    exact statusAt_lt (by simp [succeed]; omega)
  · rw [Function.update_self]
    exact statusAt_lt (by simp [succeed])
  · rw [Function.update_of_ne (by omega), (untouched hi).1]
    have hlen : ¬ i < g.done.length + 1 := by omega
    simp [statusAt, succeed, hlen, hmax]

theorem attemptsAt_succeed {g : Progress n max} (h : g.Active) :
    (g.succeed h).attemptsAt = Function.update g.attemptsAt g.done.length (g.attempts + 1) := by
  funext i
  rcases Nat.lt_trichotomy i g.done.length with hi | rfl | hi
  · have hi' : i < g.done.length + 1 := by omega
    simp [attemptsAt, succeed, hi, hi', Function.update_of_ne (Nat.ne_of_lt hi),
      List.getD_eq_getElem?_getD]
  · simp [attemptsAt, succeed, List.getD_eq_getElem?_getD]
  · have hi' : ¬ i < g.done.length + 1 := by omega
    rw [Function.update_of_ne (by omega), (untouched hi).2]
    simp [attemptsAt, succeed, hi']

theorem statusAt_fail {g : Progress n max} (h : g.Active) (text : String) :
    (g.fail h text).statusAt = Function.update g.statusAt g.done.length
      (if g.attempts + 1 = max then "failed" else "pending") := by
  funext i
  rcases Nat.lt_trichotomy i g.done.length with hi | rfl | hi
  · rw [Function.update_of_ne (by omega), statusAt_lt hi]
    exact statusAt_lt hi
  · simp [statusAt, fail]
  · rw [Function.update_of_ne (by omega), (untouched hi).1]
    exact (untouched (g := g.fail h text) hi).1

theorem attemptsAt_fail {g : Progress n max} (h : g.Active) (text : String) :
    (g.fail h text).attemptsAt = Function.update g.attemptsAt g.done.length (g.attempts + 1) := by
  funext i
  by_cases hi : i = g.done.length
  · subst hi
    simp [attemptsAt, fail]
  · simp [attemptsAt, fail, hi]

theorem afterSuccess_running (hn : (actionsOf base).length = n) {g : Progress n max}
    (h : g.Active) : afterSuccess (g.running base) g.done.length =
      ((g.succeed h).plan base, resetAt base g.done.length) := by
  have hlen : (g.succeed h).done.length = g.done.length + 1 := by simp [succeed]
  have hact := actionAt_running (g := g) hn h.1
  have hid : item (actionWith (actionAt base g.done.length) "completed" (g.attempts + 1)) "action_id"
      = idAt base g.done.length := by
    simp [actionWith, idAt]
  have hreset : getOr (actionWith (actionAt base g.done.length) "completed" (g.attempts + 1))
      "reset_after_action" (.bool false) =
      getOr (actionAt base g.done.length) "reset_after_action" (.bool false) := by
    simp [actionWith]
  have hlast : (g.succeed h).lastId base = idAt base g.done.length := by
    simp [lastId, succeed]
  have herr : (g.succeed h).errorVal = .none := rfl
  rw [afterSuccess, hact, actionWith_put_status, hid, hreset, running, putAction_planWith,
    Function.update_idem, Function.update_idem, ← statusAt_succeed h, ← attemptsAt_succeed h,
    planWith_put_lastId, planWith_put_error]
  by_cases hlt : g.done.length + 1 < n
  · -- another action is waiting
    have hfind : findNextPendingAction (planWith base max g.done.length (idAt base g.done.length)
        (idAt base g.done.length) "in_progress" .none (g.succeed h).statusAt
        (g.succeed h).attemptsAt) = some (g.done.length + 1) :=
      findNext_planWith (by omega) (fun j hj => statusAt_lt (by omega)) (hlen ▸ statusAt_self_ne)
    have hstate : (g.succeed h).planState = "in_progress" := by
      have hne : g.done.length + 1 ≠ n := by omega
      have hmax : 0 ≠ max := by
        have := h.2
        omega
      simp [planState, succeed, hne, hmax]
    have hnext : item (actionAt (planWith base max g.done.length (idAt base g.done.length)
        (idAt base g.done.length) "in_progress" .none (g.succeed h).statusAt
        (g.succeed h).attemptsAt) (g.done.length + 1)) "action_id" = idAt base (g.done.length + 1) := by
      rw [actionAt_planWith (by omega)]
      simp [actionWith, idAt]
    simp only [hfind, planWith_put_index, planWith_put_currentId, resetAt]
    rw [plan, hlen, hlast, herr, hstate, hnext]
  · -- that was the last one
    have heq : g.done.length + 1 = n := by
      have := h.1
      omega
    have hfind : findNextPendingAction (planWith base max g.done.length (idAt base g.done.length)
        (idAt base g.done.length) "in_progress" .none (g.succeed h).statusAt
        (g.succeed h).attemptsAt) = none :=
      findNext_planWith_none (fun j hj => statusAt_lt (by omega))
    have hstate : (g.succeed h).planState = "completed" := by
      simp [planState, succeed, heq]
    simp only [hfind, planWith_put_index, planWith_put_currentId, planWith_put_state, resetAt,
      actionsOf_planWith, List.length_mapIdx]
    rw [plan, hlen, hlast, herr, hstate, hn, heq, idAt_length hn]

theorem afterException_running (hn : (actionsOf base).length = n) {g : Progress n max}
    (h : g.Active) (text : String) : afterException (g.running base) g.done.length text =
      (g.fail h text).plan base := by
  have hact := actionAt_running (g := g) hn h.1
  have hmax : (item (g.running base) "max_attempts_per_action").asInt.getD 0 = max := by
    rw [running, item_planWith (v := .int max) (by simp [runtimeFields])]
    simp [PyVal.asInt]
  have hatt : (item (actionWith (actionAt base g.done.length) "in_progress" (g.attempts + 1))
      "attempts").asInt.getD 0 = ((g.attempts + 1 : Nat) : Int) := by
    simp [actionWith, PyVal.asInt]
  have hdone : g.done.length ≠ n := Nat.ne_of_lt h.1
  have hst := statusAt_fail h text
  rw [afterException, hmax, hact, hatt, running, plan, attemptsAt_fail h text]
  by_cases heq : g.attempts + 1 = max
  · have hstate : (g.fail h text).planState = "failed" := by
      simp [planState, fail, hdone, heq]
    rw [if_pos heq] at hst
    rw [if_pos (by omega), hst, hstate, planWith_put_error, actionWith_put_status, putAction_planWith,
      Function.update_idem, Function.update_idem, planWith_put_state]
    rfl
  · have hstate : (g.fail h text).planState = "in_progress" := by
      simp [planState, fail, hdone, heq]
    rw [if_neg heq] at hst
    rw [if_neg (by have := h.2; omega), hst, hstate, planWith_put_error, actionWith_put_status,
      putAction_planWith, Function.update_idem, Function.update_idem, planWith_put_state]
    rfl

/-! ### The loop -/

theorem finishPlan_plan (hn : (actionsOf base).length = n) {g : Progress n max}
    (h : g.done.length = n) : finishPlan (g.plan base) = g.plan base := by
  have hstate : g.planState = "completed" := by simp [planState, h]
  have herr : g.errorVal = .none := by simp [errorVal, g.error_done h]
  rw [finishPlan, plan, hstate, herr, planWith_put_state, actionsOf_planWith, List.length_mapIdx, hn,
    planWith_put_index, planWith_put_currentId, planWith_put_error, h, idAt_length hn]

/-- **The loop simulates.** With fuel for the actions that are left, the source's loop on the plan of `g`
    returns the plan of `g.loop`, having executed the same commands. -/
theorem executeLoop_plan (hn : (actionsOf base).length = n) :
    ∀ (fuel : Nat) (outcomes : Nat → Outcome) (g : Progress n max),
      (g.done.length < n → g.attempts < max) → n < g.done.length + fuel →
      executeLoop fuel outcomes (g.plan base) =
        some ((g.loop (resetAt base) fuel outcomes).1.plan base,
          (g.loop (resetAt base) fuel outcomes).2)
  | 0, _, g => fun _ hf => absurd g.done_le (by omega)
  | fuel + 1, outcomes, g => by
      intro htry hf
      by_cases hlt : g.done.length < n
      · have hact : g.Active := ⟨hlt, htry hlt⟩
        have hmax : 0 < max := Nat.lt_of_le_of_lt (Nat.zero_le _) hact.2
        have ih := executeLoop_plan hn fuel (fun k => outcomes (k + 1)) (g.succeed hact)
          (fun _ => hmax) (by simp [succeed]; omega)
        rw [executeLoop, findNext_plan hn hlt, loop, dif_pos hact]
        simp only [beginAction_plan hn hlt, afterSuccess_running hn hact,
          afterException_running hn hact]
        cases outcomes 0 with
        | exception text => rfl
        | success =>
            by_cases hr : resetAt base g.done.length = true
            · simp [hr]
            · simp [hr, ih]
      · have hend : g.done.length = n := Nat.le_antisymm g.done_le (Nat.not_lt.mp hlt)
        rw [executeLoop, findNext_plan_none hn hend, finishPlan_plan hn hend, loop,
          dif_neg (fun h => hlt h.1)]

end Progress

end Workbench.Bios
