import Workbench.Bios.Progress

/-!
# `Bios.Reload` — what a cycle saves is what the next one loads

The runtime state of a `Progress`, and the round trip through the state file: extracting the state of
`g.plan base` gives `g.state base`, the validators accept it, it matches its base plan, and merging it back
gives `g.plan base`. With `executeLoop_plan` this turns one source cycle into one `Progress.loop`
(`cycle_plan`).
-/

namespace Workbench.Bios

open Python

namespace Progress

variable {base : PyDict} {n max : Nat}

/-- The runtime state saved for progress `g`. -/
def state (base : PyDict) (g : Progress n max) : PyDict :=
  [("runtime_file_version", runtimeStateFileVersion),
    ("from_version", item base "from_version"),
    ("to_version", item base "to_version"),
    ("board_name", item base "board_name"),
    ("platform", item base "platform"),
    ("max_attempts_per_action", .int max),
    ("current_action_index", .int g.done.length),
    ("current_action_id", idAt base g.done.length),
    ("last_completed_action_id", g.lastId base),
    ("state", .str g.planState),
    ("last_error", g.errorVal),
    ("actions", .list ((actionsOf base).mapIdx fun i a =>
      .dict [("action_id", item a "action_id"), ("status", .str (g.statusAt i)),
        ("attempts", .int (g.attemptsAt i))]))]

theorem statusAt_allowed (g : Progress n max) (i : Nat) : g.statusAt i ∈ allowedStates := by
  unfold statusAt
  split
  · simp [allowedStates]
  · split <;> simp [allowedStates]

theorem planState_allowed (g : Progress n max) : g.planState ∈ allowedStates := by
  unfold planState
  split
  · simp [allowedStates]
  · split
    · simp [allowedStates]
    · split <;> simp [allowedStates]

/-! ## Reading the plan of a progress -/

theorem item_plan {k : String} {v : PyVal} (g : Progress n max)
    (h : (runtimeFields base max g.done.length (idAt base g.done.length) (g.lastId base) g.planState
      g.errorVal g.statusAt g.attemptsAt).get? k = some v) : item (g.plan base) k = v :=
  item_planWith h

theorem item_plan_base {k : String} (g : Progress n max)
    (h : k ∉ ["max_attempts_per_action", "current_action_index", "current_action_id",
      "last_completed_action_id", "state", "last_error", "actions"]) :
    item (g.plan base) k = item base k :=
  item_planWith_base (by simpa [runtimeFields, Dict.keys] using h)

theorem actionsOf_plan (g : Progress n max) : actionsOf (g.plan base) =
    (actionsOf base).mapIdx fun i a => actionWith a (g.statusAt i) (g.attemptsAt i) :=
  actionsOf_planWith

theorem items_plan (g : Progress n max) : items (item (g.plan base) "actions") =
    ((actionsOf base).mapIdx fun i a => actionWith a (g.statusAt i) (g.attemptsAt i)).map .dict := by
  rw [item_plan g (k := "actions") (by simp [runtimeFields]; rfl), items]

/-- A merged plan is accepted by `validate_upgrade_plan`. -/
theorem validPlan (hbase : ValidBase base) (hn : (actionsOf base).length = n) (hmax : 1 ≤ max)
    (g : Progress n max) : ValidPlan (g.plan base) where
  from_version := by rw [item_plan_base g (by simp)]; exact hbase.from_version
  to_version := by rw [item_plan_base g (by simp)]; exact hbase.to_version
  payload_path := by rw [item_plan_base g (by simp)]; exact hbase.payload_path
  board_name := by rw [item_plan_base g (by simp)]; exact hbase.board_name
  platform := by rw [item_plan_base g (by simp)]; exact hbase.platform
  actions_ne_nil := by simpa [items_plan] using hbase.actions_ne_nil
  current_action_index := by
    rw [item_plan g (v := .int g.done.length) (by simp [runtimeFields])]
    simp [PyVal.isIntGe_int]
  max_attempts_per_action := by
    rw [item_plan g (v := .int max) (by simp [runtimeFields]), PyVal.isIntGe_int]
    exact_mod_cast hmax
  state := ⟨g.planState, planState_allowed g, item_plan g (by simp [runtimeFields])⟩
  last_error := by
    rw [Dict.hasKey, plan, planWith,
      Dict.get?_update runtimeFields_nodup (v := g.errorVal) (by simp [runtimeFields])]
    rfl
  actions := by
    intro x hx
    rw [items_plan, List.mem_map] at hx
    obtain ⟨a', ha', rfl⟩ := hx
    obtain ⟨i, hi, rfl⟩ := List.getElem_of_mem ha'
    simp only [List.length_mapIdx] at hi
    have ha := hbase.actions _ (List.getElem_mem hi)
    refine ⟨_, rfl, ?_, ?_, ⟨g.statusAt i, statusAt_allowed g i, ?_⟩, ?_⟩
    · simpa [actionWith] using ha.action_id
    · simpa [actionWith] using ha.command
    · simp [actionWith]
    · simp [actionWith, PyVal.isIntGe_int]
  index_within := by
    rw [item_plan g (v := .int g.done.length) (by simp [runtimeFields]), items_plan]
    simp [indexWithin, PyVal.asInt, hn, g.done_le]

/-! ## Saving -/

theorem extract_plan (g : Progress n max) :
    extractRuntimeStateFromPlan (g.plan base) = g.state base := by
  have hacts : ((actionsOf (g.plan base)).map fun a => PyVal.dict [("action_id", item a "action_id"),
      ("status", getOr a "status" (.str "pending")), ("attempts", getOr a "attempts" (.int 0))]) =
      (actionsOf base).mapIdx fun i a => .dict [("action_id", item a "action_id"),
        ("status", .str (g.statusAt i)), ("attempts", .int (g.attemptsAt i))] := by
    apply List.ext_getElem (by simp [actionsOf_plan])
    intro i _ _
    simp [actionsOf_plan, actionWith]
  rw [extractRuntimeStateFromPlan, hacts, item_plan_base g (k := "from_version") (by simp),
    item_plan_base g (k := "to_version") (by simp), item_plan_base g (k := "board_name") (by simp),
    item_plan_base g (k := "platform") (by simp),
    item_plan g (k := "max_attempts_per_action") (by simp [runtimeFields]; rfl),
    item_plan g (k := "current_action_index") (by simp [runtimeFields]; rfl),
    item_plan g (k := "current_action_id") (by simp [runtimeFields]; rfl),
    item_plan g (k := "last_completed_action_id") (by simp [runtimeFields]; rfl),
    item_plan g (k := "state") (by simp [runtimeFields]; rfl),
    item_plan g (k := "last_error") (by simp [runtimeFields]; rfl), state]

theorem save_plan (hbase : ValidBase base) (hn : (actionsOf base).length = n) (hmax : 1 ≤ max)
    (g : Progress n max) :
    saveUpgradeState (g.plan base) = some (.json (.dict (g.state base))) := by
  have hval := validateUpgradePlan_eq_ok.mpr (g.validPlan hbase hn hmax)
  rw [saveUpgradeState, saveRuntimeState, hval, extract_plan]
  rfl

/-! ## Loading -/

theorem item_state {k : String} {v : PyVal} (g : Progress n max)
    (h : (g.state base).get? k = some v) : item (g.state base) k = v := by
  rw [item, h, Option.getD_some]

theorem actionsOf_state (g : Progress n max) : actionsOf (g.state base) =
    (actionsOf base).mapIdx fun i a => [("action_id", item a "action_id"),
      ("status", .str (g.statusAt i)), ("attempts", .int (g.attemptsAt i))] := by
  rw [actionsOf, item_state g (k := "actions") (by simp [state]; rfl), items]
  apply List.ext_getElem (by simp)
  intro i _ _
  simp [entries]

/-- A saved state is accepted by `validate_upgrade_state`. -/
theorem validState (hbase : ValidBase base) (hn : (actionsOf base).length = n) (hmax : 1 ≤ max)
    (g : Progress n max) : ValidState (g.state base) n := by
  have hacts : item (g.state base) "actions" = .list ((actionsOf base).mapIdx fun i a =>
      .dict [("action_id", item a "action_id"), ("status", .str (g.statusAt i)),
        ("attempts", .int (g.attemptsAt i))]) := item_state g (by simp [state])
  have hindex : item (g.state base) "current_action_index" = .int g.done.length :=
    item_state g (by simp [state])
  refine ⟨⟨fun k hk => Dict.hasKey_iff_mem_keys.mpr hk, ?_, ?_, ?_, ?_, ?_, ?_, ?_, ?_⟩, ?_, ?_⟩
  · rw [item_state g (k := "runtime_file_version") (by simp [state]; rfl)]
    simp [runtimeStateFileVersion, IsVersionOne]
  · rw [item_state g (k := "max_attempts_per_action") (v := .int max) (by simp [state]),
      PyVal.isIntGe_int]
    exact_mod_cast hmax
  · rw [item_state g (k := "board_name") (by simp [state]; rfl)]
    exact hbase.board_name
  · rw [item_state g (k := "platform") (by simp [state]; rfl)]
    exact hbase.platform
  · rw [hindex, PyVal.isIntGe_int]
    exact Int.natCast_nonneg _
  · exact ⟨g.planState, planState_allowed g, item_state g (by simp [state])⟩
  · rw [hacts, isList]
  · rw [hacts, items, List.length_mapIdx, hn]
  · intro x hx
    rw [hacts, items] at hx
    obtain ⟨i, hi, rfl⟩ := List.getElem_of_mem hx
    simp only [List.length_mapIdx] at hi
    have ha := hbase.actions _ (List.getElem_mem hi)
    refine ⟨_, List.getElem_mapIdx, ?_, ⟨g.statusAt i, statusAt_allowed g i, ?_⟩, ?_⟩
    · simpa [item] using ha.action_id
    · simp [item]
    · simp [item, PyVal.isIntGe_int]
  · simp [hindex, indexWithin, PyVal.asInt, g.done_le]

theorem sameActionIds_mapIdx (acts : List PyDict)
    (hids : ∀ a ∈ acts, ∃ s, item a "action_id" = .str s) (f : Nat → PyDict → PyDict)
    (hf : ∀ i a, item (f i a) "action_id" = item a "action_id") :
    sameActionIds (acts.mapIdx f) acts = true := by
  induction acts generalizing f with
  | nil => rfl
  | cons a acts ih =>
      obtain ⟨s, hs⟩ := hids a (by simp)
      rw [List.mapIdx_cons, sameActionIds, hf, hs, PyVal.eq_str_iff.mpr rfl, Bool.true_and]
      exact ih (fun b hb => hids b (by simp [hb])) (fun i => f (i + 1)) (fun i b => hf (i + 1) b)

/-- A saved state belongs to its base plan. -/
theorem matches_state (hbase : ValidBase base) (g : Progress n max) :
    runtimeStateMatchesBasePlan (g.state base) base = true := by
  have heq : ∀ {k : String}, isNonEmptyString (item base k) = true →
      (item base k).eq (item base k) = true := by
    intro k hk
    obtain ⟨s, hs⟩ := nonEmpty_is_str hk
    rw [hs]
    exact PyVal.eq_str_iff.mpr rfl
  have hids := sameActionIds_mapIdx (actionsOf base)
    (fun a ha => nonEmpty_is_str (hbase.actions a ha).action_id)
    (fun i a => [("action_id", item a "action_id"), ("status", .str (g.statusAt i)),
      ("attempts", .int (g.attemptsAt i))]) (fun i a => by simp [item])
  rw [runtimeStateMatchesBasePlan, actionsOf_state, hids,
    item_state g (k := "from_version") (by simp [state]; rfl),
    item_state g (k := "to_version") (by simp [state]; rfl),
    item_state g (k := "board_name") (by simp [state]; rfl),
    item_state g (k := "platform") (by simp [state]; rfl), heq hbase.from_version,
    heq hbase.to_version, heq hbase.board_name, heq hbase.platform]
  rfl

/-- Overlaying a saved state on its base plan gives the plan it was saved from. -/
theorem overlay_state (hbase : ValidBase base) (g : Progress n max) :
    overlay base (g.state base) = g.plan base := by
  have hacts : ((actionsOf base).mapIdx fun i a =>
      PyVal.dict (((Dict.put a "action_id" (item ((actionsOf (g.state base)).getD i []) "action_id")).put
        "status" (item ((actionsOf (g.state base)).getD i []) "status")).put "attempts"
        (item ((actionsOf (g.state base)).getD i []) "attempts"))) =
      ((actionsOf base).mapIdx fun i a => actionWith a (g.statusAt i) (g.attemptsAt i)).map .dict := by
    apply List.ext_getElem (by simp)
    intro i hi _
    simp only [List.length_mapIdx] at hi
    obtain ⟨s, hs⟩ := nonEmpty_is_str (hbase.actions _ (List.getElem_mem hi)).action_id
    have hget : Dict.get? (actionsOf base)[i] "action_id" = some (.str s) := by
      have hs' := hs
      rw [item] at hs'
      cases h : Dict.get? (actionsOf base)[i] "action_id" with
      | none => simp [h] at hs'
      | some v => simpa [h] using hs'
    simp [actionsOf_state, List.getD_eq_getElem?_getD, hi, item, actionWith, hget,
      Dict.put_get?_self hget]
  rw [overlay, hacts]
  simp only [List.foldl_cons, List.foldl_nil]
  rw [item_state g (k := "max_attempts_per_action") (by simp [state]; rfl),
    item_state g (k := "current_action_index") (by simp [state]; rfl),
    item_state g (k := "current_action_id") (by simp [state]; rfl),
    item_state g (k := "last_completed_action_id") (by simp [state]; rfl),
    item_state g (k := "state") (by simp [state]; rfl),
    item_state g (k := "last_error") (by simp [state]; rfl)]
  rfl

theorem merge_state (hbase : ValidBase base) (hn : (actionsOf base).length = n) (hmax : 1 ≤ max)
    (g : Progress n max) : mergePlanAndState base (g.state base) = .ok (g.plan base) := by
  have hidx : item (g.plan base) "current_action_index" = .int g.done.length :=
    item_plan g (by simp [runtimeFields])
  have hlast : item (g.plan base) "last_completed_action_id" = g.lastId base :=
    item_plan g (by simp [runtimeFields])
  have hput : (if (g.lastId base).truthy then g.plan base
      else (g.plan base).put "last_completed_action_id" (lastCompletedActionIdFromState (g.state base)))
      = g.plan base := by
    by_cases hd : g.done = []
    · -- no action is completed, and the search in the saved state finds none either
      have hfind : lastCompletedActionIdFromState (g.state base) = g.lastId base := by
        have hnone : (actionsOf (g.state base)).reverse.find?
            (fun a => (item a "status").eq (.str "completed")) = none := by
          rw [List.find?_eq_none]
          intro a ha
          rw [List.mem_reverse, actionsOf_state] at ha
          obtain ⟨i, hi, rfl⟩ := List.getElem_of_mem ha
          have hst : g.statusAt i ≠ "completed" := by
            unfold statusAt
            rw [if_neg (by simp [hd])]
            split <;> decide
          simpa [item] using hst
        rw [lastCompletedActionIdFromState, hnone, lastId, if_pos hd]
      rw [hfind, plan, planWith_put_lastId, ite_self]
    · -- the id of a completed action is a non-empty string
      have hlen : g.done.length - 1 < (actionsOf base).length := by
        have := g.done_le
        have := List.length_pos_of_ne_nil hd
        omega
      have hid := (hbase.actions _ (List.getElem_mem hlen)).action_id
      have htruthy : (g.lastId base).truthy = true := by
        rw [lastId, if_neg hd, idAt, actionAt, List.getD_eq_getElem?_getD, List.getElem?_eq_getElem hlen]
        exact nonEmpty_truthy hid
      rw [if_pos htruthy]
  rw [mergePlanAndState, overlay_state hbase]
  simp only [hidx, hlast, hput, validateUpgradePlan_eq_ok.mpr (g.validPlan hbase hn hmax)]
  rfl

theorem loadOrInit_state (intParse : String → Option Int) (hbase : ValidBase base)
    (hn : (actionsOf base).length = n) (hmax : 1 ≤ max) (g : Progress n max) :
    loadOrInitRuntimeState intParse base (some (.json (.dict (g.state base)))) =
      .ok (g.state base) := by
  have hval := validateUpgradeState_eq_ok.mpr ⟨_, rfl, g.validState hbase hn hmax⟩
  simp only [loadOrInitRuntimeState, jsonLoad, hn, bind, Except.bind, hval, entries,
    matches_state hbase g, if_true, pure, Except.pure]

/-- **Reload.** Loading the saved state of `g` gives the plan of `g` back. -/
theorem load_state (intParse : String → Option Int) (hbase : ValidBase base)
    (hn : (actionsOf base).length = n) (hmax : 1 ≤ max) (g : Progress n max) :
    loadUpgradePlanWithState intParse (.json (.dict base)) (some (.json (.dict (g.state base)))) =
      some (g.plan base) := by
  simp only [loadUpgradePlanWithState, loadBasePlan_eq_ok hbase, bind, Except.bind,
    loadOrInit_state intParse hbase hn hmax g, merge_state hbase hn hmax g, Except.toOption]

/-- Without a state file the default state is validated. -/
theorem loadOrInit_none {intParse : String → Option Int} {state : PyDict} :
    loadOrInitRuntimeState intParse base none = .ok state ↔ defaultStateFromBasePlan intParse base = .ok state ∧
      validateUpgradeState (.dict state) (actionsOf base).length = .ok () := by
  constructor
  · intro h
    obtain ⟨state', hdefault, h⟩ := bind_eq_ok.mp h
    obtain ⟨haccept, hstate⟩ := seq_eq_ok.mp h
    obtain rfl : state' = state := by simpa [pure, Except.pure] using hstate
    exact ⟨hdefault, haccept⟩
  · rintro ⟨hdefault, haccept⟩
    exact bind_eq_ok.mpr ⟨state, hdefault, seq_eq_ok.mpr ⟨haccept, rfl⟩⟩

/-- The default state has the limit of the base plan, so that it is accepted with a limit of at least one only. -/
theorem limit_of_default {intParse : String → Option Int} {state : PyDict}
    (hdefault : defaultStateFromBasePlan intParse base = .ok state)
    (haccept : validateUpgradeState (.dict state) (actionsOf base).length = .ok ()) :
    ∃ i, pyInt intParse (getOr base "max_attempts_per_action" (.int 2)) = .ok i ∧ 1 ≤ i := by
  obtain ⟨i, hi, hstate⟩ := bind_eq_ok.mp hdefault
  cases hstate
  obtain ⟨s, hs, hvalid⟩ := validateUpgradeState_eq_ok.mp haccept
  obtain rfl := PyVal.dict.inj hs
  exact ⟨i, hi, by simpa [item, PyVal.isIntGe, PyVal.asInt] using hvalid.max_attempts_per_action⟩

/-- The default state is the state of a fresh progress. -/
theorem default_state {intParse : String → Option Int} (hbase : ValidBase base)
    (hn : (actionsOf base).length = n) (hmax : 1 ≤ max)
    (hlim : pyInt intParse (getOr base "max_attempts_per_action" (.int 2)) = .ok (max : Int)) :
    defaultStateFromBasePlan intParse base = .ok ((init n max).state base) := by
  have hn0 : (0 : Nat) ≠ n := by
    have := List.length_pos_of_ne_nil hbase.actions_ne_nil
    omega
  have hmax0 : (0 : Nat) ≠ max := by omega
  have hst : (init n max).planState = "pending" := by
    simp [planState, init, hn0, hmax0]
  have htruthy : (item base "actions").truthy = true := by
    rw [hbase.actions_eq, PyVal.truthy]
    simpa using hbase.actions_ne_nil
  have hid : item ((actionsOf base).getD 0 []) "action_id" = idAt base 0 := rfl
  have hacts : ((actionsOf base).map fun a => PyVal.dict [("action_id", item a "action_id"),
      ("status", .str "pending"), ("attempts", .int 0)]) =
      (actionsOf base).mapIdx fun i a => .dict [("action_id", item a "action_id"),
        ("status", .str ((init n max).statusAt i)), ("attempts", .int ((init n max).attemptsAt i))] := by
    apply List.ext_getElem (by simp)
    intro i _ _
    have hatt : (init n max).attemptsAt i = 0 := by
      unfold attemptsAt
      split
      · rfl
      · split <;> rfl
    have hstatus : (init n max).statusAt i = "pending" := by simp [statusAt, init, hmax0]
    simp [hstatus, hatt]
  rw [defaultStateFromBasePlan, hlim, if_pos htruthy, hid, hacts, state, hst]
  rfl

/-- Without a state file, the plan of a fresh progress is loaded. -/
theorem load_fresh {intParse : String → Option Int} (hbase : ValidBase base)
    (hn : (actionsOf base).length = n) (hmax : 1 ≤ max)
    (hlim : pyInt intParse (getOr base "max_attempts_per_action" (.int 2)) = .ok (max : Int)) :
    loadUpgradePlanWithState intParse (.json (.dict base)) none =
      some ((init n max).plan base) := by
  have hval := validateUpgradeState_eq_ok.mpr ⟨_, rfl, (init n max).validState hbase hn hmax⟩
  have hload : loadOrInitRuntimeState intParse base none = .ok ((init n max).state base) :=
    loadOrInit_none.mpr ⟨default_state hbase hn hmax hlim, hn.symm ▸ hval⟩
  simp only [loadUpgradePlanWithState, loadBasePlan_eq_ok hbase, bind, Except.bind, hload,
    merge_state hbase hn hmax (init n max), Except.toOption]

/-! ## Whole cycles -/

/-- One `execute_next_action`. -/
def exec (base : PyDict) (outcomes : Nat → Outcome) (g : Progress n max) :
    Progress n max × List Execution :=
  g.loop (resetAt base) (n + 1) outcomes

theorem loop_of_not_active {g : Progress n max} (h : ¬ g.Active) (resets : Nat → Bool) (fuel : Nat)
    (outcomes : Nat → Outcome) : g.loop resets fuel outcomes = (g, []) := by
  cases fuel with
  | zero => rfl
  | succ fuel => rw [loop, dif_neg h]

/-- A plan is final exactly when no action may run. -/
theorem planState_final (g : Progress n max) : finalState.contains g.planState = !decide g.Active := by
  have hle := g.done_le
  have hat := g.attempts_le
  unfold planState Active
  by_cases hd : g.done.length = n
  · simp [hd, finalState]
  · have hlt : g.done.length < n := by omega
    by_cases ha : g.attempts = max
    · simp [hd, ha, finalState]
    · have hlt' : g.attempts < max := by omega
      by_cases hs : g.started = true
      · simp [hd, ha, hs, hlt, hlt', finalState]
      · simp [hd, ha, hs, hlt, hlt', finalState]

theorem run_plan (hbase : ValidBase base) (hn : (actionsOf base).length = n) (hmax : 1 ≤ max)
    (outcomes : Nat → Outcome) (g : Progress n max) :
    runNextAction outcomes (g.plan base) =
      some ((g.exec base outcomes).1.plan base, (g.exec base outcomes).2) := by
  have hval := validateUpgradePlan_eq_ok.mpr (g.validPlan hbase hn hmax)
  have hstate : item (g.plan base) "state" = .str g.planState := item_plan g (by simp [runtimeFields])
  have hfuel : loopFuel (g.plan base) = n + 1 := by
    rw [loopFuel, actionsOf_plan, List.length_mapIdx, hn]
  rw [runNextAction, executeNextAction, hval, hstate]
  simp only [bind, Except.bind, PyVal.inStrSet, planState_final, pure, Except.pure]
  by_cases hact : g.Active
  · simp only [hact, decide_true, Bool.not_true, Bool.false_eq_true, if_false, hfuel]
    rw [executeLoop_plan hn (n + 1) outcomes g (fun _ => hact.2) (by omega)]
    rfl
  · simp only [hact, decide_false, Bool.not_false, if_true, exec, loop_of_not_active hact]
    rfl

/-- **A cycle on a saved state** is one `exec` of its progress. -/
theorem cycle_state (intParse : String → Option Int) (hbase : ValidBase base)
    (hn : (actionsOf base).length = n) (hmax : 1 ≤ max) (outcomes : Nat → Outcome)
    (g : Progress n max) :
    cycle intParse (.json (.dict base)) outcomes (some (.json (.dict (g.state base)))) =
      some ⟨(g.exec base outcomes).1.plan base, .json (.dict ((g.exec base outcomes).1.state base)),
        (g.exec base outcomes).2⟩ := by
  simp only [cycle, load_state intParse hbase hn hmax g, run_plan hbase hn hmax outcomes g,
    save_plan hbase hn hmax, bind, Option.bind, pure]

/-- **The first cycle** is one `exec` of the fresh progress. -/
theorem cycle_fresh {intParse : String → Option Int} (hbase : ValidBase base)
    (hn : (actionsOf base).length = n) (hmax : 1 ≤ max)
    (hlim : pyInt intParse (getOr base "max_attempts_per_action" (.int 2)) = .ok (max : Int))
    (outcomes : Nat → Outcome) :
    cycle intParse (.json (.dict base)) outcomes none =
      some ⟨((init n max).exec base outcomes).1.plan base,
        .json (.dict (((init n max).exec base outcomes).1.state base)),
        ((init n max).exec base outcomes).2⟩ := by
  simp only [cycle, load_fresh hbase hn hmax hlim, run_plan hbase hn hmax outcomes (init n max),
    save_plan hbase hn hmax, bind, Option.bind, pure]

end Progress

end Workbench.Bios
