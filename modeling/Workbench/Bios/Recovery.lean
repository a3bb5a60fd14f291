import Workbench.Bios.Select

/-!
# `Bios.Recovery` — which contents of the state file the updater survives

A state file can hold anything: an interrupted write leaves a truncated document, and a decoded document
can have any shape. Two functions read it, `load_upgrade_plan_with_state` and
`find_pending_plan_from_state`, each with its own guard. `Recovers` says what both owe for a given content,
and `Survivable` is the condition under which they deliver: the content decodes to an object, and no
unhashable or oversized value is reached where only `PlanValidationError` is caught.

## Main results
* `merge_validState` — every accepted state merges into a valid plan;
* `recovers_iff` — the updater recovers exactly from the survivable contents.
-/

namespace Workbench.Bios

open Python

variable {base : PyDict}

/-! ## Merging an accepted state -/

/-- `last_completed_action_id` is not looked at by the plan validator. -/
theorem ValidPlan.put_last {p : PyDict} (h : ValidPlan p) (v : PyVal) :
    ValidPlan (p.put "last_completed_action_id" v) where
  from_version := by simpa using h.from_version
  to_version := by simpa using h.to_version
  payload_path := by simpa using h.payload_path
  board_name := by simpa using h.board_name
  platform := by simpa using h.platform
  actions_ne_nil := by simpa using h.actions_ne_nil
  current_action_index := by simpa using h.current_action_index
  max_attempts_per_action := by simpa using h.max_attempts_per_action
  state := by simpa using h.state
  last_error := Dict.hasKey_put_of_hasKey h.last_error
  actions := by simpa using h.actions
  index_within := by simpa using h.index_within

/-- The actions of an overlaid plan. -/
theorem items_overlay (base state : PyDict) : items (item (overlay base state) "actions") =
    (actionsOf base).mapIdx fun i a =>
      let s := (actionsOf state).getD i []
      .dict (((a.put "action_id" (item s "action_id")).put "status" (item s "status")).put
        "attempts" (item s "attempts")) := by
  rw [overlay, item_put_self, items]

/-- Overlaying an accepted state on a valid base plan gives an acceptable plan. -/
theorem validPlan_overlay (hbase : ValidBase base) {state : PyDict}
    (hs : ValidState state (actionsOf base).length) : ValidPlan (overlay base state) where
  from_version := by simpa [overlay] using hbase.from_version
  to_version := by simpa [overlay] using hbase.to_version
  payload_path := by simpa [overlay] using hbase.payload_path
  board_name := by simpa [overlay] using hbase.board_name
  platform := by simpa [overlay] using hbase.platform
  actions_ne_nil := by
    rw [items_overlay]
    simpa using hbase.actions_ne_nil
  current_action_index := by simpa [overlay] using hs.current_action_index
  max_attempts_per_action := by simpa [overlay] using hs.max_attempts_per_action
  state := by simpa [overlay] using hs.state
  last_error := by simp [overlay, Dict.hasKey]
  actions := by
    intro x hx
    rw [items_overlay] at hx
    obtain ⟨i, hi, rfl⟩ := List.getElem_of_mem hx
    simp only [List.length_mapIdx] at hi
    -- the entry of the state at the same position passed its checks
    have hlen : i < (items (item state "actions")).length := by rw [hs.length]; exact hi
    obtain ⟨s, hdict, haction⟩ := hs.action_states _ (List.getElem_mem hlen)
    have hget : (actionsOf state).getD i [] = s := by
      simp [actionsOf, List.getD_eq_getElem?_getD, List.getElem?_eq_getElem hlen, hdict, entries]
    have ha := hbase.actions _ (List.getElem_mem hi)
    simp only [List.getElem_mapIdx, hget]
    refine ⟨_, rfl, ?_, ?_, ?_, ?_⟩
    · simpa using haction.action_id
    · simpa using ha.command
    · simpa using haction.status
    · simpa using haction.attempts
  index_within := by
    rw [items_overlay, List.length_mapIdx]
    simpa [overlay] using hs.index_within

/-- **Every accepted state merges.** -/
theorem merge_validState (hbase : ValidBase base) {state : PyDict}
    (hs : ValidState state (actionsOf base).length) :
    ∃ p, mergePlanAndState base state = .ok p ∧ validateUpgradePlan (.dict p) = .ok () := by
  -- the index is an `int`, so the branch for `None` is not taken
  have hidx : item (overlay base state) "current_action_index" ≠ .none :=
    isIntGe_ne_none (validPlan_overlay hbase hs).current_action_index
  have hvalid : ∀ p, ValidPlan p →
      ∃ q, (validateUpgradePlan (.dict p) >>= fun _ => pure p : Except PyErr PyDict) = .ok q ∧
        validateUpgradePlan (.dict q) = .ok () := by
    intro p hp
    have hok := validateUpgradePlan_eq_ok.mpr hp
    exact ⟨p, by rw [hok]; rfl, hok⟩
  simp only [mergePlanAndState]
  split
  · exact hvalid _ (validPlan_overlay hbase hs)
  · exact hvalid _ ((validPlan_overlay hbase hs).put_last _)

/-! ## What the updater owes, and when it delivers -/

/-- `content` is a valid runtime state of the plan `base`. -/
def StateOfPlan (base : PyDict) (content : FileContent) : Prop :=
  ∃ s, content = .json (.dict s) ∧ validateUpgradeState (.dict s) (actionsOf base).length = .ok () ∧
    runtimeStateMatchesBasePlan s base = true

/-- Loading returns a valid merged plan, the reinitialised one unless `content` is a valid state of this
    plan, and the search for a pending plan does not raise, an ambiguity excepted. -/
def Recovers (intParse : String → Option Int) (dir : PlansDir) (base : PyDict)
    (content : FileContent) : Prop :=
  (∃ p, loadUpgradePlanWithState intParse (.json (.dict base)) (some content) = some p ∧
    validateUpgradePlan (.dict p) = .ok () ∧
    (¬ StateOfPlan base content → ∃ d, defaultStateFromBasePlan intParse base = .ok d ∧
      mergePlanAndState base d = .ok p)) ∧
  ((∃ r, findPendingPlanFromState dir (some content) = .ok r) ∨
    ∃ m, findPendingPlanFromState dir (some content) =
      .error (.planValidationError "AMBIGUOUS_PENDING_PLAN" m))

/-- The content is a JSON object whose `state` is hashable, and validating it for `n` actions reaches
    neither an oversized version number nor an unhashable status. -/
def Survivable (n : Nat) (content : FileContent) : Prop :=
  ∃ s, content = .json (.dict s) ∧ (item s "state").hashable = true ∧
    ¬ ((∀ k ∈ stateKeys, Dict.hasKey s k = true) ∧ HugeVersion s) ∧
    ¬ (ValidHeader s n ∧ FirstBadEntryUnhashable (items (item s "actions")))

section Load

variable {intParse : String → Option Int}

/-- Nothing is loaded from a file whose validation crashes. -/
theorem load_of_crash (hbase : ValidBase base) {v : PyVal}
    (hc : Crashes (validateUpgradeState v (actionsOf base).length)) :
    loadUpgradePlanWithState intParse (.json (.dict base)) (some (.json v)) = none := by
  cases hv : validateUpgradeState v (actionsOf base).length with
  | ok u => simp [hv] at hc
  | error e =>
      cases e with
      | planValidationError code m => simp [hv, Crashes] at hc
      | _ =>
          simp [loadUpgradePlanWithState, loadBasePlan_eq_ok hbase, loadOrInitRuntimeState, jsonLoad,
            hv, bind, Except.bind, Except.toOption]

theorem load_undecodable (hbase : ValidBase base) :
    loadUpgradePlanWithState intParse (.json (.dict base)) (some .undecodable) = none := by
  simp [loadUpgradePlanWithState, loadBasePlan_eq_ok hbase, loadOrInitRuntimeState, jsonLoad, bind,
    Except.bind, Except.toOption]

/-- What is loaded when validation returns or rejects: the merge of the state in the file, or of the
    default state. -/
theorem load_of_not_crash (hbase : ValidBase base) {d : PyDict}
    (hd : defaultStateFromBasePlan intParse base = .ok d)
    (hdv : ValidState d (actionsOf base).length) {v : PyVal}
    (hc : ¬ Crashes (validateUpgradeState v (actionsOf base).length)) :
    ∃ s, loadUpgradePlanWithState intParse (.json (.dict base)) (some (.json v)) =
        (mergePlanAndState base s).toOption ∧ ValidState s (actionsOf base).length ∧
      (¬ StateOfPlan base (.json v) → s = d) := by
  have hdok : validateUpgradeState (.dict d) (actionsOf base).length = .ok () :=
    validateUpgradeState_eq_ok.mpr ⟨d, rfl, hdv⟩
  rcases ok_or_rejects_or_crashes (validateUpgradeState v (actionsOf base).length) with
    ⟨u, hok⟩ | hrej | hcrash
  · obtain ⟨s, rfl, hs⟩ := validateUpgradeState_eq_ok.mp hok
    by_cases hm : runtimeStateMatchesBasePlan s base = true
    · refine ⟨s, ?_, hs, fun hno => absurd ⟨s, rfl, hok, hm⟩ hno⟩
      simp [loadUpgradePlanWithState, loadBasePlan_eq_ok hbase, loadOrInitRuntimeState, jsonLoad, hok,
        entries, hm, bind, Except.bind, pure, Except.pure]
    · refine ⟨d, ?_, hdv, fun _ => rfl⟩
      simp [loadUpgradePlanWithState, loadBasePlan_eq_ok hbase, loadOrInitRuntimeState, jsonLoad, hok,
        entries, hm, hd, hdok, bind, Except.bind, pure, Except.pure]
  · cases hv : validateUpgradeState v (actionsOf base).length with
    | ok u => simp [hv, Rejects] at hrej
    | error e =>
        cases e with
        | planValidationError code m =>
            refine ⟨d, ?_, hdv, fun _ => rfl⟩
            simp [loadUpgradePlanWithState, loadBasePlan_eq_ok hbase, loadOrInitRuntimeState, jsonLoad,
              hv, hd, hdok, bind, Except.bind, pure, Except.pure]
        | _ => simp [hv, Rejects] at hrej
  · exact absurd hcrash hc

end Load

/-- A survivable object does not crash the validator. -/
theorem not_crashes_iff {s : PyDict} {n : Nat} (hst : (item s "state").hashable = true) :
    ¬ Crashes (validateUpgradeState (.dict s) n) ↔ Survivable n (.json (.dict s)) := by
  rw [crashes_validateUpgradeState hst, not_or]
  constructor
  · rintro ⟨hbig, hbad⟩
    exact ⟨s, rfl, hst, hbig, hbad⟩
  · rintro ⟨s', hs', -, hbig, hbad⟩
    obtain rfl := PyVal.dict.inj (FileContent.json.inj hs')
    exact ⟨hbig, hbad⟩

/-- **The updater recovers exactly from the survivable contents.** For a valid base plan whose default
    state is valid, and an existing plans directory. -/
theorem recovers_iff (intParse : String → Option Int) (dir : PlansDir) (base : PyDict)
    (hbase : validateBaseUpgradePlan (.dict base) = .ok ())
    (hdefault : ∃ d, defaultStateFromBasePlan intParse base = .ok d ∧
      validateUpgradeState (.dict d) (actionsOf base).length = .ok ())
    (hdir : ∃ plans, loadValidTransitionPlans dir = .ok plans) (content : FileContent) :
    Recovers intParse dir base content ↔ Survivable (actionsOf base).length content := by
  obtain ⟨b, hb, hvalid⟩ := validateBaseUpgradePlan_eq_ok.mp hbase
  obtain rfl := PyVal.dict.inj hb
  obtain ⟨d, hd, hdok⟩ := hdefault
  obtain ⟨d', hd', hdv⟩ := validateUpgradeState_eq_ok.mp hdok
  obtain rfl := PyVal.dict.inj hd'
  obtain ⟨plans, hplans⟩ := hdir
  constructor
  · rintro ⟨⟨p, hload, -, -⟩, hfind⟩
    cases content with
    | undecodable =>
        rw [load_undecodable hvalid] at hload
        cases hload
    | json v =>
        cases v with
        | dict s =>
            by_cases hst : (item s "state").hashable = true
            · rw [← not_crashes_iff hst]
              intro hc
              rw [load_of_crash hvalid hc] at hload
              cases hload
            · -- `state.get("state") not in {...}` raises outside the `try`
              have hraise : findPendingPlanFromState dir (some (.json (.dict s))) =
                  .error .typeError := by
                cases hv : item s "state" <;>
                  simp_all [PyVal.hashable, findPendingPlanFromState, PyVal.inStrSet, bind, Except.bind]
              rw [hraise] at hfind
              simp at hfind
        | _ =>
            -- `state.get` does not exist on this value
            simp [findPendingPlanFromState] at hfind
  · rintro ⟨s, rfl, hst, hbig, hbad⟩
    have hnc := (not_crashes_iff hst).mpr ⟨s, rfl, hst, hbig, hbad⟩
    refine ⟨?_, findPending_ok_or_ambiguous hplans hst⟩
    obtain ⟨r, hload, hr, hinit⟩ := @load_of_not_crash _ intParse hvalid _ hd hdv _ hnc
    obtain ⟨p, hp, hpv⟩ := merge_validState hvalid hr
    refine ⟨p, by rw [hload, hp]; rfl, hpv, ?_⟩
    intro hno
    exact ⟨d, hd, by rw [← hinit hno]; exact hp⟩

theorem samplePlan_default : ∃ d, defaultStateFromBasePlan (fun _ => none) samplePlan = .ok d ∧
    validateUpgradeState (.dict d) (actionsOf samplePlan).length = .ok () := by
  refine ⟨_, rfl, ?_⟩
  rfl

/-- An object with an unknown `state` and nothing else. -/
theorem recovers_sample : Recovers (fun _ => none) sampleDir samplePlan
    (.json (.dict [("state", .str "paused")])) := by
  refine (recovers_iff (fun _ => none) sampleDir samplePlan samplePlan_valid samplePlan_default
    ⟨_, sampleDir_plans⟩ _).mpr ⟨_, rfl, rfl, ?_, ?_⟩
  · rintro ⟨hkeys, -⟩
    exact absurd (hkeys "platform" (by decide)) (by decide)
  · rintro ⟨h, -⟩
    exact absurd (h.keys "platform" (by decide)) (by decide)

/-- A truncated document, a document that is not an object, and an object with a `list` for a `state`:
    the updater recovers from none of them. -/
theorem not_recovers_sample :
    validateBaseUpgradePlan (.dict samplePlan) = .ok () ∧
      ¬ Recovers (fun _ => none) sampleDir samplePlan .undecodable ∧
      ¬ Recovers (fun _ => none) sampleDir samplePlan (.json (.list [])) ∧
      ¬ Recovers (fun _ => none) sampleDir samplePlan (.json (.dict [("state", .list [])])) := by
  obtain ⟨b, hb, hvalid⟩ := validateBaseUpgradePlan_eq_ok.mp samplePlan_valid
  obtain rfl := PyVal.dict.inj hb
  refine ⟨samplePlan_valid, ?_, ?_, ?_⟩
  · rintro ⟨⟨p, hload, -⟩, -⟩
    rw [load_undecodable hvalid] at hload
    cases hload
  · rintro ⟨-, ⟨r, hfind⟩ | ⟨m, hfind⟩⟩ <;> cases hfind
  · rintro ⟨-, ⟨r, hfind⟩ | ⟨m, hfind⟩⟩ <;> cases hfind

end Workbench.Bios
