import Mathlib.Data.List.Nodup
import Workbench.Bios.Accept

/-!
# `Bios.Select` — which plan file a run works on

The plan selection of `bios_update_tools.py`: `_load_valid_transition_plans`,
`find_pending_plan_from_state`, `select_transition_plan_for_bios_version`, and the first steps of
`auto_execute_bios_upgrade`, which choose a plan file from the state file or else from the identity of the
machine.

## Contents
- **The directory.** `PlansDir`, a listing without repeated names.
- **Selection.** The source functions.
- **Lemmas.** What a loaded plan is (`mem_loadValidTransitionPlans`), and when the pending search raises
  (`findPending_ok_or_ambiguous`).
-/

namespace Workbench.Bios

open Python

/-! ## The directory -/

/-- `plans_dir` as the code sees it. -/
structure PlansDir where
  path : String
  /-- `os.listdir`, each name with its content when it is a regular file; `none` when `path` is not a
      directory. -/
  listing : Option (List (String × Option FileContent))
  nodup : ∀ names, listing = some names → (names.map Prod.fst).Nodup

/-- `os.path.join(plans_dir, name)`. -/
def joinPath (dir name : String) : String :=
  if ['/'].isSuffixOf dir.toList then dir ++ name else dir ++ "/" ++ name

/-- The content `open` finds at a path below the directory. -/
def PlansDir.read (dir : PlansDir) (path : String) : Option FileContent :=
  ((dir.listing.getD []).find? (fun e => joinPath dir.path e.1 == path)).bind Prod.snd

/-- `sorted(names)`, by code points. -/
def sortedNames (names : List (String × Option FileContent)) : List (String × Option FileContent) :=
  names.mergeSort (fun a b => decide (a.1 ≤ b.1))

/-- The body of the loop of `_load_valid_transition_plans`: `none` is a file that is passed over. -/
def validPlanAt (dir : String) : String × Option FileContent → Option (String × PyDict)
  | (name, some content) =>
      if ".json".toList.isSuffixOf name.toList then
        (loadBasePlan content).toOption.map fun plan => (joinPath dir name, plan)
      else none
  | (_, none) => none

/-- `_load_valid_transition_plans`. -/
def loadValidTransitionPlans (dir : PlansDir) : Except PyErr (List (String × PyDict)) := do
  require (isNonEmptyString (.str dir.path)) "INVALID_PLANS_DIR" "plans_dir must be a non-empty string"
  match dir.listing with
  | none => raisePlan "PLANS_DIR_NOT_FOUND" s!"plans directory not found: {dir.path}"
  | some names => return (sortedNames names).filterMap (validPlanAt dir.path)

/-! ## Selection -/

/-- `plan_target_matches`. -/
def planTargetMatches (current planValue : PyVal) : Bool := current.eq planValue

/-- The condition of the loop in `find_pending_plan_from_state`. -/
def matchesPending (state plan : PyDict) : Bool :=
  planTargetMatches (item state "from_version") (item plan "from_version") &&
  planTargetMatches (item state "to_version") (item plan "to_version") &&
  (!isNonEmptyString (item state "board_name") ||
    planTargetMatches (item state "board_name") (item plan "board_name")) &&
  (!isNonEmptyString (item state "platform") ||
    planTargetMatches (item state "platform") (item plan "platform"))

/-- `find_pending_plan_from_state`. The file is decoded inside a `try`; what follows is not. -/
def findPendingPlanFromState (dir : PlansDir) (stateFile : Option FileContent) :
    Except PyErr (Option String) :=
  match stateFile with
  | none => .ok none
  | some .undecodable => .ok none
  | some (.json (.dict state)) => do
      let active ← (item state "state").inStrSet activeState
      if !active then return none
      if !(item state "from_version").truthy || !(item state "to_version").truthy then return none
      let plans ← loadValidTransitionPlans dir
      match (plans.filter fun p => matchesPending state p.2).map Prod.fst with
      | [] => return none
      | [path] => return some path
      | paths => .error (.planValidationError "AMBIGUOUS_PENDING_PLAN"
          [.text "Multiple plans match pending state (", .value (item state "from_version"),
            .text " -> ", .value (item state "to_version"), .text "): ",
            .value (.list (paths.map .str))])
  | some (.json _) => .error .attributeError

/-- The identity of the machine a plan is selected for. -/
structure Target where
  biosVersion : PyVal
  boardName : PyVal
  platform : PyVal

/-- The condition of the loop in `select_transition_plan_for_bios_version`. -/
def matchesTarget (target : Target) (plan : PyDict) : Bool :=
  planTargetMatches target.biosVersion (item plan "from_version") &&
  planTargetMatches target.boardName (item plan "board_name") &&
  planTargetMatches target.platform (item plan "platform")

/-- An entry of `candidate_transitions`. -/
def candidateTransition (plan : PyDict) : PyVal :=
  .dict [("from_version", item plan "from_version"), ("board_name", item plan "board_name"),
    ("platform", item plan "platform")]

/-- `select_transition_plan_for_bios_version`. -/
def selectTransitionPlanForBiosVersion (dir : PlansDir) (target : Target) : Except PyErr String := do
  require (isNonEmptyString target.biosVersion) "INVALID_CURRENT_BIOS_VERSION"
    "current BIOS version is empty"
  require (isNonEmptyString target.boardName) "INVALID_CURRENT_BOARD_NAME" "current board name is empty"
  require (isNonEmptyString target.platform) "INVALID_CURRENT_PLATFORM" "current platform is empty"
  let plans ← loadValidTransitionPlans dir
  match (plans.filter fun p => matchesTarget target p.2).map Prod.fst with
  | [path] => return path
  | [] => .error (.planValidationError "NO_MATCHING_PLAN"
      [.text "No transition plan matches current BIOS version/board/platform (",
        .value target.biosVersion, .text ", ", .value target.boardName, .text ", ",
        .value target.platform, .text "). Available plan targets: ",
        .value (.list ((plans.filter fun p => isNonEmptyString (item p.2 "from_version")).map
          fun p => candidateTransition p.2))])
  | paths => .error (.planValidationError "AMBIGUOUS_MATCHING_PLANS"
      [.text "Multiple transition plans match BIOS version ", .value target.biosVersion, .text ": ",
        .value (.list (paths.map .str))])

/-- Steps 1 and 2 of `auto_execute_bios_upgrade`: the plan file to work on, or `none` when no plan needs to
    be applied. -/
def choosePlanFile (dir : PlansDir) (stateFile : Option FileContent) (target : Target) :
    Except PyErr (Option String) := do
  match ← findPendingPlanFromState dir stateFile with
  | some path => return some path
  | none =>
      match selectTransitionPlanForBiosVersion dir target with
      | .ok path => return some path
      | .error (.planValidationError "NO_MATCHING_PLAN" _) => return none
      | .error e => .error e

/-! ## What is loaded -/

theorem joinPath_injective (dir : String) : Function.Injective (joinPath dir) := by
  intro a b h
  unfold joinPath at h
  split at h
  · exact String.toList_inj.mp (by simpa using congrArg String.toList h)
  · exact String.toList_inj.mp (by simpa using congrArg String.toList h)

/-- A loaded plan is a valid base plan, and it is what its path reads as. -/
theorem mem_loadValidTransitionPlans {dir : PlansDir} {plans : List (String × PyDict)}
    (h : loadValidTransitionPlans dir = .ok plans) {path : String} {plan : PyDict}
    (hp : (path, plan) ∈ plans) :
    dir.read path = some (.json (.dict plan)) ∧ ValidBase plan := by
  rw [loadValidTransitionPlans, seq_eq_ok] at h
  obtain ⟨-, h⟩ := h
  cases hl : dir.listing with
  | none => simp [hl] at h
  | some names =>
      simp only [hl, pure, Except.pure, Except.ok.injEq] at h
      rw [← h, List.mem_filterMap] at hp
      obtain ⟨⟨name, content⟩, hmem, hat⟩ := hp
      cases content with
      | none => simp [validPlanAt] at hat
      | some content =>
          have hin : (name, some content) ∈ names := by
            rw [sortedNames] at hmem
            exact List.mem_mergeSort.mp hmem
          rw [validPlanAt] at hat
          split at hat
          · cases hload : loadBasePlan content with
            | error e => simp [hload, Except.toOption] at hat
            | ok p =>
                simp only [hload, Except.toOption, Option.map_some, Option.some.injEq,
                  Prod.mk.injEq] at hat
                obtain ⟨rfl, rfl⟩ := hat
                obtain ⟨rfl, hvalid⟩ := loadBasePlan_ok hload
                refine ⟨?_, hvalid⟩
                -- the names are distinct, so the search stops at this very entry
                have hfind : names.find? (fun e => joinPath dir.path e.1 == joinPath dir.path name) =
                    some (name, some (.json (.dict p))) := by
                  obtain ⟨e, he⟩ : ∃ e, names.find?
                      (fun e => joinPath dir.path e.1 == joinPath dir.path name) = some e := by
                    rw [← Option.isSome_iff_exists, List.find?_isSome]
                    exact ⟨_, hin, by simp⟩
                  have hname : e.1 = name :=
                    joinPath_injective dir.path (by simpa using List.find?_some he)
                  have hmem' := List.mem_of_find?_eq_some he
                  have huniq := List.inj_on_of_nodup_map (dir.nodup names hl) hmem' hin hname
                  rw [he, huniq]
                rw [PlansDir.read, hl, Option.getD_some, hfind]
                rfl
          · simp at hat

/-- **The pending search does not raise**, an ambiguity excepted, for a state with a hashable `state`. -/
theorem findPending_ok_or_ambiguous {dir : PlansDir} {plans : List (String × PyDict)}
    (h : loadValidTransitionPlans dir = .ok plans) {state : PyDict}
    (hst : (item state "state").hashable = true) :
    (∃ r, findPendingPlanFromState dir (some (.json (.dict state))) = .ok r) ∨
      ∃ m, findPendingPlanFromState dir (some (.json (.dict state))) =
        .error (.planValidationError "AMBIGUOUS_PENDING_PLAN" m) := by
  have hin : ∃ b, (item state "state").inStrSet activeState = .ok b := by
    cases hv : item state "state" <;> simp_all [PyVal.inStrSet, PyVal.hashable]
  obtain ⟨active, hactive⟩ := hin
  simp only [findPendingPlanFromState, hactive, h, bind, Except.bind, pure, Except.pure]
  split
  · exact Or.inl ⟨_, rfl⟩
  · split
    · exact Or.inl ⟨_, rfl⟩
    · split
      · exact Or.inl ⟨_, rfl⟩
      · exact Or.inl ⟨_, rfl⟩
      · exact Or.inr ⟨_, rfl⟩

/-- A directory that holds the sample plan and nothing else. -/
def sampleDir : PlansDir where
  path := "/opt/harmonic/bios-update/plans"
  listing := some [("plan.json", some (.json (.dict samplePlan)))]
  nodup := by simp

theorem sampleDir_plans : loadValidTransitionPlans sampleDir =
    .ok [("/opt/harmonic/bios-update/plans/plan.json", samplePlan)] := by
  have hload : loadBasePlan (.json (.dict samplePlan)) = .ok samplePlan := by
    obtain ⟨b, hb, hvalid⟩ := validateBaseUpgradePlan_eq_ok.mp samplePlan_valid
    obtain rfl := PyVal.dict.inj hb
    exact loadBasePlan_eq_ok hvalid
  have hat : validPlanAt sampleDir.path ("plan.json", some (.json (.dict samplePlan))) =
      some ("/opt/harmonic/bios-update/plans/plan.json", samplePlan) := by
    rw [validPlanAt, hload, if_pos (by decide)]
    rfl
  have hnames : (sortedNames [("plan.json", some (.json (.dict samplePlan)))]).filterMap
      (validPlanAt sampleDir.path) = [("/opt/harmonic/bios-update/plans/plan.json", samplePlan)] := by
    rw [sortedNames, List.mergeSort_singleton, List.filterMap_cons, hat, List.filterMap_nil]
  rw [loadValidTransitionPlans, seq_eq_ok]
  refine ⟨require_eq_ok.mpr (by decide), ?_⟩
  exact congrArg Except.ok hnames

end Workbench.Bios
