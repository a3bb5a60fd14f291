import Mathlib.Algebra.Order.Ring.Rat
import Workbench.Bios.Recovery
import Workbench.Bios.Reload

/-!
# `Bios.Defaults` — base plans that can be loaded without a state file

The validator of base plans does not look at `max_attempts_per_action`, which the default state converts with `int(...)`
and the validators of states and plans require to be at least one. It is the only such field.

## Main results
* `pyInt_ge_one_iff` — the values that are a limit;
* `loads_iff` — the accepted base plans that can be loaded.
-/

namespace Workbench.Bios

open Python

variable {intParse : String → Option Int} {base : PyDict} {v : PyVal}

/-- A retry limit of at least one, as `int(...)` reads it. -/
def LimitOk (intParse : String → Option Int) : PyVal → Prop
  | .int i => 1 ≤ i
  | .bool b => b = true
  | .float (.fin q) => 1 ≤ q
  | .str s => ∃ i, intParse s = some i ∧ 1 ≤ i
  | _ => False

/-- The limit a base plan gives, or the default. -/
def limitOf (basePlan : PyVal) : PyVal := getOr (entries basePlan) "max_attempts_per_action" (.int 2)

/-- **Loading without a state file**: nothing raises, and the state and the plan are accepted. -/
def LoadsWithoutState (intParse : String → Option Int) (basePlan : PyVal) : Prop :=
  ∃ base state plan, loadBasePlan (.json basePlan) = .ok base ∧
    defaultStateFromBasePlan intParse base = .ok state ∧
    validateUpgradeState (.dict state) (actionsOf base).length = .ok () ∧
    loadOrInitRuntimeState intParse base none = .ok state ∧
    mergePlanAndState base state = .ok plan ∧ validateUpgradePlan (.dict plan) = .ok ()

/-! ## The limit -/

/-- `int(...)` drops the fraction. -/
theorem one_le_tdiv_iff (q : Rat) : 1 ≤ q.num.tdiv q.den ↔ 1 ≤ q := by
  have hden : (0 : Int) < q.den := Int.natCast_pos.mpr q.den_pos
  have hle : 1 ≤ q ↔ (q.den : Int) ≤ q.num := by
    rw [Rat.le_iff]
    simp
  rw [hle]
  rcases Int.le_total 0 q.num with hnum | hnum
  · rw [Int.tdiv_eq_ediv_of_nonneg hnum, Int.le_ediv_iff_mul_le hden, one_mul]
  · have hneg : 0 ≤ (-q.num).tdiv q.den := Int.tdiv_nonneg (by omega) hden.le
    rw [Int.neg_tdiv] at hneg
    omega

theorem pyInt_ge_one_iff : (∃ i, pyInt intParse v = .ok i ∧ 1 ≤ i) ↔ LimitOk intParse v := by
  cases v with
  | bool b => cases b <;> simp [pyInt, LimitOk]
  | float f =>
      cases f with
      | fin q => simpa [pyInt, LimitOk] using one_le_tdiv_iff q
      | _ => simp [pyInt, LimitOk]
  | str s => cases h : intParse s <;> simp [pyInt, LimitOk, h]
  | _ => simp [pyInt, LimitOk]

/-! ## Loading -/

/-- With a limit, the default state is the one of a fresh progress. -/
theorem loads_of_limit (hbase : ValidBase base) {i : Int} (hi : pyInt intParse (limitOf (.dict base)) = .ok i)
    (hone : 1 ≤ i) : LoadsWithoutState intParse (.dict base) := by
  obtain ⟨max, rfl⟩ := Int.eq_ofNat_of_zero_le (Int.le_trans (by decide) hone)
  have hmax : 1 ≤ max := Int.ofNat_le.mp hone
  let fresh := Progress.init (actionsOf base).length max
  have hdefault := Progress.default_state hbase rfl hmax hi
  have hvalid : ValidState (fresh.state base) (actionsOf base).length := fresh.validState hbase rfl hmax
  have haccept := validateUpgradeState_eq_ok.mpr ⟨_, rfl, hvalid⟩
  obtain ⟨plan, hplan, hok⟩ := merge_validState hbase hvalid
  exact ⟨base, fresh.state base, plan, loadBasePlan_eq_ok hbase, hdefault, haccept,
    Progress.loadOrInit_none.mpr ⟨hdefault, haccept⟩, hplan, hok⟩

/-- **Which accepted base plans can be loaded**: those with a retry limit of at least one. -/
theorem loads_iff (h : validateBaseUpgradePlan v = .ok ()) :
    LoadsWithoutState intParse v ↔ LimitOk intParse (limitOf v) := by
  obtain ⟨base, rfl, hbase⟩ := validateBaseUpgradePlan_eq_ok.mp h
  rw [← pyInt_ge_one_iff]
  constructor
  · rintro ⟨base', state, plan, hload, hdefault, haccept, -, -, -⟩
    rw [loadBasePlan_eq_ok hbase, Except.ok.injEq] at hload
    subst hload
    exact Progress.limit_of_default hdefault haccept
  · rintro ⟨i, hi, hone⟩
    exact loads_of_limit hbase hi hone

/-- The plan of the tests, without a limit. -/
theorem loads_sample : LoadsWithoutState (fun _ => none) (.dict samplePlan) :=
  (loads_iff samplePlan_valid).mpr (show (1 : Int) ≤ 2 by decide)

/-- The plan of the tests with a limit of its own. -/
def limitedPlan (limit : PyVal) : PyVal := .dict (samplePlan.put "max_attempts_per_action" limit)

/-- A limit of zero and a limit of `null` are accepted. With the first the default state is rejected, and the second is
    a `TypeError`. -/
theorem loads_wrong : validateBaseUpgradePlan (limitedPlan (.int 0)) = .ok () ∧
    ¬ LoadsWithoutState (fun _ => none) (limitedPlan (.int 0)) ∧
    validateBaseUpgradePlan (limitedPlan .none) = .ok () ∧ ¬ LoadsWithoutState (fun _ => none) (limitedPlan .none) := by
  refine ⟨rfl, ?_, rfl, ?_⟩
  · rintro ⟨base, state, plan, hload, hdefault, haccept, -⟩
    cases hload
    cases hdefault
    cases haccept
  · rintro ⟨base, state, plan, hload, hdefault, -⟩
    cases hload
    cases hdefault

end Workbench.Bios
