import Workbench.Bios.Plan

/-!
# `Bios.Accept` — what the validators accept, and when they crash

Each validator is a sequence of checks that returns or raises. This module says once, as a structure with
one field per check, what it means that a validator *returns* (`ValidBase`, `ValidPlan`, `ValidState`), and
for the state validator also when it *crashes*, that is raises something other than `PlanValidationError`:
an unhashable value looked up in a `set`, or an `int` that does not fit a `float`. The later modules never
unfold a validator.
-/

namespace Workbench.Bios

open Python

/-! ## Loops -/

theorem forEnum_eq_ok {check : Nat → PyVal → Except PyErr Unit} :
    ∀ {k : Nat} {xs : List PyVal}, forEnum check k xs = .ok () ↔
      ∀ i x, xs[i]? = some x → check (k + i) x = .ok ()
  | _, [] => by simp [forEnum]
  | k, x :: xs => by
      simp only [forEnum, seq_eq_ok, forEnum_eq_ok (k := k + 1)]
      constructor
      · rintro ⟨hx, hxs⟩ i y hy
        cases i with
        | zero => simpa using (by simpa using hy : x = y) ▸ hx
        | succ i => simpa [Nat.add_assoc, Nat.add_comm 1] using hxs i y (by simpa using hy)
      · intro h
        refine ⟨by simpa using h 0 x rfl, fun i y hy => ?_⟩
        simpa [Nat.add_assoc, Nat.add_comm 1] using h (i + 1) y (by simpa using hy)

/-- A loop of checks crashes when some element does and all elements before it passed. -/
theorem crashes_forEnum {check : Nat → PyVal → Except PyErr Unit} :
    ∀ {k : Nat} {xs : List PyVal}, Crashes (forEnum check k xs) ↔
      ∃ i x, xs[i]? = some x ∧ Crashes (check (k + i) x) ∧
        ∀ j y, j < i → xs[j]? = some y → check (k + j) y = .ok ()
  | _, [] => by simp [forEnum]
  | k, x :: xs => by
      simp only [forEnum, crashes_seq, crashes_forEnum (k := k + 1)]
      constructor
      · rintro (hx | ⟨hx, i, y, hy, hc, hb⟩)
        · exact ⟨0, x, rfl, hx, fun j y hj => absurd hj (Nat.not_lt_zero j)⟩
        · refine ⟨i + 1, y, by simpa using hy, by simpa [Nat.add_assoc, Nat.add_comm 1] using hc, ?_⟩
          intro j z hj hz
          cases j with
          | zero => simpa using (by simpa using hz : x = z) ▸ hx
          | succ j =>
              simpa [Nat.add_assoc, Nat.add_comm 1] using hb j z (by omega) (by simpa using hz)
      · rintro ⟨i, y, hy, hc, hb⟩
        cases i with
        | zero => exact Or.inl (by simpa using (by simpa using hy : x = y) ▸ hc)
        | succ i =>
            refine Or.inr ⟨by simpa using hb 0 x (Nat.succ_pos i) rfl, i, y, by simpa using hy,
              by simpa [Nat.add_assoc, Nat.add_comm 1] using hc, fun j z hj hz => ?_⟩
            simpa [Nat.add_assoc, Nat.add_comm 1] using hb (j + 1) z (by omega) (by simpa using hz)

theorem requireKeys_eq_ok {d : PyDict} {ks : List String} :
    requireKeys d ks = .ok () ↔ ∀ k ∈ ks, d.hasKey k = true := by
  induction ks with
  | nil => simp [requireKeys]
  | cons k ks ih => simp [requireKeys, seq_eq_ok, ih]

theorem not_crashes_requireKeys {d : PyDict} {ks : List String} : ¬ Crashes (requireKeys d ks) := by
  induction ks with
  | nil => simp [requireKeys]
  | cons k ks ih => simp [requireKeys, crashes_seq, ih]

/-! ## Small facts about values -/

theorem hasKey_of_nonEmpty {d : PyDict} {k : String} (h : isNonEmptyString (item d k) = true) :
    d.hasKey k = true := by
  unfold item at h
  cases hk : d.get? k with
  | none => simp [hk, isNonEmptyString] at h
  | some v => simp [Dict.hasKey, hk]

theorem nonEmpty_is_str {v : PyVal} (h : isNonEmptyString v = true) : ∃ s, v = .str s := by
  cases v <;> simp [isNonEmptyString] at h ⊢

theorem nonEmpty_truthy {v : PyVal} (h : isNonEmptyString v = true) : v.truthy = true := by
  obtain ⟨s, rfl⟩ := nonEmpty_is_str h
  by_cases hs : s = ""
  · subst hs
    simp [isNonEmptyString] at h
  · simpa [PyVal.truthy] using hs

theorem hasKey_of_item {d : PyDict} {k : String} (h : item d k ≠ .none) : d.hasKey k = true := by
  unfold item at h
  cases hk : d.get? k with
  | none => simp [hk] at h
  | some v => simp [Dict.hasKey, hk]

/-- A value that stands for the version number `1.0`. -/
def IsVersionOne (v : PyVal) : Prop :=
  v = .bool true ∨ v = .int 1 ∨ v = .float (.fin 1)

theorem checkFileVersion_eq_ok {v : PyVal} : checkFileVersion v = .ok () ↔ IsVersionOne v := by
  cases v with
  | bool b =>
      cases b <;> simp [checkFileVersion, PyVal.number, IsVersionOne, PyVal.toFloat, PyVal.numEq,
        bind, Except.bind]
  | int i =>
      by_cases hbig : PyVal.floatLimit ≤ |i|
      · have hi : i ≠ 1 := by
          rintro rfl
          rw [abs_one] at hbig
          exact absurd PyVal.one_lt_floatLimit (not_lt.mpr hbig)
        simp [checkFileVersion, PyVal.number, IsVersionOne, PyVal.toFloat, hbig, bind, Except.bind, hi]
      · simp [checkFileVersion, PyVal.number, IsVersionOne, PyVal.toFloat, hbig, bind, Except.bind,
          PyVal.numEq]
  | float f =>
      cases f <;> simp [checkFileVersion, PyVal.number, IsVersionOne, PyVal.toFloat, PyVal.numEq,
        bind, Except.bind]
  | _ => simp [checkFileVersion, PyVal.number, IsVersionOne]

/-- The version check crashes exactly on an `int` that `float(...)` cannot represent. -/
theorem crashes_checkFileVersion {v : PyVal} :
    Crashes (checkFileVersion v) ↔ ∃ i, v = .int i ∧ PyVal.floatLimit ≤ |i| := by
  have hcmp : ∀ f : PyFloat, ¬ Crashes (if PyVal.numEq f (.fin 1) then .ok () else
      .error (.planValidationError "STATE_FILE_VERSION_MISMATCH"
        [.text "runtime_file_version ", .value v, .text " does not match expected 1.0"]) :
        Except PyErr Unit) := by
    intro f
    split <;> simp [Crashes]
  cases v with
  | int i =>
      by_cases hbig : PyVal.floatLimit ≤ |i|
      · simp [checkFileVersion, PyVal.number, PyVal.toFloat, hbig, bind, Except.bind, Crashes]
      · simpa [checkFileVersion, PyVal.number, PyVal.toFloat, hbig, bind, Except.bind] using hcmp (.fin i)
  | float f => simpa [checkFileVersion, PyVal.number, PyVal.toFloat, bind, Except.bind] using hcmp f
  | bool b =>
      simpa [checkFileVersion, PyVal.number, PyVal.toFloat, bind, Except.bind] using
        hcmp (.fin (if b then 1 else 0))
  | _ => simp [checkFileVersion, PyVal.number, Crashes]

/-! ## `validate_base_upgrade_plan` -/

/-- An action of an accepted base plan. -/
structure ValidBaseAction (a : PyDict) : Prop where
  action_id : isNonEmptyString (item a "action_id") = true
  command : isNonEmptyString (item a "command") = true
  reset_after_action : ∀ v, a.get? "reset_after_action" = some v → ∃ b, v = .bool b

/-- An accepted base plan. -/
structure ValidBase (base : PyDict) : Prop where
  from_version : isNonEmptyString (item base "from_version") = true
  to_version : isNonEmptyString (item base "to_version") = true
  payload_path : isNonEmptyString (item base "payload_path") = true
  board_name : isNonEmptyString (item base "board_name") = true
  platform : isNonEmptyString (item base "platform") = true
  actions_ne_nil : actionsOf base ≠ []
  actions_eq : item base "actions" = .list ((actionsOf base).map .dict)
  actions : ∀ a ∈ actionsOf base, ValidBaseAction a

theorem validateBaseAction_eq_ok {i : Nat} {v : PyVal} :
    validateBaseAction i v = .ok () ↔ ∃ a, v = .dict a ∧ ValidBaseAction a := by
  cases v with
  | dict a =>
      simp only [validateBaseAction, seq_eq_ok, require_eq_ok, PyVal.dict.injEq, exists_eq_left']
      constructor
      · rintro ⟨-, -, hid, hcmd, hreset⟩
        refine ⟨hid, hcmd, fun w hw => ?_⟩
        rw [hw] at hreset
        cases w <;> simp at hreset ⊢
      · intro h
        refine ⟨hasKey_of_nonEmpty h.action_id, hasKey_of_nonEmpty h.command, h.action_id, h.command, ?_⟩
        split
        · rfl
        · next w hne hw =>
            obtain ⟨b, rfl⟩ := h.reset_after_action w hw
            exact absurd rfl (hne b)
        · rfl
  | _ => simp [validateBaseAction]

/-- A list of dictionaries is the list its `entries` rebuild. -/
theorem map_dict_entries {xs : List PyVal} 
    (h : ∀ (i : Nat) (x : PyVal), xs[i]? = some x → ∃ a, x = .dict a) :
    (xs.map entries).map PyVal.dict = xs := by
  induction xs with
  | nil => rfl
  | cons x xs ih =>
      obtain ⟨a, rfl⟩ := h 0 x rfl
      simpa [entries] using ih (fun i y hy => h (i + 1) y (by simpa using hy))

theorem list_of_items_ne_nil {v : PyVal} (h : items v ≠ []) : v = .list (items v) := by
  cases v <;> simp [items] at h ⊢

theorem validateBaseUpgradePlan_eq_ok {v : PyVal} :
    validateBaseUpgradePlan v = .ok () ↔ ∃ base, v = .dict base ∧ ValidBase base := by
  cases v with
  | dict base =>
      simp only [validateBaseUpgradePlan, seq_eq_ok, require_eq_ok, PyVal.dict.injEq, exists_eq_left',
        forEnum_eq_ok, validateBaseAction_eq_ok]
      constructor
      · rintro ⟨-, hfrom, hto, hpath, hboard, hplat, hne, hacts⟩
        have hne' : items (item base "actions") ≠ [] := by simpa using hne
        have hmap := map_dict_entries (fun i x hx => (hacts i x hx).imp fun a ha => ha.1)
        refine ⟨hfrom, hto, hpath, hboard, hplat, by simpa [actionsOf] using hne', ?_, ?_⟩
        · rw [actionsOf, hmap]
          exact list_of_items_ne_nil hne'
        · intro a ha
          obtain ⟨x, hx, rfl⟩ := List.mem_map.mp ha
          obtain ⟨i, hi⟩ := List.mem_iff_getElem?.mp hx
          obtain ⟨a', rfl, ha'⟩ := hacts i x hi
          exact ha'
      · intro h
        have hitems : items (item base "actions") = (actionsOf base).map .dict := by
          rw [h.actions_eq, items]
        refine ⟨?_, h.from_version, h.to_version, h.payload_path, h.board_name, h.platform, ?_, ?_⟩
        · simp [basePlanKeys, hasKey_of_nonEmpty, h.from_version, h.to_version, h.payload_path,
            h.board_name, h.platform, hasKey_of_item, h.actions_eq]
        · simpa [hitems] using h.actions_ne_nil
        · intro i x hx
          rw [hitems, List.getElem?_map, Option.map_eq_some_iff] at hx
          obtain ⟨a, ha, rfl⟩ := hx
          exact ⟨a, rfl, h.actions a (List.mem_of_getElem? ha)⟩
  | _ => simp [validateBaseUpgradePlan]

theorem loadBasePlan_eq_ok {base : PyDict} (hbase : ValidBase base) :
    loadBasePlan (.json (.dict base)) = .ok base := by
  simp only [loadBasePlan, jsonLoad, bind, Except.bind,
    validateBaseUpgradePlan_eq_ok.mpr ⟨base, rfl, hbase⟩, entries]
  rfl

/-- Loading returns only valid base plans, and those as they are in the file. -/
theorem loadBasePlan_ok {content : FileContent} {base : PyDict} (h : loadBasePlan content = .ok base) :
    content = .json (.dict base) ∧ ValidBase base := by
  cases content with
  | undecodable => simp [loadBasePlan, jsonLoad, bind, Except.bind] at h
  | json v =>
      simp only [loadBasePlan, jsonLoad, bind_eq_ok, Except.ok.injEq, exists_eq_left'] at h
      obtain ⟨u, hval, hbase⟩ := h
      obtain ⟨b, rfl, hb⟩ := validateBaseUpgradePlan_eq_ok.mp hval
      obtain rfl : b = base := by simpa [entries, pure, Except.pure] using hbase
      exact ⟨rfl, hb⟩

/-- The base plan of the tests: two actions, a reset after the second. -/
def samplePlan : PyDict :=
  [("board_name", .str "M50FCP2SBSTD"), ("platform", .str "APOLLO_PLATFORM"),
    ("from_version", .str "SE5C741.86B.01.01.0005"), ("to_version", .str "SE5C741.86B.01.02.0001"),
    ("payload_path", .str "/opt/harmonic/bios-update/intel/M50FCP2SBSTD_R01020001.zip"),
    ("actions", .list [
      .dict [("action_id", .str "action_001"),
        ("command", .str "update_component --component cpld --version V3P0 --reset none"),
        ("reset_after_action", .bool false)],
      .dict [("action_id", .str "action_002"),
        ("command", .str "update_component --component bmc --version 1.81 --reset system_reset"),
        ("reset_after_action", .bool true)]])]

theorem samplePlan_valid : validateBaseUpgradePlan (.dict samplePlan) = .ok () := by
  rfl

/-! ## `validate_upgrade_plan` -/

/-- An action of an accepted merged plan. -/
structure ValidPlanAction (a : PyDict) : Prop where
  action_id : isNonEmptyString (item a "action_id") = true
  command : isNonEmptyString (item a "command") = true
  status : ∃ s ∈ allowedStates, item a "status" = .str s
  attempts : (item a "attempts").isIntGe 0 = true

/-- An accepted merged plan. -/
structure ValidPlan (p : PyDict) : Prop where
  from_version : isNonEmptyString (item p "from_version") = true
  to_version : isNonEmptyString (item p "to_version") = true
  payload_path : isNonEmptyString (item p "payload_path") = true
  board_name : isNonEmptyString (item p "board_name") = true
  platform : isNonEmptyString (item p "platform") = true
  actions_ne_nil : items (item p "actions") ≠ []
  current_action_index : (item p "current_action_index").isIntGe 0 = true
  max_attempts_per_action : (item p "max_attempts_per_action").isIntGe 1 = true
  state : ∃ s ∈ allowedStates, item p "state" = .str s
  last_error : p.hasKey "last_error" = true
  actions : ∀ x ∈ items (item p "actions"), ∃ a, x = .dict a ∧ ValidPlanAction a
  index_within :
    indexWithin (item p "current_action_index") (items (item p "actions")).length = true

theorem isIntGe_ne_none {v : PyVal} {b : Int} (h : v.isIntGe b = true) : v ≠ .none := by
  rintro rfl
  simp [PyVal.isIntGe, PyVal.asInt] at h

theorem allowed_ne_none {v : PyVal} (h : ∃ s ∈ allowedStates, v = .str s) : v ≠ .none := by
  rintro rfl
  simp at h

/-- `let known ← v.inStrSet names; require known code text`. -/
theorem inStrSet_require_eq_ok {v : PyVal} {names : List String} {code text : String} :
    (v.inStrSet names >>= fun known => require known code text) = .ok () ↔
      ∃ s ∈ names, v = .str s := by
  rw [bind_eq_ok, ← PyVal.inStrSet_eq_ok]
  constructor
  · rintro ⟨known, h, hk⟩
    rw [require_eq_ok] at hk
    rw [h, hk]
  · intro h
    exact ⟨true, h, rfl⟩

/-- The same check followed by more code. -/
theorem inStrSet_require_seq_eq_ok {v : PyVal} {names : List String} {code text : String}
    {rest : Except PyErr Unit} :
    (v.inStrSet names >>= fun known => require known code text >>= fun _ => rest) = .ok () ↔
      (∃ s ∈ names, v = .str s) ∧ rest = .ok () := by
  rw [← @inStrSet_require_eq_ok v names code text, ← seq_eq_ok (f := fun _ => rest),
    bind_assoc]

theorem validatePlanAction_eq_ok {i : Nat} {v : PyVal} :
    validatePlanAction i v = .ok () ↔ ∃ a, v = .dict a ∧ ValidPlanAction a := by
  cases v with
  | dict a =>
      simp only [validatePlanAction, seq_eq_ok, require_eq_ok, inStrSet_require_seq_eq_ok,
        PyVal.dict.injEq, exists_eq_left']
      constructor
      · rintro ⟨-, -, -, -, hid, hcmd, hst, hatt⟩
        exact ⟨hid, hcmd, hst, hatt⟩
      · intro h
        exact ⟨hasKey_of_nonEmpty h.action_id, hasKey_of_nonEmpty h.command,
          hasKey_of_item (allowed_ne_none h.status), hasKey_of_item (isIntGe_ne_none h.attempts),
          h.action_id, h.command, h.status, h.attempts⟩
  | _ => simp [validatePlanAction]

theorem validateUpgradePlan_eq_ok {p : PyDict} :
    validateUpgradePlan (.dict p) = .ok () ↔ ValidPlan p := by
  simp only [validateUpgradePlan, seq_eq_ok, require_eq_ok, inStrSet_require_seq_eq_ok,
    forEnum_eq_ok, validatePlanAction_eq_ok]
  constructor
  · rintro ⟨hkeys, hfrom, hto, hpath, hboard, hplat, hne, hidx, hmax, hst, hacts, hwithin⟩
    refine ⟨hfrom, hto, hpath, hboard, hplat, by simpa using hne, hidx, hmax, hst, ?_, ?_, hwithin⟩
    · exact (List.all_eq_true.mp hkeys) "last_error" (by simp [planKeys])
    · intro x hx
      obtain ⟨i, hi⟩ := List.mem_iff_getElem?.mp hx
      exact hacts i x hi
  · intro h
    refine ⟨?_, h.from_version, h.to_version, h.payload_path, h.board_name, h.platform,
      by simpa using h.actions_ne_nil, h.current_action_index, h.max_attempts_per_action, h.state,
      fun i x hx => h.actions x (List.mem_of_getElem? hx), h.index_within⟩
    have hacts : item p "actions" ≠ .none := by
      intro hnone
      exact h.actions_ne_nil (by simp [hnone, items])
    simp [planKeys, hasKey_of_nonEmpty, h.from_version, h.to_version, h.payload_path,
      h.board_name, h.platform, hasKey_of_item, hacts, isIntGe_ne_none h.current_action_index,
      isIntGe_ne_none h.max_attempts_per_action, allowed_ne_none h.state, h.last_error]

/-! ## `validate_upgrade_state` -/

/-- An accepted entry of `state["actions"]`. -/
structure ValidActionState (a : PyDict) : Prop where
  action_id : isNonEmptyString (item a "action_id") = true
  status : ∃ s ∈ allowedStates, item a "status" = .str s
  attempts : (item a "attempts").isIntGe 0 = true

/-- Everything the validator looks at before the loop over `state["actions"]`. -/
structure ValidHeader (s : PyDict) (n : Nat) : Prop where
  keys : ∀ k ∈ stateKeys, s.hasKey k = true
  version : IsVersionOne (item s "runtime_file_version")
  max_attempts_per_action : (item s "max_attempts_per_action").isIntGe 1 = true
  board_name : isNonEmptyString (item s "board_name") = true
  platform : isNonEmptyString (item s "platform") = true
  current_action_index : (item s "current_action_index").isIntGe 0 = true
  state : ∃ v ∈ allowedStates, item s "state" = .str v
  actions : isList (item s "actions") = true
  length : (items (item s "actions")).length = n

/-- An accepted runtime state for a plan with `n` actions. -/
structure ValidState (s : PyDict) (n : Nat) : Prop extends ValidHeader s n where
  action_states : ∀ x ∈ items (item s "actions"), ∃ a, x = .dict a ∧ ValidActionState a
  index_within : indexWithin (item s "current_action_index") n = true

theorem validateActionState_eq_ok {i : Nat} {v : PyVal} :
    validateActionState i v = .ok () ↔ ∃ a, v = .dict a ∧ ValidActionState a := by
  cases v with
  | dict a =>
      simp only [validateActionState, seq_eq_ok, require_eq_ok, inStrSet_require_seq_eq_ok,
        PyVal.dict.injEq, exists_eq_left']
      constructor
      · rintro ⟨hid, hst, hatt⟩
        exact ⟨hid, hst, hatt⟩
      · intro h
        exact ⟨h.action_id, h.status, h.attempts⟩
  | _ => simp [validateActionState]

theorem validateUpgradeState_eq_ok {v : PyVal} {n : Nat} :
    validateUpgradeState v n = .ok () ↔ ∃ s, v = .dict s ∧ ValidState s n := by
  cases v with
  | dict s =>
      simp only [validateUpgradeState, seq_eq_ok, require_eq_ok, inStrSet_require_seq_eq_ok,
        requireKeys_eq_ok, checkFileVersion_eq_ok, forEnum_eq_ok, validateActionState_eq_ok,
        PyVal.dict.injEq, exists_eq_left', Bool.and_eq_true, beq_iff_eq]
      constructor
      · rintro ⟨hkeys, hver, hmax, hboard, hplat, hidx, hst, ⟨hlist, hlen⟩, hacts, hwithin⟩
        refine ⟨⟨hkeys, hver, hmax, hboard, hplat, hidx, hst, hlist, hlen⟩, fun x hx => ?_, hwithin⟩
        obtain ⟨i, hi⟩ := List.mem_iff_getElem?.mp hx
        exact hacts i x hi
      · intro h
        exact ⟨h.keys, h.version, h.max_attempts_per_action, h.board_name, h.platform,
          h.current_action_index, h.state, ⟨h.actions, h.length⟩,
          fun i x hx => h.action_states x (List.mem_of_getElem? hx), h.index_within⟩
  | _ => simp [validateUpgradeState]

/-! ### Crashes of the state validator -/

theorem crashes_inStrSet_require {v : PyVal} {names : List String} {code text : String}
    {rest : Except PyErr Unit} :
    Crashes (v.inStrSet names >>= fun known => require known code text >>= fun _ => rest) ↔
      v.hashable = false ∨ (∃ s ∈ names, v = .str s) ∧ Crashes rest := by
  rw [← @inStrSet_require_eq_ok v names code text, ← bind_assoc, crashes_seq, crashes_bind]
  simp [PyVal.crashes_inStrSet]

/-- An entry of `state["actions"]` that makes the loop body raise `TypeError`: it gets past the
    `action_id` check with a `list` or `dict` for a status. -/
def UnhashableStatus (v : PyVal) : Prop :=
  ∃ a, v = .dict a ∧ isNonEmptyString (item a "action_id") = true ∧ (item a "status").hashable = false

theorem crashes_validateActionState {i : Nat} {v : PyVal} :
    Crashes (validateActionState i v) ↔ UnhashableStatus v := by
  cases v with
  | dict a =>
      simp [validateActionState, crashes_seq, crashes_inStrSet_require, UnhashableStatus]
  | _ => simp [validateActionState, UnhashableStatus]

/-- The first entry of `xs` that is not an accepted action state has an unhashable status. -/
def FirstBadEntryUnhashable (xs : List PyVal) : Prop :=
  ∃ (i : Nat) (x : PyVal), xs[i]? = some x ∧ UnhashableStatus x ∧
    ∀ (j : Nat) (y : PyVal), j < i → xs[j]? = some y → ∃ a, y = .dict a ∧ ValidActionState a

/-- A version number `float(...)` raises on. -/
def HugeVersion (s : PyDict) : Prop :=
  ∃ i, item s "runtime_file_version" = .int i ∧ PyVal.floatLimit ≤ |i|

/-- **When the state validator crashes**, for a state whose `state` entry is hashable: the version
    number is an `int` too large for a `float`, or the loop over the entries reaches an unhashable
    status. -/
theorem crashes_validateUpgradeState {s : PyDict} {n : Nat}
    (hst : (item s "state").hashable = true) :
    Crashes (validateUpgradeState (.dict s) n) ↔
      ((∀ k ∈ stateKeys, s.hasKey k = true) ∧ HugeVersion s) ∨
        (ValidHeader s n ∧ FirstBadEntryUnhashable (items (item s "actions"))) := by
  simp only [validateUpgradeState, crashes_seq, not_crashes_requireKeys, crashes_checkFileVersion,
    not_crashes_require, crashes_inStrSet_require, crashes_forEnum, crashes_validateActionState,
    requireKeys_eq_ok, checkFileVersion_eq_ok, require_eq_ok, hst, forEnum_eq_ok,
    validateActionState_eq_ok, false_or, Bool.and_eq_true, beq_iff_eq, Bool.true_eq_false, and_false,
    or_false]
  constructor
  · rintro ⟨hkeys, hbig | ⟨hver, hmax, hboard, hplat, hidx, hst, ⟨hlist, hlen⟩, hbad⟩⟩
    · exact Or.inl ⟨hkeys, hbig⟩
    · exact Or.inr ⟨⟨hkeys, hver, hmax, hboard, hplat, hidx, hst, hlist, hlen⟩, hbad⟩
  · rintro (⟨hkeys, hbig⟩ | ⟨h, hbad⟩)
    · exact ⟨hkeys, Or.inl hbig⟩
    · exact ⟨h.keys, Or.inr ⟨h.version, h.max_attempts_per_action, h.board_name, h.platform,
        h.current_action_index, h.state, ⟨h.actions, h.length⟩, hbad⟩⟩

end Workbench.Bios
