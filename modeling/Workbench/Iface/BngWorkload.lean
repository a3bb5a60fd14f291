import Mathlib.Data.List.TakeWhile
import Workbench.Iface.ProtectionGroups

/-!
# `Iface.BngWorkload` — `apply_bng_workload`

A call brings the BNG workloads of the cluster to the specs that are asked for, and hands the workloads that it has
created and deleted to `apply_bng_pgs`. Nothing else remembers which workload is in which group, so the groups and the
workloads agree only if every call keeps them so.

## Contents
- **The code.** `wlOps`, the three loops, and `applyBngWorkload`, the operations of a call on both kinds of objects.
- **The cluster.** `Cluster.apply` and `run`, the calls one after the other.
- **The invariant.** `Consistent`: the groups are a partition of the workloads that are there.
- **Main result.** `bngs_settle`.
-/

namespace Workbench.BngWorkload

open Iface

variable {Spec : Type} [DecidableEq Spec]

/-! ## The code -/

/-- The `bng-workloads` of the cluster by name, each with what `.get('spec')` is. -/
abbrev Workloads (Spec : Type) := Dict String (Option Spec)

/-- `name.startswith('bng-workload-')`. -/
def isBngWorkload (name : String) : Bool := "bng-workload-".toList.isPrefixOf name.toList

/-- `int(re.search(r'\d+', name).group())`; `none` is the `AttributeError` of a name without digits. The names in a
    cluster are ASCII. -/
def numberOf? (name : String) : Option Nat :=
  match (name.toList.dropWhile fun c => !c.isDigit).takeWhile Char.isDigit with
  | [] => none
  | digits => some (Nat.ofDigitChars 10 digits 0)

/-- The set of the numbers of `names`. -/
def numbers? (names : List String) : Option (Finset Nat) := (names.mapM numberOf?).map List.toFinset

/-- `SortedSet` of a set. -/
def sortedSet (s : Finset Nat) : SortedSet := ⟨s.sort (· ≤ ·), s.sortedLT_sort.pairwise⟩

/-- `k8s_delete_bngwl`, `k8s_update_bngwl_spec` and `k8s_create`. -/
inductive WlOp (Spec : Type) where
  | delete (name : String)
  | update (name : String) (spec : Spec)
  | create (name : String) (spec : Spec)

/-- `k8s_bng_workloads`. -/
def k8sBngWorkloads (workloads : Workloads Spec) : Workloads Spec := workloads.filter fun e => isBngWorkload e.1

/-- `delete = old - new`. -/
def deleteSet (specs : Dict String Spec) (k8s : Workloads Spec) : List String :=
  k8s.keys.filter fun bng => decide (bng ∉ specs.keys)

/-- `create = new - old`. -/
def createSet (specs : Dict String Spec) (k8s : Workloads Spec) : List String :=
  specs.keys.filter fun bng => decide (bng ∉ k8s.keys)

/-- `update = new & old`. -/
def updateSet (specs : Dict String Spec) (k8s : Workloads Spec) : List String :=
  specs.keys.filter fun bng => decide (bng ∈ k8s.keys)

/-- A turn of the loop over `update`. -/
def updateOp? (specs : Dict String Spec) (k8s : Workloads Spec) (bng : String) : Option (WlOp Spec) := do
  let spec ← specs.get? bng
  let stored ← k8s.get? bng
  if some spec ≠ stored then some (.update bng spec) else none

/-- A turn of the loop over `create`. -/
def createOp? (specs : Dict String Spec) (bng : String) : Option (WlOp Spec) := do
  let spec ← specs.get? bng
  some (.create bng spec)

/-- The three loops, over the sets in the order `order` gives them. -/
def wlOps (order : List String → List String) (specs : Dict String Spec) (k8s : Workloads Spec) : List (WlOp Spec) :=
  (order (deleteSet specs k8s)).map WlOp.delete ++
    (order (updateSet specs k8s)).filterMap (updateOp? specs k8s) ++
    (order (createSet specs k8s)).filterMap (createOp? specs)

/-- The objects of the cluster that a call reads and writes. -/
structure Cluster (Spec : Type) where
  bngWorkloads : Workloads Spec
  bngPgs : Dict Nat (Finset Nat)

/-- `apply_bng_workload`: the operations on the workloads, and the ones of `apply_bng_pgs`. -/
def applyBngWorkload (limit : Nat) (order : List String → List String) (specs : Dict String Spec)
    (cluster : Cluster Spec) : Option (List (WlOp Spec) × List PgOp) := do
  let k8s := k8sBngWorkloads cluster.bngWorkloads
  let created ← numbers? (createSet specs k8s)
  let deleted ← numbers? (deleteSet specs k8s)
  some (wlOps order specs k8s, applyBngPgs limit cluster.bngPgs (sortedSet created) deleted)

/-! ## The cluster -/

/-- What an operation does to the workloads of the cluster. -/
def applyWlOp (workloads : Workloads Spec) : WlOp Spec → Workloads Spec
  | .delete name => workloads.erase name
  | .update name spec => workloads.put name (some spec)
  | .create name spec => workloads.put name (some spec)

/-- The workload an operation is on. -/
def WlOp.name : WlOp Spec → String
  | .delete name => name
  | .update name _ => name
  | .create name _ => name

/-- What an operation leaves there. -/
def WlOp.value : WlOp Spec → Option (Option Spec)
  | .delete _ => none
  | .update _ spec => some (some spec)
  | .create _ spec => some (some spec)

/-- The cluster after the operations of a call. -/
def Cluster.apply (cluster : Cluster Spec) (ops : List (WlOp Spec) × List PgOp) : Cluster Spec where
  bngWorkloads := ops.1.foldl applyWlOp cluster.bngWorkloads
  bngPgs := applyOps cluster.bngPgs ops.2

/-- The order in which a loop visits a set: its elements, each once. -/
structure SetOrder where
  order : List String → List String
  perm : ∀ names, (order names).Perm names

/-- `bng_workload_specs`: a spec under the name of each `bng-id`. -/
structure BngSpecs (Spec : Type) where
  specs : Dict String Spec
  nodup : specs.keys.Nodup
  named : ∀ name ∈ specs.keys, ∃ id, name = workloadName id

/-- The specs of the BNGs with the ids `bngs`. -/
def BngSpecs.ofIds (bngs : Dict Nat Spec) (h : bngs.keys.Nodup) : BngSpecs Spec where
  specs := bngs.map fun bng => (workloadName bng.1, bng.2)
  nodup := by
    have hkeys : Dict.keys (bngs.map fun bng => (workloadName bng.1, bng.2)) = bngs.keys.map workloadName := by
      simp [Dict.keys, Function.comp_def]
    rw [hkeys]
    exact h.map workloadName_injective
  named := by
    intro name hname
    obtain ⟨_, he, rfl⟩ := List.mem_map.mp hname
    obtain ⟨bng, -, rfl⟩ := List.mem_map.mp he
    exact ⟨bng.1, rfl⟩

/-- A call, with the order of its sets. -/
structure Call (Spec : Type) where
  specs : BngSpecs Spec
  order : SetOrder

/-- What a call makes of the cluster. -/
def Call.applied (limit : Nat) (cluster : Cluster Spec) (call : Call Spec) : Option (Cluster Spec) :=
  (applyBngWorkload limit call.order.order call.specs.specs cluster).map cluster.apply

/-- The calls one after the other; `none` when one of them raises. -/
def run (limit : Nat) (cluster : Cluster Spec) (calls : List (Call Spec)) : Option (Cluster Spec) :=
  calls.foldlM (Call.applied limit) cluster

/-! ## What it should do -/

/-- No BNG has been applied yet. -/
structure Fresh (cluster : Cluster Spec) : Prop where
  no_workload : ∀ name ∈ cluster.bngWorkloads.keys, isBngWorkload name = false
  no_pg : cluster.bngPgs = []

/-- **What is asked for**: the workloads of the specs, and a partition of these into groups of at most `limit`. -/
structure Settled (limit : Nat) (specs : Dict String Spec) (cluster : Cluster Spec) : Prop where
  workloads : ∀ name, isBngWorkload name = true → cluster.bngWorkloads.get? name = (specs.get? name).map some
  disjoint : ∀ i j s t, i ≠ j → cluster.bngPgs.get? i = some s → cluster.bngPgs.get? j = some t → Disjoint s t
  covers : ∀ w, (∃ i s, cluster.bngPgs.get? i = some s ∧ w ∈ s) ↔ workloadName w ∈ specs.keys
  filled : ∀ i s, cluster.bngPgs.get? i = some s → s.Nonempty ∧ s.card ≤ limit

/-- The workloads that are asked for again are in the group they were in. -/
def Stay (specs : Dict String Spec) (before after : Cluster Spec) : Prop :=
  ∀ i s w, before.bngPgs.get? i = some s → w ∈ s → workloadName w ∈ specs.keys →
    ∃ t, after.bngPgs.get? i = some t ∧ w ∈ t

/-- **The invariant** of the calls. -/
structure Consistent (limit : Nat) (cluster : Cluster Spec) : Prop where
  named : ∀ name ∈ cluster.bngWorkloads.keys, isBngWorkload name = true → ∃ id, name = workloadName id
  nodup : cluster.bngPgs.keys.Nodup
  disjoint : cluster.bngPgs.Pairwise fun a b => Disjoint a.2 b.2
  covers : ∀ w, (∃ e ∈ cluster.bngPgs, w ∈ e.2) ↔ workloadName w ∈ cluster.bngWorkloads.keys
  filled : ∀ e ∈ cluster.bngPgs, e.2.Nonempty ∧ e.2.card ≤ limit

/-! ## Names -/

theorem toList_workloadName (n : Nat) : (workloadName n).toList = "bng-workload-".toList ++ Nat.toDigits 10 n := by
  show ("bng-workload-" ++ Nat.repr n).toList = _
  rw [String.toList_append, Nat.repr]
  exact congrArg _ String.toList_ofList

theorem isBngWorkload_workloadName (n : Nat) : isBngWorkload (workloadName n) = true := by
  rw [isBngWorkload, toList_workloadName, List.isPrefixOf_iff_prefix]
  exact List.prefix_append _ _

/-- The number that is found in a name is the one it was made of. -/
theorem numberOf?_workloadName (n : Nat) : numberOf? (workloadName n) = some n := by
  have hdigits : ∀ c ∈ Nat.toDigits 10 n, c.isDigit = true := fun c hc =>
    Nat.isDigit_of_mem_toDigits (by decide) (Nat.le_refl 10) hc
  have hprefix : ∀ c ∈ "bng-workload-".toList, (!c.isDigit) = true := List.all_eq_true.mp rfl
  have hdrop : (workloadName n).toList.dropWhile (fun c => !c.isDigit) = Nat.toDigits 10 n := by
    rw [toList_workloadName, List.dropWhile_append_of_pos hprefix]
    cases hcons : Nat.toDigits 10 n with
    | nil => rfl
    | cons c cs =>
        rw [List.dropWhile_cons_of_neg (by simp [hdigits c (hcons ▸ List.mem_cons_self)])]
  rw [numberOf?, hdrop, List.takeWhile_eq_self_iff.mpr hdigits]
  have hvalue := Nat.ofDigitChars_toDigits (show 1 < 10 by decide) (Nat.le_refl 10) (n := n)
  cases hcons : Nat.toDigits 10 n with
  | nil => exact absurd hcons (Nat.toDigits_ne_nil)
  | cons c cs =>
      rw [hcons] at hvalue
      exact congrArg some hvalue

/-- The numbers of the names of workloads. -/
theorem numbers?_named {names : List String} (h : ∀ name ∈ names, ∃ id, name = workloadName id) :
    ∃ s, numbers? names = some s ∧ ∀ w, w ∈ s ↔ workloadName w ∈ names := by
  suffices hl : ∃ l, names.mapM numberOf? = some l ∧ ∀ w, w ∈ l ↔ workloadName w ∈ names by
    obtain ⟨l, hmap, hmem⟩ := hl
    exact ⟨l.toFinset, by rw [numbers?, hmap, Option.map_some], fun w => by rw [List.mem_toFinset, hmem]⟩
  induction names with
  | nil => exact ⟨[], rfl, fun w => by simp⟩
  | cons name names ih =>
      obtain ⟨id, rfl⟩ := h name List.mem_cons_self
      obtain ⟨l, hmap, hmem⟩ := ih fun name hname => h name (List.mem_cons_of_mem _ hname)
      refine ⟨id :: l, ?_, fun w => ?_⟩
      · rw [List.mapM_cons, numberOf?_workloadName, hmap]
        rfl
      · rw [List.mem_cons, List.mem_cons, hmem, workloadName_injective.eq_iff]

/-! ## The workloads -/

variable {specs : Dict String Spec} {workloads k8s : Workloads Spec} {name : String}

omit [DecidableEq Spec] in
theorem get?_k8sBngWorkloads (workloads : Workloads Spec) (name : String) :
    (k8sBngWorkloads workloads).get? name = if isBngWorkload name then workloads.get? name else none :=
  Dict.get?_filter isBngWorkload workloads name

omit [DecidableEq Spec] in
theorem mem_k8sBngWorkloads :
    name ∈ (k8sBngWorkloads workloads).keys ↔ isBngWorkload name = true ∧ name ∈ workloads.keys := by
  rw [← Dict.hasKey_iff_mem_keys, ← Dict.hasKey_iff_mem_keys, Dict.hasKey, Dict.hasKey, get?_k8sBngWorkloads]
  by_cases h : isBngWorkload name
  · simp [h]
  · simp [h]

omit [DecidableEq Spec] in
theorem mem_deleteSet : name ∈ deleteSet specs k8s ↔ name ∈ k8s.keys ∧ name ∉ specs.keys := by
  rw [deleteSet, List.mem_filter, decide_eq_true_eq]

omit [DecidableEq Spec] in
theorem mem_createSet : name ∈ createSet specs k8s ↔ name ∈ specs.keys ∧ name ∉ k8s.keys := by
  rw [createSet, List.mem_filter, decide_eq_true_eq]

omit [DecidableEq Spec] in
theorem mem_updateSet : name ∈ updateSet specs k8s ↔ name ∈ specs.keys ∧ name ∈ k8s.keys := by
  rw [updateSet, List.mem_filter, decide_eq_true_eq]

omit [DecidableEq Spec] in
theorem get?_applyWlOp (workloads : Workloads Spec) (op : WlOp Spec) (name : String) :
    (applyWlOp workloads op).get? name = if op.name = name then op.value else workloads.get? name := by
  by_cases h : op.name = name
  · subst h
    rw [if_pos rfl]
    cases op with
    | delete name => exact Dict.get?_erase_self ..
    | update name spec => exact Dict.get?_put_self ..
    | create name spec => exact Dict.get?_put_self ..
  · rw [if_neg h]
    cases op with
    | delete _ => exact Dict.get?_erase_ne h _
    | update _ spec => exact Dict.get?_put_ne h _ _
    | create _ spec => exact Dict.get?_put_ne h _ _

omit [DecidableEq Spec] in
/-- What is left under a name, when all operations on it leave the same. -/
theorem get?_applyWlOps {v : Option (Option Spec)} (ops : List (WlOp Spec)) (workloads : Workloads Spec)
    (hall : ∀ op ∈ ops, op.name = name → op.value = v)
    (hex : (∃ op ∈ ops, op.name = name) ∨ workloads.get? name = v) :
    (ops.foldl applyWlOp workloads).get? name = v := by
  induction ops generalizing workloads with
  | nil => exact hex.resolve_left fun ⟨op, hop, _⟩ => List.not_mem_nil hop
  | cons op ops ih =>
      rw [List.foldl_cons]
      refine ih _ (fun op' hop' => hall op' (List.mem_cons_of_mem _ hop')) ?_
      rw [get?_applyWlOp]
      by_cases h : op.name = name
      · rw [if_pos h]
        exact Or.inr (hall op List.mem_cons_self h)
      · rw [if_neg h]
        refine hex.imp_left fun ⟨op', hop', hname⟩ => ?_
        rcases List.mem_cons.mp hop' with rfl | hop'
        · exact absurd hname h
        · exact ⟨op', hop', hname⟩

/-- **The operations of the three loops.** -/
theorem mem_wlOps (order : SetOrder) {op : WlOp Spec} : op ∈ wlOps order.order specs k8s ↔
    (∃ bng ∈ deleteSet specs k8s, op = .delete bng) ∨
    (∃ bng spec, specs.get? bng = some spec ∧ (∃ stored, k8s.get? bng = some stored ∧ some spec ≠ stored) ∧
      op = .update bng spec) ∨
    ∃ bng spec, specs.get? bng = some spec ∧ bng ∉ k8s.keys ∧ op = .create bng spec := by
  rw [wlOps, List.append_assoc, List.mem_append, List.mem_append, List.mem_map, List.mem_filterMap, List.mem_filterMap]
  refine or_congr ?_ (or_congr ?_ ?_)
  · exact exists_congr fun bng => and_congr (order.perm _).mem_iff eq_comm
  · refine exists_congr fun bng => ?_
    rw [(order.perm _).mem_iff, mem_updateSet, ← Dict.hasKey_iff_mem_keys, ← Dict.hasKey_iff_mem_keys, Dict.hasKey,
      Dict.hasKey, updateOp?]
    cases specs.get? bng with
    | none => simp
    | some spec =>
        cases k8s.get? bng with
        | none => simp
        | some stored => simp [eq_comm]
  · refine exists_congr fun bng => ?_
    rw [(order.perm _).mem_iff, mem_createSet, ← Dict.hasKey_iff_mem_keys (d := specs), Dict.hasKey, createOp?]
    cases specs.get? bng with
    | none => simp
    | some spec => simp [eq_comm]

/-- Only the BNG workloads are touched. -/
theorem isBngWorkload_of_mem_wlOps (hnamed : ∀ name ∈ specs.keys, ∃ id, name = workloadName id) (order : SetOrder)
    {op : WlOp Spec} (h : op ∈ wlOps order.order specs (k8sBngWorkloads workloads)) : isBngWorkload op.name = true := by
  have hspec : ∀ {bng spec}, specs.get? bng = some spec → isBngWorkload bng = true := fun {bng spec} hget => by
    obtain ⟨id, rfl⟩ := hnamed bng (List.mem_map.mpr ⟨_, Dict.mem_of_get?_eq_some hget, rfl⟩)
    exact isBngWorkload_workloadName id
  rcases (mem_wlOps order).mp h with ⟨bng, hbng, rfl⟩ | ⟨bng, spec, hget, -, rfl⟩ | ⟨bng, spec, hget, -, rfl⟩
  · exact (mem_k8sBngWorkloads.mp (mem_deleteSet.mp hbng).1).1
  · exact hspec hget
  · exact hspec hget

/-- **The workloads after a call** are the specs. -/
theorem get?_wlOps (hnamed : ∀ name ∈ specs.keys, ∃ id, name = workloadName id) (order : SetOrder)
    (workloads : Workloads Spec) (name : String) :
    ((wlOps order.order specs (k8sBngWorkloads workloads)).foldl applyWlOp workloads).get? name =
      if isBngWorkload name then (specs.get? name).map some else workloads.get? name := by
  by_cases hbng : isBngWorkload name
  · have hk8s : (k8sBngWorkloads workloads).get? name = workloads.get? name := by
      rw [get?_k8sBngWorkloads, if_pos hbng]
    rw [if_pos hbng]
    refine get?_applyWlOps _ _ (fun op hop hname => ?_) ?_
    · subst hname
      rcases (mem_wlOps order).mp hop with ⟨bng, hdel, rfl⟩ | ⟨bng, spec, hget, -, rfl⟩ | ⟨bng, spec, hget, -, rfl⟩
      · show none = (specs.get? bng).map some
        rw [Dict.get?_eq_none_iff.mpr (mem_deleteSet.mp hdel).2, Option.map_none]
      · show some (some spec) = (specs.get? bng).map some
        rw [hget, Option.map_some]
      · show some (some spec) = (specs.get? bng).map some
        rw [hget, Option.map_some]
    · cases hget : specs.get? name with
      | none =>
          by_cases hthere : name ∈ (k8sBngWorkloads workloads).keys
          · have hdel := mem_deleteSet.mpr ⟨hthere, Dict.get?_eq_none_iff.mp hget⟩
            exact Or.inl ⟨_, (mem_wlOps order).mpr (Or.inl ⟨name, hdel, rfl⟩), rfl⟩
          · rw [← hk8s]
            exact Or.inr (Dict.get?_eq_none_iff.mpr hthere)
      | some spec =>
          cases hstored : (k8sBngWorkloads workloads).get? name with
          | none =>
              have hnew := Dict.get?_eq_none_iff.mp hstored
              exact Or.inl ⟨_, (mem_wlOps order).mpr (Or.inr (Or.inr ⟨name, spec, hget, hnew, rfl⟩)), rfl⟩
          | some stored =>
              by_cases hne : some spec ≠ stored
              · refine Or.inl ⟨_, (mem_wlOps order).mpr (Or.inr (Or.inl ⟨name, spec, hget, ?_, rfl⟩)), rfl⟩
                exact ⟨stored, hstored, hne⟩
              · -- the spec that is stored is the one that is asked for
                rw [← hk8s, hstored, ← not_not.mp hne]
                exact Or.inr rfl
  · rw [if_neg hbng]
    refine get?_applyWlOps _ _ (fun op hop hname => ?_) (Or.inr rfl)
    subst hname
    exact absurd (isBngWorkload_of_mem_wlOps hnamed order hop) hbng

/-- When the workloads are the specs there is nothing to do. -/
theorem wlOps_settled (order : SetOrder)
    (h : ∀ name, isBngWorkload name = true → workloads.get? name = (specs.get? name).map some)
    (hnamed : ∀ name ∈ specs.keys, ∃ id, name = workloadName id) :
    wlOps order.order specs (k8sBngWorkloads workloads) = [] := by
  refine List.eq_nil_iff_forall_not_mem.mpr fun op hop => ?_
  have hbng := isBngWorkload_of_mem_wlOps hnamed order hop
  have hsame : (k8sBngWorkloads workloads).get? op.name = (specs.get? op.name).map some := by
    rw [get?_k8sBngWorkloads, if_pos hbng, h _ hbng]
  rcases (mem_wlOps order).mp hop with ⟨bng, hdel, rfl⟩ | ⟨bng, spec, hget, ⟨stored, hstored, hne⟩, rfl⟩ |
    ⟨bng, spec, hget, hnew, rfl⟩
  · obtain ⟨hthere, hgone⟩ := mem_deleteSet.mp hdel
    refine Dict.get?_eq_none_iff.mp (hsame.trans ?_) hthere
    show (specs.get? bng).map some = none
    rw [Dict.get?_eq_none_iff.mpr hgone, Option.map_none]
  · have hsame' : (k8sBngWorkloads workloads).get? bng = (specs.get? bng).map some := hsame
    rw [hstored, hget, Option.map_some, Option.some.injEq] at hsame'
    exact hne hsame'.symm
  · have hsame' : (k8sBngWorkloads workloads).get? bng = (specs.get? bng).map some := hsame
    rw [Dict.get?_eq_none_iff.mpr hnew, hget] at hsame'
    cases hsame'

/-! ## The groups -/

variable {limit : Nat} {deleted : Finset Nat} {existing : Dict Nat (Finset Nat)}

/-- What the first loop makes of an existing group: what is not deleted stays in it, and it is filled up to `limit` at
    most. -/
def Refills (limit : Nat) (deleted : Finset Nat) (old group : Nat × Finset Nat) : Prop :=
  group.1 = old.1 ∧ old.2 \ deleted ⊆ group.2 ∧ group.2.card ≤ max limit old.2.card

theorem refillPgs_each (existing : Dict Nat (Finset Nat)) (created : List Nat) :
    (∀ g ∈ (refillPgs limit deleted existing created).2.1, ∃ e ∈ existing, Refills limit deleted e g) ∧
    ∀ e ∈ existing, ∃ g ∈ (refillPgs limit deleted existing created).2.1, Refills limit deleted e g := by
  induction existing generalizing created with
  | nil => exact ⟨fun g hg => absurd hg List.not_mem_nil, fun e he => absurd he List.not_mem_nil⟩
  | cons e existing ih =>
      obtain ⟨pg, old⟩ := e
      rw [refillPgs, refill_eq]
      obtain ⟨hfrom, hto⟩ := ih (created.drop (limit - (old \ deleted).card))
      have hold := Finset.card_le_card (Finset.sdiff_subset (s := old) (t := deleted))
      have htake := (List.toFinset_card_le (created.take (limit - (old \ deleted).card))).trans
        (List.length_take_le _ _)
      have hcard := calc ((old \ deleted) ∪ (created.take (limit - (old \ deleted).card)).toFinset).card
          ≤ (old \ deleted).card + (created.take (limit - (old \ deleted).card)).toFinset.card :=
            Finset.card_union_le _ _
        _ ≤ max limit old.card := by omega
      have hfirst : Refills limit deleted (pg, old)
          (pg, (old \ deleted) ∪ (created.take (limit - (old \ deleted).card)).toFinset) :=
        ⟨rfl, Finset.subset_union_left, hcard⟩
      constructor
      · intro g hg
        rcases List.mem_cons.mp hg with rfl | hg
        · exact ⟨_, List.mem_cons_self, hfirst⟩
        · obtain ⟨e, he, hrefills⟩ := hfrom g hg
          exact ⟨e, List.mem_cons_of_mem _ he, hrefills⟩
      · intro e he
        rcases List.mem_cons.mp he with rfl | he
        · exact ⟨_, List.mem_cons_self, hfirst⟩
        · obtain ⟨g, hg, hrefills⟩ := hto e he
          exact ⟨g, List.mem_cons_of_mem _ hg, hrefills⟩

/-- Without workloads that are created or deleted the groups stay. -/
theorem refillPgs_same (h : ∀ e ∈ existing, e.2.Nonempty) : refillPgs limit ∅ existing [] = ([], existing, []) := by
  induction existing with
  | nil => rfl
  | cons e existing ih =>
      obtain ⟨pg, old⟩ := e
      have hne : old.card ≠ 0 := Finset.card_ne_zero.mpr (h _ List.mem_cons_self)
      have hrest := ih fun e he => h e (List.mem_cons_of_mem _ he)
      simp [refillPgs, refill_eq, hrest, groupOp, hne]

theorem applyBngPgs_same (h : ∀ e ∈ existing, e.2.Nonempty) : applyBngPgs limit existing (sortedSet ∅) ∅ = [] := by
  have hnil : (sortedSet ∅).elems = [] := Finset.sort_empty _
  simp only [applyBngPgs, hnil, refillPgs_same h]
  split <;> rfl

theorem nodup_keys_applyOps (ops : List PgOp) (h : existing.keys.Nodup) : (applyOps existing ops).keys.Nodup := by
  induction ops generalizing existing with
  | nil => exact h
  | cons op ops ih =>
      refine ih ?_
      cases op with
      | create pg wls => exact Dict.nodup_keys_put h pg wls
      | update pg wls => exact Dict.nodup_keys_put h pg wls
      | delete pg => exact h.sublist (List.filter_sublist.map Prod.fst)

/-- **The groups after a call**: the new ones and the refilled ones, without those that are empty. -/
theorem pgs_after (hlimit : 1 ≤ limit) (created : SortedSet) (hkeys : existing.keys.Nodup)
    (hdisjoint : existing.Pairwise fun a b => Disjoint a.2 b.2)
    (hcreated : ∀ e ∈ existing, ∀ w ∈ created.elems, w ∉ e.2) :
    ∃ groups : List (Nat × Finset Nat), ∃ pgs : Dict Nat (Finset Nat),
      ((∀ g ∈ pgs, ∃ e ∈ existing, Refills limit deleted e g) ∧ ∀ e ∈ existing, ∃ g ∈ pgs, Refills limit deleted e g) ∧
      (∀ g ∈ groups, g.2.card ≤ limit) ∧
      (groups ++ pgs).Pairwise (fun a b => Disjoint a.2 b.2) ∧
      (∀ w, (∃ g ∈ groups ++ pgs, w ∈ g.2) ↔ ((∃ e ∈ existing, w ∈ e.2) ∧ w ∉ deleted) ∨ w ∈ created.elems) ∧
      ∀ i s, (applyOps existing (applyBngPgs limit existing created deleted)).get? i = some s ↔
        (i, s) ∈ groups ++ pgs ∧ s.Nonempty := by
  have hn : created.elems.Nodup := created.sorted.imp fun h => Nat.ne_of_lt h
  have href := @refillPgs_refilled limit deleted existing created.elems hn hdisjoint hcreated
  have hpgs := @keys_refillPgs limit deleted existing created.elems
  have heach := @refillPgs_each limit deleted existing created.elems
  have hreads := @get?_applyOps_refillPgs limit deleted existing created.elems existing hkeys
    (fun e he => Dict.get?_eq_some_of_mem hkeys he)
  generalize hr : refillPgs limit deleted existing created.elems = r at href hpgs heach hreads
  obtain ⟨ops, pgs, rest⟩ := r
  obtain ⟨current, groups, happly, hgroups⟩ := applyBngPgs_eq hlimit hr hpgs (hn.sublist href.suffix.sublist)
  have hidx : (Dict.keys groups).Nodup := by
    rw [Dict.keys, List.nodup_iff_pairwise_ne, List.pairwise_map]
    exact hgroups.ordered.imp fun h => Nat.ne_of_lt h
  have hrest : ∀ w, (∃ g ∈ groups, w ∈ g.2) ↔ w ∈ rest := fun w => by simpa using hgroups.covers w
  refine ⟨groups, pgs, heach, fun g hg => (hgroups.bounds g hg).2.2.2, ?_, fun w => ?_, fun i s => ?_⟩
  · refine List.pairwise_append.mpr ⟨hgroups.disjoint, href.disjoint, fun g hg p hp => ?_⟩
    rw [Finset.disjoint_left]
    exact fun w hw => href.rest_disjoint p hp w ((hrest w).mp ⟨g, hg, hw⟩)
  · rw [← href.covers, ← hrest, or_comm]
    simp only [List.mem_append, or_and_right, exists_or]
  · rw [get?_after hkeys hpgs (fun g hg => (hgroups.bounds g hg).2.1) hidx fun i => ?_, List.mem_append, or_and_right]
    · exact or_congr_left (iff_self_and.mpr fun hg => (hgroups.bounds _ hg).2.2.1)
    · rw [happly, applyOps_append, get?_applyOps_creates groups _ hidx, hreads]

/-- The groups follow the workloads, from the ones that are `there` to the ones that are `wanted`. -/
theorem pgs_follow {there wanted : Nat → Prop} {created : Finset Nat} (hlimit : 1 ≤ limit)
    (hkeys : existing.keys.Nodup) (hdisjoint : existing.Pairwise fun a b => Disjoint a.2 b.2)
    (hcovers : ∀ w, (∃ e ∈ existing, w ∈ e.2) ↔ there w) (hfilled : ∀ e ∈ existing, e.2.card ≤ limit)
    (hcreated : ∀ w, w ∈ created ↔ wanted w ∧ ¬there w) (hdeleted : ∀ w, w ∈ deleted ↔ there w ∧ ¬wanted w)
    {after : Dict Nat (Finset Nat)}
    (happly : after = applyOps existing (applyBngPgs limit existing (sortedSet created) deleted)) :
    (∀ i j s t, i ≠ j → after.get? i = some s → after.get? j = some t → Disjoint s t) ∧
    (∀ w, (∃ i s, after.get? i = some s ∧ w ∈ s) ↔ wanted w) ∧
    (∀ i s, after.get? i = some s → s.Nonempty ∧ s.card ≤ limit) ∧
    ∀ i s w, existing.get? i = some s → w ∈ s → wanted w → ∃ t, after.get? i = some t ∧ w ∈ t := by
  have helems : ∀ w, w ∈ (sortedSet created).elems ↔ w ∈ created := fun w => Finset.mem_sort _
  obtain ⟨groups, pgs, ⟨hfrom, hto⟩, hwithin, hdis, hcov, hafter⟩ := @pgs_after limit deleted existing hlimit
    (sortedSet created) hkeys hdisjoint fun e he w hw hmem =>
      ((hcreated w).mp ((helems w).mp hw)).2 ((hcovers w).mp ⟨e, he, hmem⟩)
  rw [← happly] at hafter
  refine ⟨?_, fun w => ?_, fun i s hs => ?_, fun i s w hs hw hwanted => ?_⟩
  · intro i j s t hij hs ht
    have hsymm : Std.Symm fun a b : Nat × Finset Nat => Disjoint a.2 b.2 := ⟨fun _ _ hab => hab.symm⟩
    exact hdis.forall ((hafter i s).mp hs).1 ((hafter j t).mp ht).1 fun heq => hij (congrArg Prod.fst heq)
  · calc (∃ i s, after.get? i = some s ∧ w ∈ s)
        ↔ ∃ g ∈ groups ++ pgs, w ∈ g.2 := by
          refine ⟨fun ⟨i, s, hs, hw⟩ => ⟨_, ((hafter i s).mp hs).1, hw⟩, fun ⟨g, hg, hw⟩ => ?_⟩
          exact ⟨g.1, g.2, (hafter _ _).mpr ⟨hg, w, hw⟩, hw⟩
      _ ↔ (there w ∧ ¬(there w ∧ ¬wanted w)) ∨ wanted w ∧ ¬there w := by
          rw [hcov, hcovers, hdeleted, helems, hcreated]
      _ ↔ wanted w := by tauto
  · obtain ⟨hmem, hne⟩ := (hafter i s).mp hs
    refine ⟨hne, ?_⟩
    rcases List.mem_append.mp hmem with hg | hp
    · exact hwithin _ hg
    · obtain ⟨e, he, -, -, hcard⟩ := hfrom _ hp
      exact hcard.trans (max_le le_rfl (hfilled e he))
  · obtain ⟨g, hg, rfl, hsub, -⟩ := hto (i, s) (Dict.mem_of_get?_eq_some hs)
    have hmem : w ∈ g.2 := hsub (Finset.mem_sdiff.mpr ⟨hw, fun hdel => ((hdeleted w).mp hdel).2 hwanted⟩)
    exact ⟨g.2, (hafter _ _).mpr ⟨List.mem_append_right _ hg, w, hmem⟩, hmem⟩

/-! ## A call -/

section

variable {cluster : Cluster Spec}

omit [DecidableEq Spec] in
/-- With the names in order, a cluster that is settled is consistent. -/
theorem Settled.consistent (h : Settled limit specs cluster)
    (hnamed : ∀ name ∈ specs.keys, ∃ id, name = workloadName id) (hkeys : cluster.bngPgs.keys.Nodup) :
    Consistent limit cluster := by
  have hthere : ∀ name, isBngWorkload name = true → (name ∈ cluster.bngWorkloads.keys ↔ name ∈ specs.keys) := by
    intro name hbng
    rw [← Dict.hasKey_iff_mem_keys, ← Dict.hasKey_iff_mem_keys, Dict.hasKey, Dict.hasKey, h.workloads name hbng,
      Option.isSome_map]
  have hget : ∀ e ∈ cluster.bngPgs, cluster.bngPgs.get? e.1 = some e.2 := fun e he =>
    Dict.get?_eq_some_of_mem hkeys he
  have hne : cluster.bngPgs.Pairwise fun a b => a.1 ≠ b.1 := List.pairwise_map.mp hkeys
  exact {
    named := fun name hname hbng => hnamed name ((hthere name hbng).mp hname)
    nodup := hkeys
    disjoint := hne.imp_of_mem fun ha hb hab => h.disjoint _ _ _ _ hab (hget _ ha) (hget _ hb)
    covers := fun w => by
      rw [Dict.exists_mem_iff hkeys (P := fun s => w ∈ s), h.covers, hthere _ (isBngWorkload_workloadName w)]
    filled := fun e he => h.filled _ _ (hget e he) }

omit [DecidableEq Spec] in
theorem Fresh.consistent (h : Fresh cluster) : Consistent limit cluster where
  named := fun name hname hbng => absurd hbng (by rw [h.no_workload name hname]; decide)
  nodup := by rw [h.no_pg]; exact List.nodup_nil
  disjoint := by rw [h.no_pg]; exact List.Pairwise.nil
  covers := fun w => by
    rw [h.no_pg]
    refine ⟨fun ⟨e, he, _⟩ => absurd he List.not_mem_nil, fun hw => ?_⟩
    exact absurd (isBngWorkload_workloadName w) (by rw [h.no_workload _ hw]; decide)
  filled := fun e he => absurd (h.no_pg ▸ he) List.not_mem_nil

/-- **A call** from a consistent cluster. -/
theorem Consistent.step (hlimit : 1 ≤ limit) (h : Consistent limit cluster) (call : Call Spec) :
    ∃ after, call.applied limit cluster = some after ∧ Consistent limit after ∧
      Settled limit call.specs.specs after ∧ Stay call.specs.specs cluster after ∧
      ∀ name, isBngWorkload name = false → after.bngWorkloads.get? name = cluster.bngWorkloads.get? name := by
  obtain ⟨⟨specs, hspecs, hnamed⟩, order⟩ := call
  -- what the sets are in terms of the workloads that are there and the ones that are asked for
  have hk8s : ∀ w, workloadName w ∈ (k8sBngWorkloads cluster.bngWorkloads).keys ↔
      workloadName w ∈ cluster.bngWorkloads.keys := fun w =>
    mem_k8sBngWorkloads.trans (and_iff_right (isBngWorkload_workloadName w))
  have hcreate : ∀ name ∈ createSet specs (k8sBngWorkloads cluster.bngWorkloads), ∃ id, name = workloadName id :=
    fun name hname => hnamed name (mem_createSet.mp hname).1
  have hdelete : ∀ name ∈ deleteSet specs (k8sBngWorkloads cluster.bngWorkloads), ∃ id, name = workloadName id := by
    intro name hname
    obtain ⟨hbng, hthere⟩ := mem_k8sBngWorkloads.mp (mem_deleteSet.mp hname).1
    exact h.named name hthere hbng
  obtain ⟨created, hcreated, hmemc⟩ := numbers?_named hcreate
  obtain ⟨deleted, hdeleted, hmemd⟩ := numbers?_named hdelete
  simp only [mem_createSet, mem_deleteSet, hk8s] at hmemc hmemd
  have happly : applyBngWorkload limit order.order specs cluster =
      some (wlOps order.order specs (k8sBngWorkloads cluster.bngWorkloads),
        applyBngPgs limit cluster.bngPgs (sortedSet created) deleted) := by
    rw [applyBngWorkload, hcreated, hdeleted]
    rfl
  obtain ⟨hdisjoint, hcovers, hfilled, hstay⟩ := pgs_follow hlimit h.nodup h.disjoint h.covers
    (fun e he => (h.filled e he).2) hmemc hmemd rfl
  have hworkloads := get?_wlOps hnamed order cluster.bngWorkloads
  have hsettled : Settled limit specs (cluster.apply (wlOps order.order specs (k8sBngWorkloads cluster.bngWorkloads),
      applyBngPgs limit cluster.bngPgs (sortedSet created) deleted)) :=
    ⟨fun name hbng => (hworkloads name).trans (if_pos hbng), hdisjoint, hcovers, hfilled⟩
  refine ⟨_, congrArg (Option.map cluster.apply) happly, ?_, hsettled, hstay, fun name hbng => ?_⟩
  · exact hsettled.consistent hnamed (nodup_keys_applyOps _ h.nodup)
  · exact (hworkloads name).trans (if_neg (by rw [hbng]; decide))

/-- **The calls one after the other** keep the cluster consistent, and the workloads that are not BNGs as they were. -/
theorem Consistent.run (hlimit : 1 ≤ limit) (calls : List (Call Spec)) (h : Consistent limit cluster) :
    ∃ after, BngWorkload.run limit cluster calls = some after ∧ Consistent limit after ∧
      ∀ name, isBngWorkload name = false → after.bngWorkloads.get? name = cluster.bngWorkloads.get? name := by
  induction calls generalizing cluster with
  | nil => exact ⟨cluster, rfl, h, fun _ _ => rfl⟩
  | cons call calls ih =>
      obtain ⟨next, hstep, hnext, -, -, hother⟩ := h.step hlimit call
      obtain ⟨after, hrun, hafter, hothers⟩ := ih hnext
      refine ⟨after, ?_, hafter, fun name hbng => (hothers name hbng).trans (hother name hbng)⟩
      rw [BngWorkload.run, List.foldlM_cons, hstep]
      exact hrun

/-- A call with the specs that are there emits no operation. -/
theorem Settled.again (order : SetOrder) (h : Settled limit specs cluster) (hkeys : cluster.bngPgs.keys.Nodup)
    (hnamed : ∀ name ∈ specs.keys, ∃ id, name = workloadName id) :
    applyBngWorkload limit order.order specs cluster = some ([], []) := by
  have hthere : ∀ name, name ∈ (k8sBngWorkloads cluster.bngWorkloads).keys ↔
      isBngWorkload name = true ∧ name ∈ specs.keys := by
    intro name
    rw [mem_k8sBngWorkloads]
    refine and_congr_right fun hbng => ?_
    rw [← Dict.hasKey_iff_mem_keys, ← Dict.hasKey_iff_mem_keys, Dict.hasKey, Dict.hasKey, h.workloads name hbng,
      Option.isSome_map]
  have hcreate : createSet specs (k8sBngWorkloads cluster.bngWorkloads) = [] := by
    refine List.eq_nil_iff_forall_not_mem.mpr fun name hname => ?_
    obtain ⟨hmem, hnew⟩ := mem_createSet.mp hname
    obtain ⟨id, rfl⟩ := hnamed name hmem
    exact hnew ((hthere _).mpr ⟨isBngWorkload_workloadName id, hmem⟩)
  have hdelete : deleteSet specs (k8sBngWorkloads cluster.bngWorkloads) = [] := by
    refine List.eq_nil_iff_forall_not_mem.mpr fun name hname => ?_
    obtain ⟨hmem, hgone⟩ := mem_deleteSet.mp hname
    exact hgone ((hthere _).mp hmem).2
  have hfilled : ∀ e ∈ cluster.bngPgs, e.2.Nonempty := fun e he =>
    (h.filled _ _ (Dict.get?_eq_some_of_mem hkeys he)).1
  rw [applyBngWorkload, hcreate, hdelete, wlOps_settled order h.workloads hnamed]
  exact congrArg (fun ops => some (([] : List (WlOp Spec)), ops)) (applyBngPgs_same hfilled)

end

/-! ## Main result -/

/-- **The BNGs settle**: after any calls on a fresh cluster, a call leaves the workloads that it asks for, in groups
    that are a partition of them; a workload that was there stays in its group, nothing else is touched, and the same
    call again does nothing. -/
theorem bngs_settle (hlimit : 1 ≤ limit) {cluster : Cluster Spec} (hfresh : Fresh cluster)
    (calls : List (Call Spec)) (call : Call Spec) :
    ∃ before after, run limit cluster calls = some before ∧ call.applied limit before = some after ∧
      Settled limit call.specs.specs after ∧ Stay call.specs.specs before after ∧
      (∀ name, isBngWorkload name = false → after.bngWorkloads.get? name = cluster.bngWorkloads.get? name) ∧
      ∀ order : SetOrder, applyBngWorkload limit order.order call.specs.specs after = some ([], []) := by
  have hstart : Consistent limit cluster := hfresh.consistent
  obtain ⟨before, hrun, hbefore, hothers⟩ := hstart.run hlimit calls
  obtain ⟨after, hstep, hafter, hsettled, hstay, hother⟩ := hbefore.step hlimit call
  exact ⟨before, after, hrun, hstep, hsettled, hstay, fun name hbng => (hother name hbng).trans (hothers name hbng),
    fun order => hsettled.again order hafter.nodup call.specs.named⟩

/-- Three BNGs in groups of two, of which the second goes and a fourth comes. -/
theorem bngs_settle_sample :
    ∃ before after, run 2 ⟨[("cable-1", some "x")], []⟩
        [⟨.ofIds [(1, "a"), (2, "b"), (3, "c")] (by decide), ⟨id, fun _ => .rfl⟩⟩] = some before ∧
      Call.applied 2 before ⟨.ofIds [(4, "d"), (3, "c"), (1, "e")] (by decide), ⟨List.reverse, List.reverse_perm⟩⟩ =
        some after ∧
      Settled 2 (BngSpecs.ofIds [(4, "d"), (3, "c"), (1, "e")] (by decide)).specs after ∧
      Stay (BngSpecs.ofIds [(4, "d"), (3, "c"), (1, "e")] (by decide)).specs before after ∧
      (∀ name, isBngWorkload name = false →
        after.bngWorkloads.get? name = Dict.get? [("cable-1", some "x")] name) ∧
      ∀ order : SetOrder, applyBngWorkload 2 order.order
        (BngSpecs.ofIds [(4, "d"), (3, "c"), (1, "e")] (by decide)).specs after = some ([], []) :=
  bngs_settle (by decide) ⟨by decide, rfl⟩ _ _

end Workbench.BngWorkload
