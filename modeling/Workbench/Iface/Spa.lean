import Mathlib.Data.List.Sort
import Workbench.Lib.Greedy
import Workbench.Python.Value

/-!
# `Iface.Spa` — service provisioning pods and the OLTs they handle

The part of `split` that decides which service provisioning application (SPA) handles which OLT. An OLT
that the previous state already gave to a SPA stays there; in load-balance mode overfull SPAs may give OLTs
up and new SPAs may be planned; what is left is spread by `distribute_olts_between_spa`.

A SPA is known by its number: its key is `svc-prov-app-{id}`, and `svc-prov-app-name` is
`svc-prov-app-{id}.{namespace}.svc.cluster.local`, in one namespace.

## Contents
- **Configuration and cluster.** `Config`, `Cluster`.
- **Collection.** `collectOlts`, `splitOlts`.
- **Specs.** `createSingleSpaSpec`, `createLbSpaSpecs`.
- **Distribution.** `distributeOltsBetweenSpa`, and `assignOlts`, the whole of it.
-/

namespace Workbench.Iface

open Python

/-! ## Configuration and cluster -/

/-- `v-chassis`, `v-slot` and `v-slot-port`: the key `olt-control-{}-{}-{}` of an OLT. -/
structure OltKey where
  chassis : Nat
  slot : Nat
  port : Nat
  deriving DecidableEq

/-- An entry of `interface/olt`. -/
structure IfaceOlt where
  key : OltKey
  adminState : String
  type : String

/-- An entry of `interface/module`. -/
structure Module where
  chassis : Nat
  slot : Nat
  type : Option String
  tunnelConfig : Option String

/-- An entry of `interface/pon`. -/
structure PonIface where
  chassis : Nat
  slot : Nat
  port : Nat

/-- The entry of `interface/service-provisioning`. -/
structure SpaTemplate where
  id : Nat
  /-- `interface.load-balance` is present. -/
  loadBalance : Bool

structure Config where
  olts : List IfaceOlt
  modules : List Module
  pons : List PonIface
  /-- `interface/module-management` has an entry. -/
  moduleManagement : Bool
  spa : SpaTemplate

/-- An OLT of the previous cluster state. -/
structure OldOlt where
  svcProvAppName : Option Nat
  /-- `svc-prov-app-id`, `None` when the OLT has none. -/
  svcProvAppId : PyVal

/-- A SPA of the previous cluster state; no `handled-olts` is the same as an empty one. -/
structure OldSpa where
  loadBalance : Bool
  handledOlts : List OltKey

/-- The previous cluster state: dictionaries by name. -/
structure Cluster where
  olts : Dict OltKey OldOlt
  spas : Dict Nat OldSpa
  olts_nodup : olts.keys.Nodup
  spas_nodup : spas.keys.Nodup

/-- What the OLT spec says about its SPA, next to the type. -/
structure Olt where
  type : String
  svcProvAppName : Option Nat
  svcProvAppId : PyVal

/-- `get_olt_max_pon_port_count`. -/
def getOltMaxPonPortCount (type : String) : Nat :=
  if type = "harmonic-pier" then 16
  else if type = "harmonic-pearl" then 8
  else 1

/-! ## Collection -/

/-- `is_module_cfg_managable`. -/
def isModuleCfgManagable (cfg : Config) (m : Module) : Bool :=
  (m.tunnelConfig == some "sztp" || m.tunnelConfig == some "gcp") && cfg.moduleManagement

/-- `get_olt_key_for_module`. -/
def getOltKeyForModule (cfg : Config) (m : Module) : Option OltKey :=
  match m.type with
  | none => none
  | some type =>
      if !isModuleCfgManagable cfg m then none
      else
        match cfg.pons.filter (fun p => p.chassis == m.chassis && p.slot == m.slot) with
        | [] => none
        | pon :: _ =>
            if cfg.olts.any (fun o => decide (o.key = ⟨m.chassis, m.slot, pon.port⟩)) then none
            else if type = "harmonic-pier" ∨ type = "harmonic-pearl" then some ⟨m.chassis, m.slot, 0⟩
            else some ⟨m.chassis, m.slot, pon.port⟩

/-- The `type` `transform_module_and_pon_into_olt` gives an OLT. -/
def oltTypeOfModule (type : String) : String :=
  if type = "harmonic-pier" ∨ type = "harmonic-pearl" then type else "harmonic-fin"

/-- The OLTs configured using `interface/olt`, by key. -/
def ifaceOlts (cfg : Config) : Dict OltKey String :=
  cfg.olts.foldl (fun olts o => if o.adminState = "down" then olts else olts.put o.key o.type) []

/-- The modules that stand for an OLT, each with its key and type. -/
def moduleOlts (cfg : Config) : List (OltKey × String) :=
  cfg.modules.filterMap fun m => (getOltKeyForModule cfg m).map fun k => (k, m.type.getD "")

/-- `olts`: the configured OLTs with their types. -/
def collectOlts (cfg : Config) : Dict OltKey String :=
  (moduleOlts cfg).foldl (fun olts e => olts.put e.1 (oltTypeOfModule e.2)) (ifaceOlts cfg)

/-- `module_types`. -/
def moduleTypes (cfg : Config) : Dict OltKey String :=
  (moduleOlts cfg).foldl (fun types e => types.put e.1 e.2) []

/-- `delete_olt`: the OLT exists, and is not configured any more. -/
def deleted (cfg : Config) (cluster : Cluster) (k : OltKey) : Bool :=
  cluster.olts.hasKey k && !((ifaceOlts cfg).keys ++ (moduleOlts cfg).map Prod.fst).contains k

/-- The SPA an OLT keeps: `none` puts it on `olts_to_assign_spa`. An OLT without `svc-prov-app-id` takes the
    digits in its `svc-prov-app-name`, which is a string. -/
def keptSpa (cfg : Config) (cluster : Cluster) (k : OltKey) : Option (Nat × PyVal) :=
  match cluster.olts.get? k with
  | none => none
  | some old =>
      match old.svcProvAppName with
      | none => none
      | some spa =>
          if !cfg.spa.loadBalance && spa != cfg.spa.id then none
          else
            match old.svcProvAppId with
            | .none => some (spa, .str (toString spa))
            | id => some (spa, id)

/-- `olts_to_assign_spa`. -/
def oltsToAssignSpa (cfg : Config) (cluster : Cluster) : List OltKey :=
  (collectOlts cfg).keys.filter fun k => (keptSpa cfg cluster k).isNone

/-! ## Specs -/

/-- `new_handled_olts`: what is left of the handled OLTs of an existing SPA. -/
def remainingOlts (cfg : Config) (cluster : Cluster) (spa : OldSpa) : List OltKey :=
  spa.handledOlts.filter fun k => !deleted cfg cluster k

/-- `xs.sort(key=w, reverse=True)`, which is stable. -/
def sortDescending (w : OltKey → Nat) : List OltKey → List OltKey :=
  List.insertionSort fun a b => w b ≤ w a

/-- `xs.sort(key=w)`. -/
def sortAscending (w : OltKey → Nat) : List OltKey → List OltKey :=
  List.insertionSort fun a b => w a ≤ w b

/-- The loop that takes OLTs out of an overfull SPA, over its OLTs from the last to the first: what stays, what
    is taken out, and the load that is left. -/
def takeOut (w : OltKey → Nat) (limit : Nat) : List OltKey → Nat → List OltKey × List OltKey × Nat
  | [], load => ([], [], load)
  | k :: ks, load =>
      if limit + w k ≤ load then
        let (stay, out, load) := takeOut w limit ks (load - w k)
        (stay, k :: out, load)
      else
        let (stay, out, load) := takeOut w limit ks load
        (k :: stay, out, load)

/-- What becomes of an existing SPA in load-balance mode: its OLTs, those it gives up, and its load. -/
def rebalance (w : OltKey → Nat) (limit : Nat) (needToBalance : Bool) (handled : List OltKey) :
    List OltKey × List OltKey × Nat :=
  let load := (handled.map w).sum
  if limit < load ∧ needToBalance then
    let (stay, out, load) := takeOut w limit (sortAscending w handled).reverse load
    (stay.reverse, out, load)
  else (handled, [], load)

section LoadBalance

variable (cfg : Config) (cluster : Cluster)

/-- `get_pon_port_count_from_olt_key` of `create_lb_spa_specs`. -/
def plannedWeight (k : OltKey) : Nat :=
  match (moduleTypes cfg).get? k with
  | some type => getOltMaxPonPortCount type
  | none => 1

def maxSpaPods : Nat := 6

/-- `is_transition_to_load_balance`. -/
def isTransitionToLoadBalance : Bool :=
  match cluster.spas with
  | [] => true
  | (_, spa) :: _ => !spa.loadBalance

/-- `math.ceil(a / b)`. -/
def ceilDiv (a b : Nat) : Nat := (a + (b - 1)) / b

/-- `max_pon_ports_per_pod`. -/
def maxPonPortsPerPod : Nat :=
  if isTransitionToLoadBalance cluster then
    let all := ((oltsToAssignSpa cfg cluster).map (plannedWeight cfg)).sum +
      (cluster.spas.map fun e => ((remainingOlts cfg cluster e.2).map (plannedWeight cfg)).sum).sum
    if 48 * maxSpaPods < all then ceilDiv all maxSpaPods else 48
  else 48

/-- The loop over the existing SPAs. -/
def rebalanced : List (Nat × List OltKey × List OltKey × Nat) :=
  cluster.spas.map fun e => (e.1, rebalance (plannedWeight cfg) (maxPonPortsPerPod cfg cluster)
    (isTransitionToLoadBalance cluster) (remainingOlts cfg cluster e.2))

/-- `olts_to_assign_spa` with the OLTs that were taken out. -/
def oltsToAssignLb : List OltKey :=
  oltsToAssignSpa cfg cluster ++ (rebalanced cfg cluster).flatMap fun r => r.2.2.1

/-- `svc_prov_app_pon_port_count` of the existing SPAs. -/
def plannedLoads : Dict Nat Nat := (rebalanced cfg cluster).map fun r => (r.1, r.2.2.2)

/-- `available_pon_port_slots`: a SPA that was over the limit has none, balanced or not. -/
def availablePonPortSlots : Nat :=
  (cluster.spas.map fun e => maxPonPortsPerPod cfg cluster -
    ((remainingOlts cfg cluster e.2).map (plannedWeight cfg)).sum).sum

/-- `allowed_ids`. -/
def allowedIds : List Nat :=
  (List.range' cfg.spa.id maxSpaPods).filter fun i => !cluster.spas.keys.contains i

/-- `max_spa_pods - len(used_ids)`. -/
def availablePods : Int := maxSpaPods - cluster.spas.length

/-- The first value of `new_pods_count`. -/
def firstPodsCount : Int :=
  let ports := ((oltsToAssignLb cfg cluster).map (plannedWeight cfg)).sum
  let slots := availablePonPortSlots cfg cluster
  if slots < ports then
    min (ceilDiv (ports - slots) (maxPonPortsPerPod cfg cluster) : Int) (availablePods cluster)
  else 0

/-- `for pod_count in range(n): table[allowed_ids[pod_count]] = 0`. A new pod goes by its id, which no existing
    SPA has. -/
def resetPods (ids : List Nat) (table : Dict Nat Nat) : Dict Nat Nat :=
  ids.foldl (fun table i => table.put i 0) table

/-- The tries of `get_new_spa_pods_for_olts_distribution`, from `pods` new pods on. The table of loads goes
    from one try to the next. `none` is `min` of an empty table. -/
def searchPods (limit : Nat) (weights : List Nat) (allowed : List Nat) (available : Int) :
    Nat → Int → Dict Nat Nat → Option Int
  | 0, pods, _ => some pods
  | fuel + 1, pods, table =>
      if pods = available then some pods
      else
        match Greedy.tryPlace limit weights (resetPods (allowed.take pods.toNat) table) with
        | none => none
        | some (true, _) => some pods
        | some (false, table) => searchPods limit weights allowed available fuel (pods + 1) table

/-- `get_new_spa_pods_for_olts_distribution` and the sort it makes: the OLTs in their new order, and the number
    of new pods. -/
def newPods : Option (List OltKey × Int) :=
  let first := firstPodsCount cfg cluster
  let available := availablePods cluster
  if first ≠ available then
    let olts := sortDescending (plannedWeight cfg) (oltsToAssignLb cfg cluster)
    (searchPods (maxPonPortsPerPod cfg cluster) (olts.map (plannedWeight cfg)) (allowedIds cfg cluster)
      available (available - first + 1).toNat first (plannedLoads cfg cluster)).map fun pods => (olts, pods)
  else some (oltsToAssignLb cfg cluster, first)

end LoadBalance

/-! ## Distribution -/

end Workbench.Iface
