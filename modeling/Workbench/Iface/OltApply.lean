import Workbench.Iface.OltPools
import Workbench.Lib.Requests

/-!
# `Iface.OltApply` — applying the `olt-control`s

The passes of `apply_olt_control` after the set-up: the reclaim pass gives the OLTs that are updated the values they
had, the assign pass draws what is still missing, and the last pass writes the specs to k8s. An exception in the
assign pass puts the OLT into `failed_olt_specs`; an exception in the reclaim pass ends the function.

## Contents
- **Tunnels.** `markTunnelDynamic`, `updateTunnelFromGlobalVxlanCfg`.
- **Reclaim pass.** `reclaimTunnel`, `reclaimPon`, `reclaimOlt`, `reclaimPass`.
- **Assign pass.** `assignVniFromPool` and its siblings, `assignPon`, `assignOlt`, `assignPass`.
- **The whole.** `Orders`, in which the sets are iterated, `Result`, and `applyOltControl`.
- **Slots.** `readOlt`, what the spec has where, and `values`, all of it.
-/

namespace Workbench.Olt

open Iface (OltKey)

/-- Something `apply_olt_control` does with the flags of the pools. -/
abbrev Step (α : Type) := Attempt Error Value α

/-! ## Tunnels -/

/-- `tunnel['vxlan'][..] = ..`. -/
def setVxlan (t : Option Tunnel) (set : Vxlan → Vxlan) : Except Error (Option Tunnel) :=
  match t with
  | none => .error .type
  | some t =>
      match t.vxlan with
      | none => .error (.key "vxlan")
      | some v => .ok (some { t with vxlan := some (set v) })

/-- `mark_tunnel_dynamic`. -/
def markTunnelDynamic (t : Option Tunnel) : Except Error (Option Tunnel) :=
  setVxlan t fun v => { v with dynamicConfigured := true }

/-- `gw, prefix_len = text.split('/')`. -/
def CreGw.split (network : CreGw) : Except Error String :=
  if network.prefixLen.isSome then .ok network.gw
  else .error (.value "not enough values to unpack (expected 2, got 1)")

/-- The gateway of a global configuration, by `is_global_vxlan_tunnel_v4` and `is_global_vxlan_tunnel_v6`. -/
def globalGateway (cfg : GlobalVxlanCfg) : Except Error String :=
  match cfg.creGwIpAddress, cfg.ipAddressPool.bind IpAddressPool.startIpv4Addr with
  | some network, some _ => network.split
  | _, _ =>
      match cfg.creGwIpv6Address, cfg.ipAddressPool.bind IpAddressPool.startIpv6Addr with
      | some network, some _ => network.split
      | _, _ => .error (.value
          "Either Ipv4 or Ipv6 global vxlan configuration should be set for empty managable vxlan tunnels")

/-- `global_vxlan_cfg['dsi-vlan-id']`. -/
def globalDsiVlan (cfg : GlobalVxlanCfg) : Except Error Nat :=
  match cfg.dsiVlanId with
  | none => .error (.key "dsi-vlan-id")
  | some dsiVlan => .ok dsiVlan

/-- `update_tunnel_from_global_vxlan_cfg`. -/
def updateTunnelFromGlobalVxlanCfg (t : Option Tunnel) (cfg : GlobalVxlanCfg) : Except Error (Option Tunnel) :=
  if !isGlobalVxlanTunnelConfigured cfg then
    .error (.value "Global vxlan config for managable empty tunnel does not set")
  else do
    let t ← markTunnelDynamic t
    let dsiVlan ← globalDsiVlan cfg
    let gw ← globalGateway cfg
    setVxlan t fun v => { v with dsiVlan := some dsiVlan, peerIp := some "dynamic", gateway := some gw }

/-- The update of `tunnel-mgmt`, which needs the global configuration. -/
def updateMgmt (inp : Input) (t : Option Tunnel) : Except Error (Option Tunnel) :=
  match inp.oltControl with
  | none => .error (.key "tunnel-mgmt")
  | some cfg => updateTunnelFromGlobalVxlanCfg t cfg

/-- The update of `tunnel-data`, if there is a global configuration. -/
def updateData (inp : Input) (t : Option Tunnel) : Except Error (Option Tunnel) :=
  match inp.bngData with
  | none => .ok t
  | some cfg => updateTunnelFromGlobalVxlanCfg t cfg

/-- `mark_tunnel_dynamic` for a PON whose `tunnel-data` is not null. -/
def markPon (pon : Pon) : Except Error Pon :=
  if pon.tunnelData.isNone then .ok pon
  else do
    let t ← markTunnelDynamic pon.tunnelData
    return { pon with tunnelData := t }

/-- `module_vni_pools[module_key]`. -/
def Pools.vniPool (P : Pools) (m : ModuleKey) : Except Error (List Nat) :=
  match P.vnis m with
  | none => .error (.key "module_vni_pools")
  | some pool => .ok pool

/-- `module_stag_pools[module_key]`. -/
def Pools.stagPool (P : Pools) (m : ModuleKey) : Except Error (List Nat) :=
  match P.stags m with
  | none => .error (.key "module_stag_pools")
  | some pool => .ok pool

/-! ## Reclaim pass -/

def reclaimVni (P : Pools) (m : ModuleKey) (vni : Nat) (t : Option Tunnel) : Step (Option Tunnel) := do
  let _ ← Attempt.lift (P.vniPool m)
  Attempt.reclaim (P.has (.vni m vni)) (.vni m vni) (setVxlan t fun v => { v with vni := some vni }) t

def reclaimSrcIp (P : Pools) (value : SrcIp → Value) (ip : SrcIp) (t : Option Tunnel) : Step (Option Tunnel) :=
  Attempt.reclaim (P.has (value ip)) (value ip) (setVxlan t fun v => { v with srcIp := some ip }) t

/-- The values of the tunnel in k8s, for a tunnel that is not configured; `value` says whose `src-ip` it is. -/
def reclaimTunnel (P : Pools) (m : ModuleKey) (value : SrcIp → Value) (k8s t : Option Tunnel) :
    Step (Option Tunnel) :=
  match configuredVni k8s, configuredSrcIp k8s with
  | some vni, some ip => do
      let t ← reclaimVni P m vni t
      reclaimSrcIp P value ip t
  | _, _ => pure t

/-- A tunnel that is not configured: the values it had, and the rest from the global configuration. -/
def reclaimOpenTunnel (P : Pools) (m : ModuleKey) (value : SrcIp → Value)
    (update : Option Tunnel → Except Error (Option Tunnel)) (k8s t : Option Tunnel) : Step (Option Tunnel) :=
  if isVxlanTunnelConfigured t then pure t
  else do
    let t ← reclaimTunnel P m value k8s t
    Attempt.lift (update t)

def reclaimMgmt (inp : Input) (P : Pools) (m : ModuleKey) (k8s t : Option Tunnel) : Step (Option Tunnel) :=
  reclaimOpenTunnel P m .mgmtIp (updateMgmt inp) k8s t

def reclaimData (inp : Input) (P : Pools) (m : ModuleKey) (k8s t : Option Tunnel) : Step (Option Tunnel) :=
  reclaimOpenTunnel P m .dataIp (updateData inp) k8s t

def reclaimPonTunnel (inp : Input) (P : Pools) (m : ModuleKey) (k8s pon : Pon) : Step Pon := do
  let t ← reclaimData inp P m k8s.tunnelData pon.tunnelData
  return { pon with tunnelData := t }

def reclaimStag (P : Pools) (m : ModuleKey) (k8s pon : Pon) : Step Pon :=
  match k8s.sTag with
  | none => pure pon
  | some n => do
      let _ ← Attempt.lift (P.stagPool m)
      Attempt.reclaim (P.has (.stag m n)) (.stag m n) (.ok { pon with sTag := some n }) pon

def reclaimPonStag (P : Pools) (m : ModuleKey) (k8s pon : Pon) : Step Pon :=
  if pon.sTag.isSome then pure pon
  else do
    let pon ← reclaimStag P m k8s pon
    Attempt.lift (markPon pon)

/-- One turn of the loop over the PONs. A PON that is new has nothing to reclaim. -/
def reclaimPon (inp : Input) (P : Pools) (m : ModuleKey) (k8s : OltSpec) (pon : Pon) : Step Pon :=
  match ponSpecFromOlt k8s pon with
  | none => pure pon
  | some k8sPon => do
      let pon ← reclaimPonTunnel inp P m k8sPon pon
      reclaimPonStag P m k8sPon pon

def reclaimOltMgmt (inp : Input) (P : Pools) (k8s spec : OltSpec) : Step OltSpec := do
  let t ← reclaimMgmt inp P spec.moduleKey k8s.tunnelMgmt spec.tunnelMgmt
  return { spec with tunnelMgmt := t }

def reclaimOltPons (inp : Input) (P : Pools) (k8s spec : OltSpec) : Step OltSpec := do
  let pons ← spec.pons.mapM (reclaimPon inp P spec.moduleKey k8s)
  return { spec with pons := pons }

def reclaimOlt (inp : Input) (P : Pools) (k8s spec : OltSpec) : Step OltSpec := do
  let spec ← reclaimOltMgmt inp P k8s spec
  reclaimOltPons inp P k8s spec

/-! ## Assign pass -/

/-- `assign_vni_from_pool`. -/
def assignVniFromPool (P : Pools) (m : ModuleKey) (t : Option Tunnel) : Step (Option Tunnel) := do
  let pool ← Attempt.lift (P.vniPool m)
  Attempt.draw (.vni m) pool (fun n => setVxlan t fun v => { v with vni := some n })
    (.value "Unable to find unused VNI in the VNI pool")

/-- `assign_vxlan_tunnel_src_ip_from_pool`. -/
def assignVxlanTunnelSrcIpFromPool (value : SrcIp → Value) (pool : List SrcIp) (t : Option Tunnel) :
    Step (Option Tunnel) :=
  Attempt.draw value pool (fun ip => setVxlan t fun v => { v with srcIp := some ip })
    (.value "Unable to find unused vxlan tunnel src IP in the pool")

/-- `assign_stag_from_pool`. -/
def assignStagFromPool (P : Pools) (m : ModuleKey) (pon : Pon) : Step Pon := do
  let pool ← Attempt.lift (P.stagPool m)
  Attempt.draw (.stag m) pool (fun n => .ok { pon with sTag := some n })
    (.value "Unable to find unused stag in the stag pool")

def assignMissingVni (P : Pools) (m : ModuleKey) (t : Option Tunnel) : Step (Option Tunnel) :=
  if (vniOf t).isNone then assignVniFromPool P m t else pure t

def assignMissingSrcIp (value : SrcIp → Value) (pool : List SrcIp) (t : Option Tunnel) : Step (Option Tunnel) :=
  if (srcIpOf t).isNone then assignVxlanTunnelSrcIpFromPool value pool t else pure t

/-- What a tunnel that is not configured gets. -/
def assignTunnel (P : Pools) (m : ModuleKey) (value : SrcIp → Value) (pool : List SrcIp) (t : Option Tunnel) :
    Step (Option Tunnel) :=
  if t.isNone then Attempt.lift (.error .type)
  else do
    let t ← assignMissingVni P m t
    assignMissingSrcIp value pool t

/-- A tunnel that is not configured: the values it lacks, and the rest from the global configuration. -/
def assignOpenTunnel (P : Pools) (m : ModuleKey) (value : SrcIp → Value) (pool : List SrcIp)
    (update : Option Tunnel → Except Error (Option Tunnel)) (t : Option Tunnel) : Step (Option Tunnel) :=
  if isVxlanTunnelConfigured t then pure t
  else do
    let t ← assignTunnel P m value pool t
    Attempt.lift (update t)

def assignMgmt (inp : Input) (P : Pools) (m : ModuleKey) (t : Option Tunnel) : Step (Option Tunnel) :=
  assignOpenTunnel P m .mgmtIp P.mgmtIps (updateMgmt inp) t

/-- Here a null is left as it is. -/
def assignData (inp : Input) (P : Pools) (m : ModuleKey) (t : Option Tunnel) : Step (Option Tunnel) :=
  if t.isNone then pure t else assignOpenTunnel P m .dataIp P.dataIps (updateData inp) t

def assignPonTunnel (inp : Input) (P : Pools) (m : ModuleKey) (pon : Pon) : Step Pon := do
  let t ← assignData inp P m pon.tunnelData
  return { pon with tunnelData := t }

def assignPonStag (P : Pools) (m : ModuleKey) (pon : Pon) : Step Pon :=
  if pon.sTag.isNone && pon.tunnelData.isSome then do
    let pon ← assignStagFromPool P m pon
    Attempt.lift (markPon pon)
  else pure pon

def assignPon (inp : Input) (P : Pools) (m : ModuleKey) (pon : Pon) : Step Pon := do
  let pon ← assignPonTunnel inp P m pon
  assignPonStag P m pon

/-- The body of the `try` block. -/
def assignOlt (inp : Input) (P : Pools) (spec : OltSpec) : Step OltSpec :=
  if isOltSpecManagable spec inp.moduleMgmt then do
    let t ← assignMgmt inp P spec.moduleKey spec.tunnelMgmt
    let pons ← spec.pons.mapM (assignPon inp P spec.moduleKey)
    return { spec with tunnelMgmt := t, pons := pons }
  else pure spec

/-! ## The whole -/

/-- An OLT that is updated: its name, its spec in k8s, and its new spec. -/
structure Update where
  name : OltKey
  stored : OltSpec
  spec : OltSpec

/-- `new & old`. -/
def updates (inp : Input) : List Update :=
  inp.specs.filterMap fun e => (inp.stored.get? e.1).map fun stored => ⟨e.1, stored, e.2⟩

/-- `new - old`. -/
def creates (inp : Input) : List OltKey := inp.specs.keys.filter fun name => !inp.stored.hasKey name

/-- The orders in which the sets `update`, `create` and `update.union(create)` are iterated. -/
structure Orders (inp : Input) where
  update : List Update
  create : List OltKey
  all : List (OltKey × OltSpec)
  update_perm : update.Perm (updates inp)
  create_perm : create.Perm (creates inp)
  all_perm : all.Perm inp.specs

def reclaimUpdate (inp : Input) (P : Pools) (e : Update) : Step OltSpec :=
  if isOltSpecManagable e.stored inp.moduleMgmt then reclaimOlt inp P e.stored e.spec else pure e.spec

/-- The reclaim pass: the specs of the OLTs that are updated, afterwards. -/
def reclaimPass (inp : Input) (P : Pools) (order : List Update) : Step (Dict OltKey OltSpec) := do
  let specs ← order.mapM (reclaimUpdate inp P)
  return (order.map Update.name).zip specs

/-- One turn of the assign pass; `none` is an OLT in `failed_olt_specs`. -/
def assignEntry (inp : Input) (P : Pools) (reclaimed : Dict OltKey OltSpec) (e : OltKey × OltSpec) :
    Step (OltKey × Option OltSpec) := do
  let spec ← Attempt.attempt (assignOlt inp P ((reclaimed.get? e.1).getD e.2))
  return (e.1, spec)

/-- What is done in k8s. -/
inductive Op where
  | delete (name : OltKey)
  | update (name : OltKey) (spec : OltSpec)
  | create (name : OltKey) (spec : OltSpec)
  deriving DecidableEq

def Op.name : Op → OltKey
  | .delete name => name
  | .update name _ => name
  | .create name _ => name

/-- The OLTs that are gone are deleted, but not those that are protected. -/
def deletions (inp : Input) : List Op :=
  inp.stored.filterMap fun e =>
    if inp.specs.hasKey e.1 || e.2.protectedFromDeletion == some true then none else some (.delete e.1)

/-- The last loop over `update`. -/
def updateOp (specs : Dict OltKey (Option OltSpec)) (e : Update) : Option Op :=
  match specs.get? e.name with
  | some (some spec) => if spec = e.stored then none else some (.update e.name spec)
  | _ => some (.delete e.name)

/-- The last loop over `create`. -/
def createOp (specs : Dict OltKey (Option OltSpec)) (name : OltKey) : Option Op :=
  match specs.get? name with
  | some (some spec) => some (.create name spec)
  | _ => none

/-- The specs in the end, and the calls of k8s. -/
structure Result where
  specs : Dict OltKey (Option OltSpec)
  ops : List Op

/-- `failed_olt_specs`. -/
def Result.failed (r : Result) : List OltKey :=
  r.specs.filterMap fun e => if e.2.isNone then some e.1 else none

/-- The specs of the OLTs that did not fail. -/
def Result.applied (r : Result) : List OltSpec := r.specs.filterMap Prod.snd

/-- The passes after the set-up. -/
def applyOlts (inp : Input) (P : Pools) (orders : Orders inp) : Step Result := do
  let reclaimed ← reclaimPass inp P orders.update
  let specs ← orders.all.mapM (assignEntry inp P reclaimed)
  return {
    specs := specs
    ops := deletions inp ++ orders.update.filterMap (updateOp specs) ++ orders.create.filterMap (createOp specs) }

/-- `apply_olt_control`. -/
def applyOltControl (inp : Input) (orders : Orders inp) : Except Error Result :=
  match setup inp with
  | .error e => .error e
  | .ok P =>
      match applyOlts inp P orders Marks.none with
      | .ok r _ => .ok r
      | .error e _ => .error e

/-! ## Slots -/

inductive TunnelSlot where
  | vni
  | srcIp
  deriving DecidableEq

inductive PonSlot where
  | data (s : TunnelSlot)
  | sTag
  deriving DecidableEq

/-- The places for values in a spec; a PON is known by its position. -/
inductive Slot where
  | mgmt (s : TunnelSlot)
  | pon (s : Nat × PonSlot)
  deriving DecidableEq

def readTunnel (m : ModuleKey) (value : SrcIp → Value) (t : Option Tunnel) : TunnelSlot → Option Value
  | .vni => (vniOf t).map (.vni m)
  | .srcIp => (srcIpOf t).map value

def readPon (m : ModuleKey) (pon : Pon) : PonSlot → Option Value
  | .data s => readTunnel m .dataIp pon.tunnelData s
  | .sTag => pon.sTag.map (.stag m)

def readOlt (spec : OltSpec) : Slot → Option Value
  | .mgmt s => readTunnel spec.moduleKey .mgmtIp spec.tunnelMgmt s
  | .pon s => Request.readAt (readPon spec.moduleKey) spec.pons s

def tunnelValues (m : ModuleKey) (value : SrcIp → Value) (t : Option Tunnel) : List Value :=
  (readTunnel m value t .vni).toList ++ (readTunnel m value t .srcIp).toList

def ponValues (m : ModuleKey) (pon : Pon) : List Value :=
  tunnelValues m .dataIp pon.tunnelData ++ (readPon m pon .sTag).toList

/-- All values of a spec. -/
def values (spec : OltSpec) : List Value :=
  tunnelValues spec.moduleKey .mgmtIp spec.tunnelMgmt ++ spec.pons.flatMap (ponValues spec.moduleKey)

/-! ## Tunnels, lemmas -/

/-- The tunnel has a `vxlan`. -/
def hasVxlan (t : Option Tunnel) : Bool := (t.bind Tunnel.vxlan).isSome

theorem setVxlan_eq_ok {t t' : Option Tunnel} {set : Vxlan → Vxlan} :
    setVxlan t set = .ok t' ↔ ∃ v, t.bind Tunnel.vxlan = some v ∧ t' = some ⟨some (set v)⟩ := by
  unfold setVxlan
  cases t with
  | none => simp
  | some t =>
      cases hv : t.vxlan with
      | none => simp [hv]
      | some v => simp [hv, eq_comm]

theorem setVxlan_isOk {t : Option Tunnel} {set : Vxlan → Vxlan} :
    (∃ t', setVxlan t set = .ok t') ↔ hasVxlan t = true := by
  constructor
  · rintro ⟨t', h⟩
    obtain ⟨v, hv, -⟩ := setVxlan_eq_ok.mp h
    rw [hasVxlan, hv]
    rfl
  · intro h
    obtain ⟨v, hv⟩ := Option.isSome_iff_exists.mp h
    exact ⟨_, setVxlan_eq_ok.mpr ⟨v, hv, rfl⟩⟩

/-- What a global configuration must say to be used. -/
def Complete (cfg : GlobalVxlanCfg) : Prop :=
  isGlobalVxlanTunnelConfigured cfg = true ∧ (∃ dsiVlan, globalDsiVlan cfg = .ok dsiVlan) ∧
    ∃ gw, globalGateway cfg = .ok gw

/-- The update from a global configuration fills in everything but the values. -/
theorem updateTunnelFromGlobalVxlanCfg_eq_ok {t t' : Option Tunnel} {cfg : GlobalVxlanCfg}
    (h : updateTunnelFromGlobalVxlanCfg t cfg = .ok t') :
    Complete cfg ∧ ∃ v v', t.bind Tunnel.vxlan = some v ∧ t' = some ⟨some v'⟩ ∧ v'.vni = v.vni ∧
      v'.srcIp = v.srcIp ∧ v'.gateway.isSome = true ∧ v'.peerIp.isSome = true ∧ v'.dsiVlan.isSome = true := by
  unfold updateTunnelFromGlobalVxlanCfg at h
  cases hconf : isGlobalVxlanTunnelConfigured cfg with
  | false => simp [hconf] at h
  | true =>
      simp only [hconf, Bool.not_true, Bool.false_eq_true, if_false] at h
      cases hmark : markTunnelDynamic t with
      | error e =>
          rw [hmark] at h
          cases h
      | ok t₁ =>
          cases hdsi : globalDsiVlan cfg with
          | error e =>
              rw [hmark, hdsi] at h
              cases h
          | ok dsi =>
              cases hgw : globalGateway cfg with
              | error e =>
                  rw [hmark, hdsi, hgw] at h
                  cases h
              | ok gw =>
                  rw [hmark, hdsi, hgw] at h
                  simp only [bind, Except.bind] at h
                  obtain ⟨v, hv, rfl⟩ := setVxlan_eq_ok.mp hmark
                  obtain ⟨v', hv', rfl⟩ := setVxlan_eq_ok.mp h
                  cases hv'
                  exact ⟨⟨hconf, ⟨dsi, hdsi⟩, gw, hgw⟩, v, _, hv, rfl, rfl, rfl, rfl, rfl, rfl⟩

theorem updateTunnelFromGlobalVxlanCfg_isOk {t : Option Tunnel} {cfg : GlobalVxlanCfg} :
    (∃ t', updateTunnelFromGlobalVxlanCfg t cfg = .ok t') ↔ Complete cfg ∧ hasVxlan t = true := by
  constructor
  · rintro ⟨t', h⟩
    obtain ⟨hcomplete, v, v', hv, -⟩ := updateTunnelFromGlobalVxlanCfg_eq_ok h
    exact ⟨hcomplete, by rw [hasVxlan, hv]; rfl⟩
  · rintro ⟨⟨hconf, ⟨dsi, hdsi⟩, gw, hgw⟩, ht⟩
    obtain ⟨v, hv⟩ := Option.isSome_iff_exists.mp ht
    have hmark : markTunnelDynamic t = _ := setVxlan_eq_ok.mpr ⟨v, hv, rfl⟩
    unfold updateTunnelFromGlobalVxlanCfg
    rw [hconf, hmark, hdsi, hgw]
    exact ⟨_, rfl⟩

end Workbench.Olt
