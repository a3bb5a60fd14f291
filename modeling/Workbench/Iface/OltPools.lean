import Workbench.Iface.Spa
import Workbench.Lib.Attempt

/-!
# `Iface.OltPools` — the pools of VNIs, s-tags and tunnel addresses

The set-up of `apply_olt_control`: `gather_pool_meta` collects the static values, `init_module_pools` and
`init_global_pools` make the pools around them.

## Contents
- **Configuration.** `OltSpec`, `ModuleMgmt`, `GlobalVxlanCfg`, and `Input`, what `apply_olt_control` is called with.
- **Pools.** `createIntegerPool`, `createIpPool`, `gatherPoolMeta` and `setup`, which makes the `Pools`.
- **What the set-up guarantees.** `length_createIntegerPool`, `has_of_static`, `vnis_isSome`,
  `configured_of_unmanaged`.
-/

namespace Workbench.Olt

open Iface (OltKey)

/-! ## Configuration -/

/-- `(v-chassis, v-slot)`. -/
structure ModuleKey where
  chassis : Nat
  slot : Nat
  deriving DecidableEq

inductive Family where
  | v4
  | v6
  deriving DecidableEq

/-- An `ipaddress` object. -/
structure Ip where
  family : Family
  number : Nat
  deriving DecidableEq

/-- The text of a `src-ip`: as the pools write it, `{compressed}/{prefixlen}`, or any other text. The address of
    another text is only looked at in the configuration. -/
inductive SrcIp where
  | host (ip : Ip) (prefixLen : Nat)
  | other (ip : Ip) (text : String)
  deriving DecidableEq

/-- `ipaddress.ip_address(src_ip.split('/')[0])`. -/
def SrcIp.ip : SrcIp → Ip
  | .host ip _ => ip
  | .other ip _ => ip

structure Vxlan where
  srcIp : Option SrcIp
  gateway : Option String
  peerIp : Option String
  vni : Option Nat
  dsiVlan : Option Nat
  /-- `dynamic-configured` is present; it is never set to anything but `True`. -/
  dynamicConfigured : Bool
  deriving DecidableEq

structure Tunnel where
  vxlan : Option Vxlan
  deriving DecidableEq

structure Pon where
  oltPonPort : Nat
  sfpPortNum : Option Nat
  ponIndex : Option Nat
  /-- `none` is null, as for the PONs of a module with `traffic-mode` external. -/
  tunnelData : Option Tunnel
  sTag : Option Nat
  /-- The rest of the PON, which is only compared. -/
  other : String
  deriving DecidableEq

/-- The spec of an `olt-control`, with its one module and its one OLT. -/
structure OltSpec where
  moduleKey : ModuleKey
  /-- `v-chassis`, `v-slot` and `v-slot-port` of the OLT. -/
  key : OltKey
  tunnelMgmt : Option Tunnel
  pons : List Pon
  protectedFromDeletion : Option Bool
  /-- The rest of the spec, which is only compared. -/
  other : String
  deriving DecidableEq

/-- A `module-mgmt` spec: its modules, its OLTs, and the addresses in `module-management.network`. -/
structure ModuleMgmt where
  modules : List ModuleKey
  olts : List OltKey
  coreIpAddress : Option Nat
  coreIpv6Address : Option Nat

/-- `cre-gw-ip-address`: the text before the slash, the address, and the prefix length, where there is a slash. -/
structure CreGw where
  gw : String
  number : Nat
  prefixLen : Option Nat

/-- `ip-address-pool`. -/
structure IpAddressPool where
  startIpv4Addr : Option Nat
  startIpv6Addr : Option Nat

/-- `tunnel-mgmt` of `olt-control`, or `tunnel-data` of `bng-data`. -/
structure GlobalVxlanCfg where
  dsiVlanId : Option Nat
  ipAddressPool : Option IpAddressPool
  creGwIpAddress : Option CreGw
  creGwIpv6Address : Option CreGw

/-- What `apply_olt_control` is called with; `stored` are the specs of the `olt-control`s in k8s, and an absent global
    tunnel configuration is `none`. -/
structure Input where
  specs : Dict OltKey OltSpec
  stored : Dict OltKey OltSpec
  moduleMgmt : List ModuleMgmt
  oltControl : Option GlobalVxlanCfg
  bngData : Option GlobalVxlanCfg
  specs_nodup : specs.keys.Nodup

/-- The exceptions. -/
inductive Error where
  /-- `ValueError` with this message. -/
  | value (message : String)
  /-- `f"{field} not configured for not managable olt spec {name}"`. -/
  | notConfigured (field : String) (name : OltKey)
  /-- `f'Start IP address {start_ip} not in the network {network}'`. -/
  | startNotInNetwork (start : Nat) (network : CreGw)
  /-- `KeyError`. -/
  | key (name : String)
  /-- `TypeError`: a null is subscripted. -/
  | type

/-- `is_vxlan_tunnel_configured`. -/
def isVxlanTunnelConfigured (tunnelCfg : Option Tunnel) : Bool :=
  match tunnelCfg with
  | none => false
  | some t =>
      match t.vxlan with
      | none => false
      | some v =>
          v.srcIp.isSome && v.gateway.isSome && v.peerIp.isSome && v.vni.isSome && v.dsiVlan.isSome

/-- `tunnel['vxlan']['vni']`, where it is present. -/
def vniOf (t : Option Tunnel) : Option Nat := (t.bind Tunnel.vxlan).bind Vxlan.vni

/-- `tunnel['vxlan']['src-ip']`, where it is present. -/
def srcIpOf (t : Option Tunnel) : Option SrcIp := (t.bind Tunnel.vxlan).bind Vxlan.srcIp

/-- `is_olt_spec_managable`. -/
def isOltSpecManagable (spec : OltSpec) (moduleMgmt : List ModuleMgmt) : Bool :=
  moduleMgmt.any fun mm => mm.modules.contains spec.moduleKey && mm.olts.contains spec.key

/-- `pon_spec_from_olt`. -/
def ponSpecFromOlt (olt : OltSpec) (pon : Pon) : Option Pon :=
  olt.pons.find? fun p =>
    match pon.sfpPortNum, pon.ponIndex, p.sfpPortNum, p.ponIndex with
    | some sfp, some i, some sfp', some i' => sfp' == sfp && i' == i
    | _, _, _, _ => p.oltPonPort == pon.oltPonPort

/-! ## Pools -/

/-- The numbers from `next` on that are not reserved, at most `limit` many; `remaining` is how many numbers there
    are. -/
def takeFree (reserved : List Nat) (limit : Option Nat) : Nat → Nat → List Nat
  | 0, _ => []
  | remaining + 1, next =>
      if limit = some 0 then []
      else if next ∈ reserved then takeFree reserved limit remaining (next + 1)
      else next :: takeFree reserved (limit.map (· - 1)) remaining (next + 1)

/-- `create_integer_pool`. The loop passes every reserved number at most once. -/
def createIntegerPool (valueFrom size : Nat) (reserved : List Nat) : List Nat :=
  takeFree reserved (some size) (size + reserved.length) valueFrom

def Family.bits : Family → Nat
  | .v4 => 32
  | .v6 => 128

/-- The first and the last of `ip_net.hosts()`, for a network of `size` addresses from `base`. -/
def hosts (f : Family) (base size : Nat) : Nat × Nat :=
  if size ≤ 2 then (base, base + size - 1)
  else
    match f with
    | .v4 => (base + 1, base + size - 2)
    | .v6 => (base + 1, base + size - 1)

/-- `create_ip_pool`. -/
def createIpPool (f : Family) (startIp : Nat) (network : CreGw) (reserved : List Ip) (limitSize : Option Nat) :
    Except Error (List SrcIp) :=
  let prefixLen := network.prefixLen.getD f.bits
  if f.bits < prefixLen then .error (.value "does not appear to be an IPv4 or IPv6 network")
  else
    let size := 1 <<< (f.bits - prefixLen)
    let base := network.number / size * size
    if startIp < base ∨ base + size ≤ startIp then .error (.startNotInNetwork startIp network)
    else
      let (first, last) := hosts f base size
      -- `dropwhile` drops everything when the start is not a host
      if startIp < first ∨ last < startIp then .ok []
      else
        let reservedIps := reserved.filterMap fun ip => if ip.family = f then some ip.number else none
        .ok ((takeFree reservedIps limitSize (last + 1 - startIp) startIp).map fun n => .host ⟨f, n⟩ prefixLen)

/-- `is_global_vxlan_tunnel_configured`. -/
def isGlobalVxlanTunnelConfigured (cfg : GlobalVxlanCfg) : Bool := cfg.ipAddressPool.isSome

/-- `init_tunnel_vxlan_src_ip_pool`, which asks `is_global_vxlan_tunnel_v4` and `is_global_vxlan_tunnel_v6`. -/
def initTunnelVxlanSrcIpPool (cfg : GlobalVxlanCfg) (reserved : List Ip) : Except Error (List SrcIp) :=
  match cfg.creGwIpAddress, cfg.ipAddressPool.bind IpAddressPool.startIpv4Addr with
  | some network, some start => createIpPool .v4 start network reserved none
  | _, _ =>
      match cfg.creGwIpv6Address, cfg.ipAddressPool.bind IpAddressPool.startIpv6Addr with
      | some network, some start => createIpPool .v6 start network reserved (some 2048)
      | _, _ => .error (.value
          "Either v4 or v6 global mgmt tunnel vxlan should be configured for pool-based ip address assignment")

/-- One of the two pools of `init_global_pools`. -/
def initGlobalPool (cfg : Option GlobalVxlanCfg) (reserved : List Ip) : Except Error (List SrcIp) :=
  match cfg with
  | none => .ok []
  | some cfg => initTunnelVxlanSrcIpPool cfg reserved

/-! ## Static values -/

/-- The VNI of a configured tunnel. -/
def configuredVni (t : Option Tunnel) : Option Nat := if isVxlanTunnelConfigured t then vniOf t else none

/-- The `src-ip` of a configured tunnel. -/
def configuredSrcIp (t : Option Tunnel) : Option SrcIp := if isVxlanTunnelConfigured t then srcIpOf t else none

def staticVnis (spec : OltSpec) : List Nat :=
  (configuredVni spec.tunnelMgmt).toList ++ spec.pons.filterMap fun pon => configuredVni pon.tunnelData

def staticStags (spec : OltSpec) : List Nat := spec.pons.filterMap Pon.sTag

def staticDataIps (spec : OltSpec) : List SrcIp := spec.pons.filterMap fun pon => configuredSrcIp pon.tunnelData

/-- The PON of an OLT that is not managable has its tunnel and its s-tag. -/
def checkPon (name : OltKey) (pon : Pon) : Except Error Unit :=
  if !isVxlanTunnelConfigured pon.tunnelData then .error (.notConfigured "tunnel-data" name)
  else if pon.sTag.isNone then .error (.notConfigured "stag" name)
  else .ok ()

/-- An OLT that is not managable is configured completely. -/
def checkSpec (moduleMgmt : List ModuleMgmt) (e : OltKey × OltSpec) : Except Error Unit :=
  if isOltSpecManagable e.2 moduleMgmt then .ok ()
  else if !isVxlanTunnelConfigured e.2.tunnelMgmt then .error (.notConfigured "tunnel-mgmt" e.1)
  else e.2.pons.forM (checkPon e.1)

/-- The managable OLTs. -/
def managableSpecs (inp : Input) : List OltSpec :=
  (inp.specs.map Prod.snd).filter fun spec => isOltSpecManagable spec inp.moduleMgmt

/-- `module_reserved_vni` or `module_reserved_stag`: a list for every module of a managable OLT. -/
def moduleReserved (inp : Input) (static : OltSpec → List Nat) (m : ModuleKey) : Option (List Nat) :=
  if m ∈ (managableSpecs inp).map OltSpec.moduleKey then
    some ((managableSpecs inp).flatMap fun spec => if spec.moduleKey = m then static spec else [])
  else none

/-- The addresses in `module-management.network`. -/
def coreIps (mm : ModuleMgmt) : List Ip :=
  (mm.coreIpAddress.map fun n => ⟨.v4, n⟩).toList ++ (mm.coreIpv6Address.map fun n => ⟨.v6, n⟩).toList

/-- `tunnel_mgmt_vxlan_src_ip_reserved`. -/
def mgmtReserved (inp : Input) : List Ip :=
  (inp.specs.filterMap fun e => (configuredSrcIp e.2.tunnelMgmt).map SrcIp.ip) ++ inp.moduleMgmt.flatMap coreIps

/-- `tunnel_data_vxlan_src_ip_reserved`. -/
def dataReserved (inp : Input) : List Ip :=
  inp.specs.flatMap fun e => (staticDataIps e.2).map SrcIp.ip

/-- The values of the pools. -/
structure Pools where
  /-- `module_stag_pools`. -/
  stags : ModuleKey → Option (List Nat)
  /-- `module_vni_pools`. -/
  vnis : ModuleKey → Option (List Nat)
  /-- `tunnel_mgmt_vxlan_src_ip_pool`. -/
  mgmtIps : List SrcIp
  /-- `tunnel_data_vxlan_src_ip_pool`. -/
  dataIps : List SrcIp

/-- `gather_pool_meta`, `init_module_pools` and `init_global_pools`. -/
def setup (inp : Input) : Except Error Pools := do
  inp.specs.forM (checkSpec inp.moduleMgmt)
  let mgmtIps ← initGlobalPool inp.oltControl (mgmtReserved inp)
  let dataIps ← initGlobalPool inp.bngData (dataReserved inp)
  return {
    stags := fun m => (moduleReserved inp staticStags m).map (createIntegerPool 100 100)
    vnis := fun m => (moduleReserved inp staticVnis m).map (createIntegerPool 11000 100)
    mgmtIps := mgmtIps
    dataIps := dataIps }

/-- A value in its scope: VNIs and s-tags of a module, and the addresses of all tunnels of a kind. -/
inductive Value where
  | stag (m : ModuleKey) (n : Nat)
  | vni (m : ModuleKey) (n : Nat)
  | mgmtIp (ip : SrcIp)
  | dataIp (ip : SrcIp)
  deriving DecidableEq

/-- The value is in its pool. -/
def Pools.has (P : Pools) : Value → Bool
  | .stag m n => (P.stags m).any fun pool => pool.contains n
  | .vni m n => (P.vnis m).any fun pool => pool.contains n
  | .mgmtIp ip => P.mgmtIps.contains ip
  | .dataIp ip => P.dataIps.contains ip

/-! ## What is in a pool -/

theorem mem_takeFree {reserved : List Nat} {n : Nat} : ∀ {limit : Option Nat} {remaining next : Nat},
    n ∈ takeFree reserved limit remaining next → n ∉ reserved
  | _, 0, _, h => by cases h
  | limit, remaining + 1, next, h => by
      unfold takeFree at h
      split at h
      · cases h
      · split at h
        · exact mem_takeFree h
        · next hfree =>
            rcases List.mem_cons.mp h with rfl | h
            · exact hfree
            · exact mem_takeFree h

theorem countP_le_succ (reserved : List Nat) (next : Nat) :
    reserved.countP (fun r => decide (next ≤ r)) =
      reserved.countP (fun r => decide (next + 1 ≤ r)) + reserved.count next := by
  induction reserved with
  | nil => rfl
  | cons r reserved ih =>
      rw [List.countP_cons, List.countP_cons, List.count_cons, ih]
      by_cases hlt : next + 1 ≤ r
      · simp [hlt, show next ≤ r by omega, show r ≠ next by omega]
        omega
      · by_cases heq : r = next
        · simp [heq]
          omega
        · simp [hlt, heq, show ¬ next ≤ r by omega]

/-- The loop that fills a pool ends with a pool of the size that was asked for. -/
theorem length_takeFree {reserved : List Nat} : ∀ {size remaining next : Nat},
    size + reserved.countP (fun r => decide (next ≤ r)) ≤ remaining →
      (takeFree reserved (some size) remaining next).length = size
  | size, 0, next, h => by
      have hzero : size = 0 := by omega
      subst hzero
      rfl
  | size, remaining + 1, next, h => by
      rw [countP_le_succ] at h
      unfold takeFree
      by_cases hzero : size = 0
      · subst hzero
        rfl
      · rw [if_neg (by simpa using hzero)]
        by_cases hres : next ∈ reserved
        · -- a reserved number is passed, and it is not passed again
          have hcount : 0 < reserved.count next := List.count_pos_iff.mpr hres
          rw [if_pos hres]
          exact length_takeFree (by omega)
        · rw [if_neg hres, List.length_cons]
          show (takeFree reserved (some (size - 1)) remaining (next + 1)).length + 1 = size
          rw [length_takeFree (by omega)]
          omega

theorem length_createIntegerPool (valueFrom size : Nat) (reserved : List Nat) :
    (createIntegerPool valueFrom size reserved).length = size := by
  apply length_takeFree
  have hle : reserved.countP (fun r => decide (valueFrom ≤ r)) ≤ reserved.length := List.countP_le_length
  omega

theorem not_mem_createIpPool {f : Family} {startIp : Nat} {network : CreGw} {reserved : List Ip}
    {limitSize : Option Nat} {pool : List SrcIp}
    (h : createIpPool f startIp network reserved limitSize = .ok pool) {ip : SrcIp} (hip : ip.ip ∈ reserved) :
    ip ∉ pool := by
  unfold createIpPool at h
  simp only at h
  split at h
  · cases h
  · split at h
    · cases h
    · split at h
      · cases h
        exact List.not_mem_nil
      · cases h
        intro hmem
        obtain ⟨n, hn, rfl⟩ := List.mem_map.mp hmem
        apply mem_takeFree hn
        rw [List.mem_filterMap]
        exact ⟨_, hip, if_pos rfl⟩

theorem not_mem_initGlobalPool {cfg : Option GlobalVxlanCfg} {reserved : List Ip} {pool : List SrcIp}
    (h : initGlobalPool cfg reserved = .ok pool) {ip : SrcIp} (hip : ip.ip ∈ reserved) : ip ∉ pool := by
  cases cfg with
  | none =>
      cases h
      exact List.not_mem_nil
  | some cfg =>
      simp only [initGlobalPool, initTunnelVxlanSrcIpPool] at h
      split at h
      · exact not_mem_createIpPool h hip
      · split at h
        · exact not_mem_createIpPool h hip
        · cases h

/-! ## What the set-up guarantees -/

/-- The steps of the set-up, one by one. -/
theorem setup_eq_ok {inp : Input} {P : Pools} (h : setup inp = .ok P) :
    inp.specs.forM (checkSpec inp.moduleMgmt) = .ok () ∧
      initGlobalPool inp.oltControl (mgmtReserved inp) = .ok P.mgmtIps ∧
      initGlobalPool inp.bngData (dataReserved inp) = .ok P.dataIps ∧
      (∀ m, P.stags m = (moduleReserved inp staticStags m).map (createIntegerPool 100 100)) ∧
      ∀ m, P.vnis m = (moduleReserved inp staticVnis m).map (createIntegerPool 11000 100) := by
  unfold setup at h
  cases hcheck : inp.specs.forM (checkSpec inp.moduleMgmt) with
  | error e =>
      rw [hcheck] at h
      cases h
  | ok _ =>
      cases hmgmt : initGlobalPool inp.oltControl (mgmtReserved inp) with
      | error e =>
          rw [hcheck, hmgmt] at h
          cases h
      | ok mgmtIps =>
          cases hdata : initGlobalPool inp.bngData (dataReserved inp) with
          | error e =>
              rw [hcheck, hmgmt, hdata] at h
              cases h
          | ok dataIps =>
              rw [hcheck, hmgmt, hdata] at h
              cases h
              exact ⟨rfl, rfl, rfl, fun _ => rfl, fun _ => rfl⟩

theorem forM_eq_ok {α : Type} {f : α → Except Error Unit} {xs : List α} :
    xs.forM f = .ok () ↔ ∀ x ∈ xs, f x = .ok () := by
  induction xs with
  | nil => simp [pure, Except.pure]
  | cons x xs ih =>
      rw [List.forall_mem_cons, ← ih]
      show (f x >>= fun _ => xs.forM f) = .ok () ↔ _
      cases hx : f x with
      | error e => simp [bind, Except.bind]
      | ok _ => simp [bind, Except.bind]

/-- The tunnels and s-tags of the spec are all there. -/
structure Configured (spec : OltSpec) : Prop where
  mgmt : isVxlanTunnelConfigured spec.tunnelMgmt = true
  data : ∀ pon ∈ spec.pons, isVxlanTunnelConfigured pon.tunnelData = true
  sTag : ∀ pon ∈ spec.pons, pon.sTag.isSome = true

theorem checkPon_eq_ok {name : OltKey} {pon : Pon} :
    checkPon name pon = .ok () ↔ isVxlanTunnelConfigured pon.tunnelData = true ∧ pon.sTag.isSome = true := by
  unfold checkPon
  cases isVxlanTunnelConfigured pon.tunnelData with
  | false => simp
  | true =>
      cases pon.sTag with
      | none => simp
      | some n => simp

theorem checkSpec_eq_ok {moduleMgmt : List ModuleMgmt} {name : OltKey} {spec : OltSpec} :
    checkSpec moduleMgmt (name, spec) = .ok () ↔
      (isOltSpecManagable spec moduleMgmt = false → Configured spec) := by
  unfold checkSpec
  cases isOltSpecManagable spec moduleMgmt with
  | true => simp
  | false =>
      cases hmgmt : isVxlanTunnelConfigured spec.tunnelMgmt with
      | false =>
          constructor
          · intro h
            cases h
          · intro h
            have hconf := (h rfl).mgmt
            rw [hmgmt] at hconf
            cases hconf
      | true =>
          show spec.pons.forM (checkPon name) = .ok () ↔ _
          rw [forM_eq_ok]
          constructor
          · intro h _
            exact ⟨hmgmt, fun pon hpon => (checkPon_eq_ok.mp (h pon hpon)).1,
              fun pon hpon => (checkPon_eq_ok.mp (h pon hpon)).2⟩
          · intro h pon hpon
            exact checkPon_eq_ok.mpr ⟨(h rfl).data pon hpon, (h rfl).sTag pon hpon⟩

section

variable {inp : Input} {P : Pools} {name : OltKey} {spec : OltSpec}

/-- An OLT that is not managable needs no pool. -/
theorem configured_of_unmanaged (h : setup inp = .ok P) (hspec : (name, spec) ∈ inp.specs)
    (hun : isOltSpecManagable spec inp.moduleMgmt = false) : Configured spec :=
  checkSpec_eq_ok.mp (forM_eq_ok.mp (setup_eq_ok h).1 (name, spec) hspec) hun

theorem mem_managableSpecs (hspec : (name, spec) ∈ inp.specs)
    (hman : isOltSpecManagable spec inp.moduleMgmt = true) : spec ∈ managableSpecs inp :=
  List.mem_filter.mpr ⟨List.mem_map.mpr ⟨(name, spec), hspec, rfl⟩, hman⟩

/-- What is reserved for the module of a managable OLT. -/
theorem moduleReserved_eq_some (hspec : (name, spec) ∈ inp.specs)
    (hman : isOltSpecManagable spec inp.moduleMgmt = true) (static : OltSpec → List Nat) :
    ∃ reserved, moduleReserved inp static spec.moduleKey = some reserved ∧ ∀ n ∈ static spec, n ∈ reserved := by
  have hmem := mem_managableSpecs hspec hman
  refine ⟨_, if_pos (List.mem_map.mpr ⟨spec, hmem, rfl⟩), ?_⟩
  intro n hn
  rw [List.mem_flatMap]
  exact ⟨spec, hmem, by rwa [if_pos rfl]⟩

/-- The module of a managable OLT has its pools. -/
theorem vnis_isSome (h : setup inp = .ok P) (hspec : (name, spec) ∈ inp.specs)
    (hman : isOltSpecManagable spec inp.moduleMgmt = true) : ∃ pool, P.vnis spec.moduleKey = some pool := by
  obtain ⟨reserved, hres, -⟩ := moduleReserved_eq_some hspec hman staticVnis
  rw [(setup_eq_ok h).2.2.2.2, hres]
  exact ⟨_, rfl⟩

theorem stags_isSome (h : setup inp = .ok P) (hspec : (name, spec) ∈ inp.specs)
    (hman : isOltSpecManagable spec inp.moduleMgmt = true) : ∃ pool, P.stags spec.moduleKey = some pool := by
  obtain ⟨reserved, hres, -⟩ := moduleReserved_eq_some hspec hman staticStags
  rw [(setup_eq_ok h).2.2.2.1, hres]
  exact ⟨_, rfl⟩

/-- A module without a managable OLT has no pool. -/
theorem moduleReserved_eq_none {m : ModuleKey} {static : OltSpec → List Nat}
    (h : ∀ spec ∈ managableSpecs inp, spec.moduleKey ≠ m) : moduleReserved inp static m = none := by
  apply if_neg
  intro hm
  obtain ⟨spec, hspec, heq⟩ := List.mem_map.mp hm
  exact h spec hspec heq

/-- The VNIs that a managable OLT has of its own are not in the pool. -/
theorem has_vni_of_static (h : setup inp = .ok P) (hspec : (name, spec) ∈ inp.specs)
    (hman : isOltSpecManagable spec inp.moduleMgmt = true) {n : Nat} (hn : n ∈ staticVnis spec) :
    P.has (.vni spec.moduleKey n) = false := by
  obtain ⟨reserved, hres, hsub⟩ := moduleReserved_eq_some hspec hman staticVnis
  simp only [Pools.has, (setup_eq_ok h).2.2.2.2, hres, Option.map_some, Option.any_some]
  rw [List.contains_eq_mem, decide_eq_false_iff_not]
  intro hmem
  exact mem_takeFree hmem (hsub n hn)

theorem has_stag_of_static (h : setup inp = .ok P) (hspec : (name, spec) ∈ inp.specs)
    (hman : isOltSpecManagable spec inp.moduleMgmt = true) {n : Nat} (hn : n ∈ staticStags spec) :
    P.has (.stag spec.moduleKey n) = false := by
  obtain ⟨reserved, hres, hsub⟩ := moduleReserved_eq_some hspec hman staticStags
  simp only [Pools.has, (setup_eq_ok h).2.2.2.1, hres, Option.map_some, Option.any_some]
  rw [List.contains_eq_mem, decide_eq_false_iff_not]
  intro hmem
  exact mem_takeFree hmem (hsub n hn)

/-- The addresses that tunnels have of their own are not in the pools, whether the OLT is managable or not. -/
theorem has_mgmtIp_of_static (h : setup inp = .ok P) (hspec : (name, spec) ∈ inp.specs) {ip : SrcIp}
    (hip : configuredSrcIp spec.tunnelMgmt = some ip) : P.has (.mgmtIp ip) = false := by
  simp only [Pools.has]
  rw [List.contains_eq_mem, decide_eq_false_iff_not]
  apply not_mem_initGlobalPool (setup_eq_ok h).2.1
  apply List.mem_append_left
  rw [List.mem_filterMap]
  exact ⟨(name, spec), hspec, by rw [hip]; rfl⟩

theorem has_dataIp_of_static (h : setup inp = .ok P) (hspec : (name, spec) ∈ inp.specs) {ip : SrcIp}
    (hip : ip ∈ staticDataIps spec) : P.has (.dataIp ip) = false := by
  simp only [Pools.has]
  rw [List.contains_eq_mem, decide_eq_false_iff_not]
  apply not_mem_initGlobalPool (setup_eq_ok h).2.2.1
  exact List.mem_flatMap.mpr ⟨(name, spec), hspec, List.mem_map.mpr ⟨ip, hip, rfl⟩⟩

end

end Workbench.Olt
