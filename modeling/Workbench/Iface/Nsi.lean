import Mathlib.Logic.Function.Basic
import Workbench.Lib.Pool

/-!
# `Iface.Nsi` — NSI addresses of BNGs and SPAs

The part of `split` that makes one pool of NSI addresses for each `cre-vlan-id` and registers the static
addresses, and `allocate_nsi_ips`, which gives the addresses of the CRDs back and assigns the missing ones.

The code compares addresses as texts. Here a text is the canonical text of a number, as `str` of an
`ipaddress` object writes it, or any other text.

## Contents
- **Configuration.** `Addresses`, `Config`; a BNG or SPA is a `Pod`, known by its number.
- **Pools.** `createNsiIpPool`, `storeIp`, `getIpAddress`.
- **Static addresses.** `Entry`, `configEntries`, `registerAll`, and the specs, `bngSpec` and `spaSpec`.
- **Allocation.** `crdEntries`, `storeCrd`, `Place`, `fillPlaces`, and `allocateNsiIps`, the whole of it.
-/

namespace Workbench.Nsi

/-! ## Configuration -/

/-- The text of an address. -/
inductive Address where
  | v4 (n : Nat)
  | v6 (n : Nat)
  | other (text : String)
  deriving DecidableEq

/-- `v4_pool` and `nsi-ip-address`, or `v6_pool` and `nsi-ipv6-address`. -/
inductive Family where
  | v4
  | v6
  deriving DecidableEq

/-- `nsi-ip-address` and `nsi-ipv6-address`, where they are present. -/
structure Addresses where
  v4 : Option Address
  v6 : Option Address

namespace Addresses

def get (x : Addresses) : Family → Option Address
  | .v4 => x.v4
  | .v6 => x.v6

/-- One of them is configured. -/
def static (x : Addresses) : Bool := x.v4.isSome || x.v6.isSome

def none : Addresses := ⟨.none, .none⟩

end Addresses

/-- Whom a tag `bng_{id}_v4` or `spa_{id}_v4` is about. -/
inductive Pod where
  | bng (id : Nat)
  | spa (id : Nat)
  deriving DecidableEq

/-- `nsi` of a bundle or sub-bundle. -/
structure NsiCfg where
  /-- `pool-count`: absent, null, or a number. -/
  poolCount : Option (Option Nat)
  startIpv4Address : Option Nat
  startIpv6Address : Option Nat

structure Bundle where
  bundleIndex : Nat
  creVlanId : Nat
  nsi : Option NsiCfg

structure SubBundle where
  bundleIndexRef : Nat
  subBundleIndex : Nat
  creVlanId : Nat
  nsi : Option NsiCfg

structure SubInterface where
  subBundleIndexRef : Nat
  addresses : Addresses

structure Bng where
  id : Nat
  /-- `cable.bundle`. -/
  cable : Option Nat
  addresses : Addresses
  subInterfaces : List SubInterface

/-- What the template says about the NSI addresses of the SPAs. -/
structure Spa where
  cable : Option Nat
  addresses : Addresses
  ipProvisioningMode : Option String

/-- The configuration, its lists with their keys, and the numbers of the SPAs that get a spec. -/
structure Config where
  bundles : List Bundle
  subBundles : List SubBundle
  bngs : List Bng
  spa : Spa
  spaIds : List Nat
  docsisIpPoolSize : Nat
  subBundles_nodup : (subBundles.map fun s => (s.bundleIndexRef, s.subBundleIndex)).Nodup
  bngs_nodup : (bngs.map Bng.id).Nodup
  spaIds_nodup : spaIds.Nodup

/-! ## Pools -/

/-- The pool of each family, where there is one. A family without a pool has no tags either. -/
abbrev NsiPool := Family → Option (Pool Pod Address)

/-- `bundle_nsi_pools`, by `cre-vlan-id`. -/
abbrev NsiPools := Dict Nat NsiPool

def defaultNsiPoolCount : Nat := 64

/-- The number of IPv4 addresses. -/
def ipv4Count : Nat := 4294967296

/-- The number of IPv6 addresses. -/
def ipv6Count : Nat := 340282366920938463463374607431768211456

/-- `[str(Address(start) + i) for i in range(lo, hi)]`; `none` is an address that does not exist. -/
def addressRange (text : Nat → Address) (limit start lo hi : Nat) : Option (List Address) :=
  if ∀ i ∈ List.range' lo (hi - lo), start + i < limit then
    some ((List.range' lo (hi - lo)).map fun i => text (start + i))
  else none

/-- The addresses a pool of one family starts with: no pool, or its addresses. -/
def familyRange (nsi : Option NsiCfg) (docsisIpPoolSize : Nat) (f : Family) :
    Option (Option (List Address)) :=
  match nsi with
  | none => some none
  | some nsi =>
      match nsi.poolCount.getD (some defaultNsiPoolCount) with
      | none => some none
      | some ipPoolSize =>
          match f with
          | .v4 =>
              match nsi.startIpv4Address with
              | none => some none
              | some start => (addressRange .v4 ipv4Count start docsisIpPoolSize ipPoolSize).map some
          | .v6 =>
              match nsi.startIpv6Address with
              | none => some none
              | some start => (addressRange .v6 ipv6Count start docsisIpPoolSize ipPoolSize).map some

/-- `create_nsi_ip_pool`. -/
def createNsiIpPool (nsi : Option NsiCfg) (docsisIpPoolSize : Nat) : Option NsiPool := do
  let v4 ← familyRange nsi docsisIpPoolSize .v4
  let v6 ← familyRange nsi docsisIpPoolSize .v6
  return fun
    | .v4 => v4.map fun addresses => ⟨addresses, []⟩
    | .v6 => v6.map fun addresses => ⟨addresses, []⟩

/-- `store_ip`. -/
def storeIp (ipAddress : Option Address) (pool : Option (Pool Pod Address)) (pod : Pod) (isStatic : Bool) :
    Option (Pool Pod Address) :=
  match ipAddress with
  | none => pool
  | some a =>
      match pool with
      | none => none
      | some p =>
          if a ∈ p.free then some ⟨p.free.erase a, p.held.put pod a⟩
          else if isStatic then some ⟨p.free, p.held.put pod a⟩
          else some p

/-- The two calls of `store_ip` that always come together. -/
def storeIps (x : Addresses) (pool : NsiPool) (pod : Pod) (isStatic : Bool) : NsiPool :=
  fun f => storeIp (x.get f) (pool f) pod isStatic

/-- `get_ip_address`: the address, the flag, and the pool afterwards. -/
def getIpAddress (pool : Option (Pool Pod Address)) (pod : Pod) :
    Option Address × Bool × Option (Pool Pod Address) :=
  match pool with
  | none => (none, false, none)
  | some p =>
      match p.held.get? pod with
      | some a => (some a, false, some p)
      | none =>
          match p.free.getLast? with
          | some a => (some a, true, some ⟨p.free.dropLast, p.held.put pod a⟩)
          | none => (none, true, some p)

/-! ## Static addresses -/

/-- What `split` does for one bundle or sub-bundle of a BNG or SPA: it makes the pool of `vlan` when there is
    none, and registers the addresses. -/
structure Entry where
  pod : Pod
  vlan : Nat
  nsi : Option NsiCfg
  addresses : Addresses

/-- The bundle of a BNG or SPA; `none` is the `RuntimeError` of an unknown one. -/
def findBundle (cfg : Config) (bundleId : Nat) : Option Bundle :=
  cfg.bundles.find? fun b => b.bundleIndex == bundleId

/-- `sub_bundles`. -/
def subBundlesOf (cfg : Config) (b : Bundle) : List SubBundle :=
  cfg.subBundles.filter fun s => s.bundleIndexRef == b.bundleIndex

/-- The sub-interface of a BNG for a sub-bundle. -/
def findSubInterface (bng : Bng) (sb : SubBundle) : Option SubInterface :=
  bng.subInterfaces.find? fun s => s.subBundleIndexRef == sb.subBundleIndex

/-- The entries of a BNG: its bundle, and the sub-bundles of this bundle. -/
def bngEntries (cfg : Config) (bng : Bng) : Option (List Entry) :=
  match bng.cable with
  | none => some []
  | some bundleId =>
      (findBundle cfg bundleId).map fun b =>
        ⟨.bng bng.id, b.creVlanId, b.nsi, bng.addresses⟩ :: (subBundlesOf cfg b).map fun sb =>
          ⟨.bng bng.id, sb.creVlanId, sb.nsi,
            ((findSubInterface bng sb).map SubInterface.addresses).getD Addresses.none⟩

/-- The entry of a SPA. -/
def spaEntries (cfg : Config) (id : Nat) : Option (List Entry) :=
  match cfg.spa.cable with
  | none => some []
  | some bundleId =>
      (findBundle cfg bundleId).map fun b => [⟨.spa id, b.creVlanId, b.nsi, cfg.spa.addresses⟩]

/-- All entries, in the order in which `split` makes them. -/
def configEntries (cfg : Config) : Option (List Entry) := do
  let bngs ← cfg.bngs.mapM (bngEntries cfg)
  let spas ← cfg.spaIds.mapM (spaEntries cfg)
  return bngs.flatten ++ spas.flatten

/-- One entry. -/
def register (docsisIpPoolSize : Nat) (pools : NsiPools) (e : Entry) : Option NsiPools := do
  let pool ← match pools.get? e.vlan with
    | some pool => some pool
    | none => createNsiIpPool e.nsi docsisIpPoolSize
  return pools.put e.vlan (storeIps e.addresses pool e.pod true)

/-- `bundle_nsi_pools` as `split` hands them to `allocate_nsi_ips`. -/
def registerAll (docsisIpPoolSize : Nat) (entries : List Entry) : Option NsiPools :=
  entries.foldlM (register docsisIpPoolSize) []

/-- What a BNG spec, or the spec of a CRD, says about addresses: the `cre-vlan-id` of its bundle, and the
    sub-bundles with their index and `cre-vlan-id`. -/
structure BngSpec where
  id : Nat
  addresses : Addresses
  bundle : Option Nat
  subBundles : List (Nat × Nat)
  subInterfaces : List SubInterface

structure SpaSpec where
  id : Nat
  addresses : Addresses
  bundle : Option Nat
  ipProvisioningMode : Option String

/-- The spec of a BNG. Sub-bundles without a sub-interface get one. -/
def bngSpec (cfg : Config) (bng : Bng) : BngSpec :=
  match bng.cable.bind (findBundle cfg) with
  | none => ⟨bng.id, bng.addresses, none, [], bng.subInterfaces⟩
  | some b =>
      let added := (subBundlesOf cfg b).filter fun sb => (findSubInterface bng sb).isNone
      ⟨bng.id, bng.addresses, some b.creVlanId,
        (subBundlesOf cfg b).map fun sb => (sb.subBundleIndex, sb.creVlanId),
        bng.subInterfaces ++ added.map fun sb => ⟨sb.subBundleIndex, Addresses.none⟩⟩

def spaSpec (cfg : Config) (id : Nat) : SpaSpec :=
  ⟨id, cfg.spa.addresses, (cfg.spa.cable.bind (findBundle cfg)).map Bundle.creVlanId,
    cfg.spa.ipProvisioningMode⟩

/-! ## CRDs -/

/-- The previous CRDs, in the order in which they are listed. -/
structure Crds where
  bngs : List BngSpec
  spas : List SpaSpec

/-- What a CRD has for one `cre-vlan-id`: the addresses of its bundle, or those of the sub-interfaces of a
    sub-bundle. -/
structure CrdEntry where
  pod : Pod
  vlan : Nat
  addresses : List Addresses

/-- The entries of a BNG CRD; `none` is the `KeyError` of a CRD without a bundle. -/
def bngCrdEntries (crd : BngSpec) : Option (List CrdEntry) :=
  crd.bundle.map fun vlan =>
    ⟨.bng crd.id, vlan, [crd.addresses]⟩ :: crd.subBundles.map fun sb =>
      ⟨.bng crd.id, sb.2,
        (crd.subInterfaces.filter fun s => s.subBundleIndexRef == sb.1).map SubInterface.addresses⟩

def spaCrdEntries (crd : SpaSpec) : Option (List CrdEntry) :=
  crd.bundle.map fun vlan => [⟨.spa crd.id, vlan, [crd.addresses]⟩]

/-- The entries of the CRDs that remain after the new specs are applied. -/
def crdEntries (cfg : Config) (crds : Crds) : Option (List CrdEntry) := do
  let bngs ← (crds.bngs.filter fun c => (cfg.bngs.map Bng.id).contains c.id).mapM bngCrdEntries
  let spas ← (crds.spas.filter fun c => cfg.spaIds.contains c.id).mapM spaCrdEntries
  return bngs.flatten ++ spas.flatten

/-- The pod has a tag of this family. -/
def hasTag (pool : Option (Pool Pod Address)) (pod : Pod) : Bool :=
  match pool with
  | none => false
  | some p => p.held.hasKey pod

/-- The pod has a tag of one of the families. -/
def tagged (pool : NsiPool) (pod : Pod) : Bool := hasTag (pool .v4) pod || hasTag (pool .v6) pod

/-- One entry of a CRD: it is ignored when the pod has a tag already. -/
def storeCrd (pools : NsiPools) (e : CrdEntry) : NsiPools :=
  match pools.get? e.vlan with
  | none => pools
  | some pool =>
      if tagged pool e.pod then pools
      else pools.put e.vlan (e.addresses.foldl (fun pool x => storeIps x pool e.pod false) pool)

/-! ## Allocation -/

/-- A place of the specs that has addresses: a BNG's bundle, a sub-interface, or a SPA. `vlans` are the
    `cre-vlan-id`s of the bundle, or of the sub-bundles with the index the sub-interface refers to. -/
structure Place where
  pod : Pod
  vlans : List Nat
  /-- The families that are assigned. -/
  asks : Family → Bool
  addresses : Addresses

/-- The places of a BNG spec; `none` is a spec without a bundle. -/
def bngPlaces (b : BngSpec) : Option (List Place) :=
  b.bundle.map fun vlan =>
    ⟨.bng b.id, [vlan], fun _ => true, b.addresses⟩ ::
      if b.subBundles.isEmpty then []
      else b.subInterfaces.map fun s =>
        ⟨.bng b.id, (b.subBundles.filter fun sb => sb.1 == s.subBundleIndexRef).map Prod.snd,
          fun _ => true, s.addresses⟩

/-- `ip_provisioning_mode` assigns this family. -/
def modeAsks (mode : Option String) : Family → Bool
  | .v4 => mode.getD "ipv4-only" == "ipv4-only"
  | .v6 => mode.getD "ipv4-only" == "ipv6-only"

def spaPlaces (s : SpaSpec) : Option (List Place) :=
  s.bundle.map fun vlan => [⟨.spa s.id, [vlan], modeAsks s.ipProvisioningMode, s.addresses⟩]

/-- All places, in the order in which `allocate_nsi_ips` visits them. -/
def places (cfg : Config) : Option (List Place) := do
  let bngs ← cfg.bngs.mapM fun bng => bngPlaces (bngSpec cfg bng)
  let spas ← cfg.spaIds.mapM fun id => spaPlaces (spaSpec cfg id)
  return bngs.flatten ++ spas.flatten

/-- The loop over the pools of a place: `ip_assign_success`, the address, and the pools. -/
def assignLoop (f : Family) (pod : Pod) :
    List Nat → Bool × Option Address × NsiPools → Bool × Option Address × NsiPools
  | [], r => r
  | vlan :: vlans, (success, ip, pools) =>
      match pools.get? vlan with
      | none => assignLoop f pod vlans (success, ip, pools)
      | some pool =>
          match getIpAddress (pool f) pod with
          | (some a, _, p) =>
              assignLoop f pod vlans (true, some a, pools.put vlan (Function.update pool f p))
          | (none, poolExists, _) => assignLoop f pod vlans (!poolExists, ip, pools)

/-- Assign one address; `none` is the `ValueError`. -/
def assignIp (f : Family) (pod : Pod) (vlans : List Nat) (pools : NsiPools) :
    Option (Option Address × NsiPools) :=
  match assignLoop f pod vlans (false, none, pools) with
  | (true, ip, pools) => some (ip, pools)
  | (false, _, _) => none

/-- Assign one address if the family is to be assigned. -/
def askIp (asks : Bool) (f : Family) (pod : Pod) (vlans : List Nat) (pools : NsiPools) :
    Option (Option Address × NsiPools) :=
  if asks then assignIp f pod vlans pools else some (none, pools)

/-- One place: only without static addresses, and only the families it asks for. -/
def fillPlace (p : Place) (pools : NsiPools) : Option (Place × NsiPools) :=
  if p.addresses.static then some (p, pools)
  else do
    let (v4, pools) ← askIp (p.asks .v4) .v4 p.pod p.vlans pools
    let (v6, pools) ← askIp (p.asks .v6) .v6 p.pod p.vlans pools
    return ({ p with addresses := ⟨v4, v6⟩ }, pools)

def fillPlaces : List Place → NsiPools → Option (List Place × NsiPools)
  | [], pools => some ([], pools)
  | p :: ps, pools => do
      let (p, pools) ← fillPlace p pools
      let (ps, pools) ← fillPlaces ps pools
      return (p :: ps, pools)

/-- The pools of `split`, then `allocate_nsi_ips`: the places with their addresses. -/
def allocateNsiIps (cfg : Config) (crds : Crds) : Option (List Place) := do
  let entries ← configEntries cfg
  let pools ← registerAll cfg.docsisIpPoolSize entries
  let claims ← crdEntries cfg crds
  let todo ← places cfg
  let (done, _) ← fillPlaces todo (claims.foldl storeCrd pools)
  return done

end Workbench.Nsi
