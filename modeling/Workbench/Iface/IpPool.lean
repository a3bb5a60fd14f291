import Workbench.Iface.OltPools

/-!
# `Iface.IpPool` — the addresses of a pool

`create_ip_pool` drops the hosts of the network up to the start address, which has to be one of the hosts for that. The
gateway is an address of the network like any other.

## Main results
* `takeFree_eq` — the free numbers in order, up to the limit;
* `poolOk_iff` — when the pool is what it should be: the free hosts from the start on, without the gateway.
-/

namespace Workbench.Olt

variable {f : Family} {network : CreGw} {startIp : Nat} {reserved : List Ip} {limit : Option Nat}

/-! ## Hosts -/

/-- `ip_net.prefixlen`. -/
def prefixLenOf (f : Family) (network : CreGw) : Nat := network.prefixLen.getD f.bits

/-- How many addresses the network has. -/
def CreGw.size (f : Family) (network : CreGw) : Nat := 1 <<< (f.bits - prefixLenOf f network)

/-- The address of the network. -/
def CreGw.base (f : Family) (network : CreGw) : Nat := network.number / network.size f * network.size f

/-- The start address is in the network. -/
def StartInNetwork (f : Family) (startIp : Nat) (network : CreGw) : Prop :=
  network.base f ≤ startIp ∧ startIp < network.base f + network.size f

/-- The host addresses of the network, in increasing order. -/
def usableHosts (f : Family) (network : CreGw) : List Nat :=
  List.range' (hosts f (network.base f) (network.size f)).1
    ((hosts f (network.base f) (network.size f)).2 + 1 - (hosts f (network.base f) (network.size f)).1)

/-- The reserved addresses of the family. -/
def reservedNumbers (f : Family) (reserved : List Ip) : List Nat :=
  reserved.filterMap fun ip => if ip.family = f then some ip.number else none

/-- The hosts from the start on that are not reserved. -/
def freeHosts (f : Family) (startIp : Nat) (network : CreGw) (reserved : List Ip) : List Nat :=
  (usableHosts f network).filter fun n => decide (startIp ≤ n ∧ n ∉ reservedNumbers f reserved)

/-- The first elements, if there is a limit. -/
def cut (limit : Option Nat) (xs : List Nat) : List Nat :=
  match limit with
  | none => xs
  | some n => xs.take n

/-- The pool as it should be, each address with the prefix of the network. -/
def expectedPool (f : Family) (startIp : Nat) (network : CreGw) (reserved : List Ip) (limit : Option Nat) :
    List SrcIp :=
  (cut limit (freeHosts f startIp network reserved)).map fun n => .host ⟨f, n⟩ (prefixLenOf f network)

/-- **The pool is as it should be**, and the gateway is not in it. -/
def PoolOk (f : Family) (startIp : Nat) (network : CreGw) (reserved : List Ip) (limit : Option Nat) : Prop :=
  createIpPool f startIp network reserved limit = .ok (expectedPool f startIp network reserved limit) ∧
    ∀ ip ∈ expectedPool f startIp network reserved limit, ip.ip ≠ ⟨f, network.number⟩

/-- The start address is a host, or nothing is free or wanted. -/
def StartEnumerated (f : Family) (startIp : Nat) (network : CreGw) (reserved : List Ip) (limit : Option Nat) : Prop :=
  startIp ∈ usableHosts f network ∨ limit = some 0 ∨ freeHosts f startIp network reserved = []

/-- The gateway is not a free host, or the limit is reached before it. -/
def GatewayOutside (f : Family) (startIp : Nat) (network : CreGw) (reserved : List Ip) (limit : Option Nat) : Prop :=
  network.number ∉ freeHosts f startIp network reserved ∨
    ∃ n, limit = some n ∧ n ≤ (freeHosts f startIp network reserved).countP fun m => decide (m < network.number)

/-! ## Cuts -/

theorem cut_eq_nil {xs : List Nat} : cut limit xs = [] ↔ limit = some 0 ∨ xs = [] := by
  cases limit with
  | none => simp [cut]
  | some n => simp [cut, List.take_eq_nil_iff]

theorem cut_cons {x : Nat} {xs : List Nat} (h : limit ≠ some 0) :
    cut limit (x :: xs) = x :: cut (limit.map (· - 1)) xs := by
  cases limit with
  | none => rfl
  | some n =>
      obtain ⟨m, rfl⟩ := Nat.exists_eq_succ_of_ne_zero fun hzero => h (congrArg some hzero)
      rfl

/-- **The free numbers** in order, up to the limit. -/
theorem takeFree_eq (reserved : List Nat) (remaining : Nat) : ∀ (limit : Option Nat) (next : Nat),
    takeFree reserved limit remaining next =
      cut limit ((List.range' next remaining).filter fun n => decide (n ∉ reserved)) := by
  induction remaining with
  | zero =>
      intro limit next
      cases limit <;> simp [takeFree, cut]
  | succ remaining ih =>
      intro limit next
      rw [takeFree, List.range'_succ]
      by_cases hlimit : limit = some 0
      · rw [if_pos hlimit, cut_eq_nil.mpr (.inl hlimit)]
      rw [if_neg hlimit]
      by_cases hmem : next ∈ reserved
      · rw [if_pos hmem, ih, List.filter_cons_of_neg (by simpa using hmem)]
      · rw [if_neg hmem, ih, List.filter_cons_of_pos (by simpa using hmem), cut_cons hlimit]

/-- An element is cut off if and only if the limit is reached before it. -/
theorem mem_take_iff {xs : List Nat} (h : xs.Pairwise (· < ·)) (n x : Nat) :
    x ∈ xs.take n ↔ x ∈ xs ∧ xs.countP (fun m => decide (m < x)) < n := by
  induction xs generalizing n with
  | nil => simp
  | cons y xs ih =>
      obtain ⟨hy, hxs⟩ := List.pairwise_cons.mp h
      cases n with
      | zero => simp
      | succ n =>
          rw [List.take_succ_cons, List.mem_cons, List.mem_cons, ih hxs]
          by_cases hlt : y < x
          · rw [List.countP_cons_of_pos (by simpa using hlt)]
            have hne : x ≠ y := by omega
            simp [hne]
          · rw [List.countP_cons_of_neg (by simpa using hlt)]
            have hnone : x ∈ xs → False := fun hx => hlt (hy x hx)
            have hcount : x = y → xs.countP (fun m => decide (m < x)) = 0 := by
              rintro rfl
              exact List.countP_eq_zero.mpr fun m hm => by simpa using Nat.le_of_lt (hy m hm)
            constructor
            · rintro (heq | ⟨hx, -⟩)
              · exact ⟨.inl heq, by rw [hcount heq]; omega⟩
              · exact absurd hx hnone
            · rintro ⟨heq | hx, -⟩
              · exact .inl heq
              · exact absurd hx hnone

/-! ## The pool -/

theorem mem_usableHosts {n : Nat} : n ∈ usableHosts f network ↔
    (hosts f (network.base f) (network.size f)).1 ≤ n ∧ n ≤ (hosts f (network.base f) (network.size f)).2 := by
  unfold usableHosts
  rw [List.mem_range'_1]
  omega

theorem pairwise_freeHosts : (freeHosts f startIp network reserved).Pairwise (· < ·) :=
  List.Pairwise.filter _ List.pairwise_lt_range'

/-- From a host on, the free hosts are those among the addresses from it on. -/
theorem freeHosts_eq (hstart : startIp ∈ usableHosts f network) : freeHosts f startIp network reserved =
    (List.range' startIp ((hosts f (network.base f) (network.size f)).2 + 1 - startIp)).filter
      fun n => decide (n ∉ reservedNumbers f reserved) := by
  obtain ⟨hfirst, hlast⟩ := mem_usableHosts.mp hstart
  unfold freeHosts usableHosts
  generalize (hosts f (network.base f) (network.size f)).1 = first at hfirst
  generalize (hosts f (network.base f) (network.size f)).2 = last at hlast
  have hsplit : List.range' first (last + 1 - first) =
      List.range' first (startIp - first) ++ List.range' startIp (last + 1 - startIp) := by
    have hlength : last + 1 - first = startIp - first + (last + 1 - startIp) := by omega
    rw [hlength, ← List.range'_append_1, Nat.add_sub_cancel' hfirst]
  have hbefore : (List.range' first (startIp - first)).filter
      (fun n => decide (startIp ≤ n ∧ n ∉ reservedNumbers f reserved)) = [] := by
    refine List.filter_eq_nil_iff.mpr fun n hn => ?_
    have hlt := (List.mem_range'_1.mp hn).2
    simp only [decide_eq_true_eq, not_and]
    omega
  rw [hsplit, List.filter_append, hbefore, List.nil_append]
  refine List.filter_congr fun n hn => ?_
  have hle := (List.mem_range'_1.mp hn).1
  exact decide_eq_decide.mpr (and_iff_right hle)

theorem createIpPool_branches : createIpPool f startIp network reserved limit =
    if f.bits < prefixLenOf f network then .error (.value "does not appear to be an IPv4 or IPv6 network")
    else if startIp < network.base f ∨ network.base f + network.size f ≤ startIp then
      .error (.startNotInNetwork startIp network)
    else if startIp < (hosts f (network.base f) (network.size f)).1 ∨
        (hosts f (network.base f) (network.size f)).2 < startIp then .ok []
    else .ok ((takeFree (reservedNumbers f reserved) limit
      ((hosts f (network.base f) (network.size f)).2 + 1 - startIp) startIp).map
        fun n => .host ⟨f, n⟩ (prefixLenOf f network)) := rfl

/-- **The pool**: what is expected, from a host on, and nothing otherwise. -/
theorem createIpPool_eq (hbits : prefixLenOf f network ≤ f.bits) (hstart : StartInNetwork f startIp network) :
    createIpPool f startIp network reserved limit =
      .ok (if startIp ∈ usableHosts f network then expectedPool f startIp network reserved limit else []) := by
  obtain ⟨hbase, hend⟩ := hstart
  rw [createIpPool_branches, if_neg (Nat.not_lt.mpr hbits), if_neg (by omega)]
  by_cases hmem : startIp ∈ usableHosts f network
  · have hbounds := mem_usableHosts.mp hmem
    rw [if_neg (by omega), if_pos hmem, expectedPool, freeHosts_eq hmem, takeFree_eq]
  · have hbounds := mt mem_usableHosts.mpr hmem
    rw [if_pos (by omega), if_neg hmem]

theorem gatewayOutside_iff : (∀ ip ∈ expectedPool f startIp network reserved limit, ip.ip ≠ ⟨f, network.number⟩) ↔
    GatewayOutside f startIp network reserved limit := by
  have hmem : (∀ ip ∈ expectedPool f startIp network reserved limit, ip.ip ≠ ⟨f, network.number⟩) ↔
      network.number ∉ cut limit (freeHosts f startIp network reserved) := by
    unfold expectedPool
    constructor
    · intro h hgw
      exact h _ (List.mem_map.mpr ⟨_, hgw, rfl⟩) rfl
    · rintro h ip hip heq
      obtain ⟨n, hn, rfl⟩ := List.mem_map.mp hip
      obtain rfl : n = network.number := congrArg Ip.number heq
      exact h hn
  rw [hmem]
  unfold GatewayOutside
  cases limit with
  | none => simp [cut]
  | some n =>
      have hpairwise : (freeHosts f startIp network reserved).Pairwise (· < ·) := pairwise_freeHosts
      simp only [cut, mem_take_iff hpairwise, Option.some.injEq, exists_eq_left', not_and_or, Nat.not_lt]

/-- **The pool is as it should be** if and only if the start address is a host, or there is nothing to give, and the
gateway is not a free host within the limit. -/
theorem poolOk_iff (hbits : prefixLenOf f network ≤ f.bits) (hstart : StartInNetwork f startIp network) :
    PoolOk f startIp network reserved limit ↔
      StartEnumerated f startIp network reserved limit ∧ GatewayOutside f startIp network reserved limit := by
  unfold PoolOk
  rw [gatewayOutside_iff, createIpPool_eq hbits hstart]
  refine and_congr_left fun _ => ?_
  unfold StartEnumerated
  by_cases hmem : startIp ∈ usableHosts f network
  · rw [if_pos hmem]
    exact iff_of_true rfl (.inl hmem)
  · have hnil : expectedPool f startIp network reserved limit = [] ↔
        limit = some 0 ∨ freeHosts f startIp network reserved = [] := by
      unfold expectedPool
      rw [List.map_eq_nil_iff, cut_eq_nil]
    rw [if_neg hmem, Except.ok.injEq, eq_comm, hnil]
    simp [hmem]

/-- The network 10.0.0.0/29, with its gateway at 10.0.0.1. -/
def smallNetwork : CreGw := ⟨"10.0.0.1", 167772161, some 29⟩

/-- From 10.0.0.2 on, without 10.0.0.4. -/
theorem pool_sample : PoolOk .v4 167772162 smallNetwork [⟨.v4, 167772164⟩] none :=
  (poolOk_iff (by decide) ⟨by decide, by decide⟩).mpr ⟨.inl (by decide), .inl (by decide)⟩

/-- **The address of the network** as the start makes the pool empty, and from the first host on the gateway is in the
pool. -/
theorem pool_wrong : ¬ PoolOk .v4 167772160 smallNetwork [] none ∧ ¬ PoolOk .v4 167772161 smallNetwork [] none := by
  constructor
  · rintro ⟨hpool, -⟩
    have hempty : createIpPool .v4 167772160 smallNetwork [] none = .ok [] := rfl
    have hnil := Except.ok.inj (hempty.symm.trans hpool)
    revert hnil
    decide
  · rintro ⟨-, hgateway⟩
    exact hgateway (.host ⟨.v4, 167772161⟩ 29) (by decide) rfl

end Workbench.Olt
