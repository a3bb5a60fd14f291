import Mathlib.Order.Bounds.Basic
import Workbench.Dhcp.Hosts
import Workbench.Lib.System

/-!
# `Dhcp.Runs` — the trie simulates the set of live hosts

A run creates a server and then allocates and frees addresses. The set of live hosts and the addresses that were
returned for them are kept beside the server.

## Main results
* `allocateHost_taken`, `allocateHost_fails`, `allocateHost_specific` — what an allocation does;
* `inv_step` — the marked leaves are the live hosts and the two reserved ones;
* `simulates` — over every run, allocations, counts and marks agree with the set of live hosts.
-/

namespace Workbench.Dhcp

open BitTrie

/-! ## Runs -/

structure State where
  dhcp : Dhcp
  /-- The hosts that are allocated and not freed. -/
  live : Finset Nat
  /-- The addresses that were returned by allocations and not freed. -/
  addresses : List Ip

/-- The host of an address. -/
def hostOf (dhcp : Dhcp) (ip : Ip) : Nat := (hostBits dhcp ip).toNat

/-- `DhcpAllocateIp`, with what is kept beside the server. -/
def State.allocate (s : State) (allocatedIp requestedIp : Ip) : State where
  dhcp := (dhcpAllocateIp s.dhcp allocatedIp requestedIp).2.2
  live :=
    if (allocateHost s.dhcp allocatedIp requestedIp).1 = .success then
      insert (allocateHost s.dhcp allocatedIp requestedIp).2.2.toNat s.live
    else s.live
  addresses :=
    if (dhcpAllocateIp s.dhcp allocatedIp requestedIp).1 = .success then
      (dhcpAllocateIp s.dhcp allocatedIp requestedIp).2.1 :: s.addresses
    else s.addresses

/-- `DhcpFreeIp`, with what is kept beside the server. -/
def State.free (s : State) (ip : Ip) (result : DhcpStatus × Dhcp) : State where
  dhcp := result.2
  live := if result.1 = .success then s.live.erase (hostOf s.dhcp ip) else s.live
  addresses := if result.1 = .success then s.addresses.erase ip else s.addresses

inductive Act
  | allocate (allocatedIp requestedIp : Ip)
  | free (ip : Ip)

inductive Step : State → Act → State → Prop
  | allocate (s : State) (allocatedIp requestedIp : Ip) :
      Step s (.allocate allocatedIp requestedIp) (s.allocate allocatedIp requestedIp)
  | free {s : State} {ip : Ip} {result : DhcpStatus × Dhcp} : dhcpFreeIp s.dhcp ip = some result →
      Step s (.free ip) (s.free ip result)

/-- The runs of a server of the subnet, with the length of its prefix. -/
def system (subNet : Ip) (numOfBitsForNetwork : Nat) : System State Act where
  init := fun s => s = ⟨dhcpCreate subNet numOfBitsForNetwork, ∅, []⟩
  step := Step

/-! ## The invariant -/

/-- The host is neither live nor one of the two that are reserved. -/
def Free (p : Nat) (s : State) (h : Nat) : Prop := h ≠ 0 ∧ h + 1 < 2 ^ (32 - p) ∧ h ∉ s.live

/-- The leaf is missing, and the node above it is there. -/
def Missing (p : Nat) (s : State) (h : Nat) : Prop := Orphan (32 - p) s.dhcp.root h

/-- What holds over every run: the prefix and the subnet stay, and the marked leaves are the live hosts and the two
    reserved ones. With one bit for hosts nothing ever changes. -/
structure Inv (subNet : Ip) (p : Nat) (s : State) : Prop where
  bits : s.dhcp.numOfBitsForNetwork = p
  subNet : s.dhcp.subNet = subNet
  sound : p ≤ 30 → Sound (32 - p) s.dhcp.root
  single : p = 31 → s.dhcp.root = dhcpInit 1
  marked : ∀ h < 2 ^ (32 - p), leaf (32 - p) s.dhcp.root h = some true ↔ ¬ Free p s h
  live : ∀ h ∈ s.live, h ≠ 0 ∧ h + 1 < 2 ^ (32 - p)

variable {subNet allocatedIp requestedIp ip : Ip} {p h k : Nat} {s s' : State}

theorem hostOf_eq (hp : s.dhcp.numOfBitsForNetwork = p) (hle : p ≤ 32) (ip : Ip) :
    hostOf s.dhcp ip = ip.toNat % 2 ^ (32 - p) := by
  unfold hostOf hostBits
  rw [BitVec.toNat_ushiftRight, BitVec.toNat_shiftLeft, hp, Nat.shiftRight_eq_div_pow, Nat.shiftLeft_eq,
    Nat.mul_comm]
  have hsplit : 2 ^ 32 = 2 ^ p * 2 ^ (32 - p) := by
    rw [← Nat.pow_add, Nat.add_sub_cancel' hle]
  rw [hsplit, Nat.mul_mod_mul_left, Nat.mul_div_cancel_left _ (Nat.two_pow_pos p)]

theorem hostOf_lt (hp : s.dhcp.numOfBitsForNetwork = p) (hle : p ≤ 32) (ip : Ip) :
    hostOf s.dhcp ip < 2 ^ (32 - p) := by
  rw [hostOf_eq hp hle]
  exact Nat.mod_lt _ (Nat.two_pow_pos _)

theorem Inv.numOfBits (h : Inv subNet p s) : s.dhcp.numOfBits = 32 - p := by
  show ipLength - _ = _
  rw [h.bits]
  rfl

/-- With one bit for hosts no host is free. -/
theorem not_free_single (s : State) : ¬ Free 31 s h := by
  rintro ⟨hne, hlt, -⟩
  have hlt' : h + 1 < 2 := hlt
  omega

theorem inv_init (hp : p ≤ 31) : Inv subNet p ⟨dhcpCreate subNet p, ∅, []⟩ where
  bits := rfl
  subNet := rfl
  sound hle := by
    show Sound (32 - p) (dhcpInit (32 - p))
    rw [show 32 - p = 30 - p + 2 by omega]
    exact sound_dhcpInit _
  single hp := by
    subst hp
    rfl
  marked h hlt := by
    show leaf (32 - p) (dhcpInit (32 - p)) h = some true ↔ _
    rw [leaf_dhcpInit (by omega) hlt]
    by_cases hreserved : h = 0 ∨ h + 1 = 2 ^ (32 - p)
    · rw [if_pos hreserved]
      refine iff_of_true rfl ?_
      rintro ⟨hne, hlt', -⟩
      omega
    · rw [if_neg hreserved]
      refine iff_of_false nofun (not_not_intro ⟨by omega, by omega, Finset.notMem_empty h⟩)
  live h hmem := absurd hmem (Finset.notMem_empty h)

/-- A host counts as occupied: it is not free, or its leaf is missing. -/
theorem Inv.isOccupied_iff (h : Inv subNet p s) (hp : p ≤ 31) (ip : Ip) :
    isOccupied s.dhcp (hostBits s.dhcp ip) = true ↔
      ¬ Free p s (hostOf s.dhcp ip) ∨ Missing p s (hostOf s.dhcp ip) := by
  have hlt := hostOf_lt h.bits (show p ≤ 32 by omega) ip
  unfold isOccupied
  rw [h.numOfBits]
  rcases Nat.lt_or_ge p 31 with hlt' | hge
  · have hsound := h.sound (by omega)
    rw [show 32 - p = 31 - p + 1 by omega] at hsound hlt ⊢
    rw [isOccupiedLoop_iff (by omega) hsound]
    show leaf _ _ (hostOf s.dhcp ip % _) = _ ∨ Orphan _ _ (hostOf s.dhcp ip % _) ↔ _
    rw [Nat.mod_eq_of_lt hlt]
    have hmarked := h.marked (hostOf s.dhcp ip)
    unfold Missing
    rw [show 32 - p = 31 - p + 1 by omega] at hmarked ⊢
    rw [hmarked hlt]
  · -- both leaves are marked from the start
    obtain rfl : p = 31 := by omega
    refine iff_of_true ?_ (.inl (not_free_single s))
    rw [h.single rfl]
    show isOccupiedLoop _ (.node false (.node true .nil .nil) (.node true .nil .nil)) (BitVec.ofNat 64 (0 + 1)) = true
    rw [isOccupiedLoop_node (by omega), Bool.false_or]
    split <;> rfl

/-! ## Allocation -/

/-- The host becomes live: its leaf is marked. -/
theorem Inv.insert_live {root : Node} (h : Inv subNet p s) (hp : p ≤ 30) (hk : Free p s k)
    (hsound : Sound (32 - p) root) (hsets : Sets (32 - p) s.dhcp.root root k true) {addresses : List Ip} :
    Inv subNet p ⟨{ s.dhcp with root }, insert k s.live, addresses⟩ where
  bits := h.bits
  subNet := h.subNet
  sound _ := hsound
  single := by omega
  marked j hj := by
    show leaf (32 - p) root j = some true ↔ _
    rw [hsets j hj]
    -- the leaf of the host is marked, and the others stay
    by_cases heq : j = k
    · rw [if_pos heq]
      refine iff_of_true rfl ?_
      rintro ⟨-, -, hnot⟩
      exact hnot (heq ▸ Finset.mem_insert_self k s.live)
    · rw [if_neg heq, h.marked j hj]
      refine not_congr (and_congr_right fun _ => and_congr_right fun _ => not_congr ?_)
      rw [Finset.mem_insert, or_iff_right heq]
  live j hj := by
    rcases Finset.mem_insert.mp hj with rfl | hj
    · exact ⟨hk.1, hk.2.1⟩
    · exact h.live j hj

/-- A request for which the smallest host is allocated: none, or one for a host that counts as occupied. -/
def Taken (p : Nat) (s : State) (requestedIp : Ip) : Prop :=
  requestedIp = 0 ∨ ¬ Free p s (hostOf s.dhcp requestedIp) ∨ Missing p s (hostOf s.dhcp requestedIp)

theorem Inv.taken_iff (h : Inv subNet p s) (hp : p ≤ 31) (requestedIp : Ip) :
    (requestedIp = 0 ∨ isOccupied s.dhcp (hostBits s.dhcp requestedIp) = true) ↔ Taken p s requestedIp :=
  or_congr_right (h.isOccupied_iff hp requestedIp)

/-- The root is there. -/
theorem Inv.created_root (h : Inv subNet p s) : created s.dhcp.root = s.dhcp.root := by
  cases hnode : s.dhcp.root with
  | node full zero one => rfl
  | nil =>
      have hzero := (h.marked 0 (Nat.two_pow_pos _)).mpr fun hfree => hfree.1 rfl
      rw [hnode, leaf_nil] at hzero
      cases hzero

/-- The root is not full when a host is free. -/
theorem Inv.isFull_root (h : Inv subNet p s) (hp : p ≤ 30) (hk : Free p s k) : isFull s.dhcp.root = false := by
  rw [Bool.eq_false_iff]
  intro hfull
  have hlt : k < 2 ^ (32 - p) := Nat.lt_of_succ_lt hk.2.1
  exact (h.marked k hlt).mp ((isFull_iff (h.sound hp)).mp hfull k hlt) hk

theorem smallest_bits (hp : p ≤ 32) (hk : k < 2 ^ (32 - p)) {bits : Ip}
    (hbits : bits.toNat = k * 2 ^ (32 - (32 - p)) + allocatedIp.toNat / 2 ^ (32 - p)) :
    bits >>> p = BitVec.ofNat 32 k := by
  have hsplit : 2 ^ p * 2 ^ (32 - p) = 2 ^ 32 := by
    rw [← Nat.pow_add, Nat.add_sub_cancel' hp]
  have hold : allocatedIp.toNat / 2 ^ (32 - p) / 2 ^ p = 0 := by
    rw [Nat.div_div_eq_div_mul, Nat.mul_comm, hsplit]
    exact Nat.div_eq_of_lt allocatedIp.isLt
  have hle : 2 ^ (32 - p) ≤ 2 ^ 32 := Nat.pow_le_pow_right (by decide) (Nat.sub_le _ _)
  apply BitVec.eq_of_toNat_eq
  rw [BitVec.toNat_ushiftRight, Nat.shiftRight_eq_div_pow, hbits, BitVec.toNat_ofNat,
    Nat.mod_eq_of_lt (Nat.lt_of_lt_of_le hk hle), show 32 - (32 - p) = p by omega, Nat.add_comm,
    Nat.add_mul_div_right _ _ (Nat.two_pow_pos p), hold, Nat.zero_add]

/-- **The smallest free host** is allocated when the request is taken. -/
theorem allocateHost_taken (h : Inv subNet p s) (hp : p ≤ 30) (htaken : Taken p s requestedIp) (hk : Free p s k) :
    ∃ k root, IsLeast {h | Free p s h} k ∧ Sound (32 - p) root ∧ Sets (32 - p) s.dhcp.root root k true ∧
      ∀ allocatedIp, allocateHost s.dhcp allocatedIp requestedIp = (.success, root, BitVec.ofNat 32 k) := by
  have hfull := h.isFull_root hp hk
  have hspec := fun a => allocateSmallestIp_spec a (Nat.sub_le 32 p) (h.sound hp) hfull
  rw [h.created_root] at hspec
  have hnode := allocateSmallestIp_node (32 - p) s.dhcp.root
  obtain ⟨k, hsmallest, hok, hsound, hsets, -⟩ := hspec 0
  obtain ⟨hk, hkfree, hbelow⟩ := hsmallest
  -- the leaves below it are marked, so their hosts are not free
  have hleast : IsLeast {h | Free p s h} k := by
    refine ⟨?_, fun j hj => ?_⟩
    · by_contra hnot
      exact hkfree ((h.marked k hk).mpr hnot)
    · by_contra hlt
      have hmarked := hbelow j (by omega)
      exact (h.marked j (by omega)).mp hmarked hj
  refine ⟨k, _, hleast, hsound, hsets, fun a => ?_⟩
  -- the smallest host is the same whatever the address was before
  obtain ⟨k', hsmallest', -, -, -, hbits⟩ := hspec a
  obtain rfl := hsmallest'.unique ⟨hk, hkfree, hbelow⟩
  unfold allocateHost
  rw [if_pos ((h.taken_iff (by omega) requestedIp).mpr htaken), h.numOfBits]
  simp only [(hnode a 0).1, (hnode a 0).2, hok, if_true, h.bits]
  rw [smallest_bits (by omega) hk hbits]

/-- **A host that is asked for** is allocated when it is free and its leaf is not missing. -/
theorem allocateHost_specific (h : Inv subNet p s) (hp : p ≤ 30) (htaken : ¬ Taken p s requestedIp) :
    Free p s (hostOf s.dhcp requestedIp) ∧ ∃ root, Sound (32 - p) root ∧
      Sets (32 - p) s.dhcp.root root (hostOf s.dhcp requestedIp) true ∧
      ∀ allocatedIp, allocateHost s.dhcp allocatedIp requestedIp =
        (.success, root, BitVec.ofNat 32 (hostOf s.dhcp requestedIp)) := by
  have hfree : Free p s (hostOf s.dhcp requestedIp) := by
    by_contra hnot
    exact htaken (.inr (.inl hnot))
  obtain ⟨hsound, hsets⟩ := allocateSpecificIp_spec (hostBits s.dhcp requestedIp) (h.sound hp)
  have hlt : hostOf s.dhcp requestedIp < 2 ^ (32 - p) := hostOf_lt h.bits (by omega) requestedIp
  have hmod : (hostBits s.dhcp requestedIp).toNat % 2 ^ (32 - p) = hostOf s.dhcp requestedIp := Nat.mod_eq_of_lt hlt
  rw [h.created_root] at hsound hsets
  rw [hmod] at hsets
  refine ⟨hfree, _, hsound, hsets, fun a => ?_⟩
  unfold allocateHost
  rw [if_neg fun hnot => htaken ((h.taken_iff (by omega) requestedIp).mp hnot), h.numOfBits, hostOf,
    BitVec.ofNat_toNat, BitVec.setWidth_eq]

/-- **An allocation fails** when no host is free, and changes nothing. -/
theorem allocateHost_fails (h : Inv subNet p s) (hp : p ≤ 31) (hnone : ∀ k, ¬ Free p s k) (allocatedIp : Ip) :
    (allocateHost s.dhcp allocatedIp requestedIp).1 = .mallocFailure ∧
      (allocateHost s.dhcp allocatedIp requestedIp).2.1 = s.dhcp.root := by
  have htaken : Taken p s requestedIp := .inr (.inl (hnone _))
  have hsmallest : (allocateSmallestIp (32 - p) s.dhcp.root allocatedIp).1 = false ∧
      (allocateSmallestIp (32 - p) s.dhcp.root allocatedIp).2.1 = s.dhcp.root := by
    -- every leaf is marked, so the root is full; with one bit for hosts only the sons of the root are
    rcases Nat.lt_or_ge p 31 with hlt | hge
    · have hfull : isFull s.dhcp.root = true :=
        (isFull_iff (h.sound (by omega))).mpr fun k hk => (h.marked k hk).mpr (hnone k)
      rw [allocateSmallestIp_full hfull]
      exact ⟨rfl, rfl⟩
    · obtain rfl : p = 31 := by omega
      rw [h.single rfl]
      exact ⟨rfl, rfl⟩
  unfold allocateHost
  rw [if_pos ((h.taken_iff hp requestedIp).mpr htaken), h.numOfBits]
  simp only [hsmallest.1, hsmallest.2, Bool.false_eq_true, if_false, and_self]

/-- Without a free host, a request does not change the state. -/
theorem State.allocate_fails (hfails : (allocateHost s.dhcp allocatedIp requestedIp).1 = .mallocFailure)
    (hroot : (allocateHost s.dhcp allocatedIp requestedIp).2.1 = s.dhcp.root) :
    s.allocate allocatedIp requestedIp = s := by
  unfold State.allocate dhcpAllocateIp
  simp only [hfails, hroot, reduceCtorEq, if_false]

theorem dhcpAllocateIp_host {root : Node} {bits : Ip}
    (hhost : allocateHost s.dhcp allocatedIp requestedIp = (.success, root, bits)) :
    dhcpAllocateIp s.dhcp allocatedIp requestedIp = (.success, bits ||| s.dhcp.subNet, { s.dhcp with root }) := by
  unfold dhcpAllocateIp
  rw [hhost]

theorem State.allocate_host {root : Node}
    (hhost : allocateHost s.dhcp allocatedIp requestedIp = (.success, root, BitVec.ofNat 32 k))
    (hk : k < 4294967296) :
    s.allocate allocatedIp requestedIp =
      ⟨{ s.dhcp with root }, insert k s.live, (BitVec.ofNat 32 k ||| s.dhcp.subNet) :: s.addresses⟩ := by
  have hnat : (BitVec.ofNat 32 k).toNat = k := by
    rw [BitVec.toNat_ofNat]
    exact Nat.mod_eq_of_lt hk
  unfold State.allocate dhcpAllocateIp
  simp only [hhost, if_true, hnat]

/-- What an allocation does: it takes a free host, or fails because there is none. -/
theorem Inv.allocate (h : Inv subNet p s) (hp : p ≤ 31) (requestedIp : Ip) :
    (∃ k, Free p s k ∧ (Taken p s requestedIp → IsLeast {h | Free p s h} k) ∧
        (¬ Taken p s requestedIp → k = hostOf s.dhcp requestedIp) ∧ ∃ root,
          (∀ allocatedIp, allocateHost s.dhcp allocatedIp requestedIp = (.success, root, BitVec.ofNat 32 k)) ∧
          ∀ addresses, Inv subNet p ⟨{ s.dhcp with root }, insert k s.live, addresses⟩) ∨
      (∀ k, ¬ Free p s k) ∧ ∀ allocatedIp, (allocateHost s.dhcp allocatedIp requestedIp).1 = .mallocFailure ∧
        (allocateHost s.dhcp allocatedIp requestedIp).2.1 = s.dhcp.root := by
  -- an allocation succeeds exactly if a host is free
  by_cases hsome : ∃ k, Free p s k
  · left
    obtain ⟨k₀, hk₀⟩ := hsome
    have hp' : p ≤ 30 := by
      by_contra hnot
      obtain rfl : p = 31 := by omega
      exact not_free_single s hk₀
    by_cases htaken : Taken p s requestedIp
    · obtain ⟨k, root, hleast, hsound, hsets, hhost⟩ := allocateHost_taken h hp' htaken hk₀
      exact ⟨k, hleast.1, fun _ => hleast, fun hnot => absurd htaken hnot, root, hhost,
        fun _ => h.insert_live hp' hleast.1 hsound hsets⟩
    · obtain ⟨hfree, root, hsound, hsets, hhost⟩ := allocateHost_specific h hp' htaken
      exact ⟨_, hfree, fun h => absurd h htaken, fun _ => rfl, root, hhost,
        fun _ => h.insert_live hp' hfree hsound hsets⟩
  · right
    have hnone : ∀ k, ¬ Free p s k := fun k hk => hsome ⟨k, hk⟩
    exact ⟨hnone, fun a => allocateHost_fails h hp hnone a⟩

theorem Free.lt (hk : Free p s k) : k < 4294967296 := by
  have hle : 2 ^ (32 - p) ≤ 2 ^ 32 := Nat.pow_le_pow_right (by decide) (Nat.sub_le _ _)
  have hlt := hk.2.1
  omega

/-! ## Freeing -/

theorem reserved_iff (h : Inv subNet p s) (hp : p ≤ 31) (ip : Ip) :
    (hostBits s.dhcp ip = 0 ∨ hostBits s.dhcp ip = allIpBitsOn >>> s.dhcp.numOfBitsForNetwork) ↔
      hostOf s.dhcp ip = 0 ∨ hostOf s.dhcp ip + 1 = 2 ^ (32 - p) := by
  have hpos := Nat.two_pow_pos (32 - p)
  have hlast : (allIpBitsOn >>> p).toNat = 2 ^ (32 - p) - 1 := by
    rw [BitVec.toNat_ushiftRight, Nat.shiftRight_eq_div_pow]
    show (2 ^ 32 - 1) / 2 ^ p = _
    have hsplit : 2 ^ 32 = 2 ^ p * 2 ^ (32 - p) := by
      rw [← Nat.pow_add, Nat.add_sub_cancel' (by omega)]
    rw [hsplit]
    have hdiv := Nat.mul_sub_div 0 (2 ^ p) (2 ^ (32 - p)) (Nat.mul_pos (Nat.two_pow_pos p) hpos)
    rw [Nat.zero_div, Nat.zero_add] at hdiv
    exact hdiv
  unfold hostOf
  rw [h.bits, ← BitVec.toNat_inj, ← BitVec.toNat_inj, hlast]
  show (_ = 0 ∨ _) ↔ _
  omega

/-- The host is not live any more: its leaf is not marked. -/
theorem Inv.erase_live {root : Node} (h : Inv subNet p s) (hp : p ≤ 30) (hk : k ∈ s.live)
    (hsound : Sound (32 - p) root) (hsets : Sets (32 - p) s.dhcp.root root k false) {addresses : List Ip} :
    Inv subNet p ⟨{ s.dhcp with root }, s.live.erase k, addresses⟩ where
  bits := h.bits
  subNet := h.subNet
  sound _ := hsound
  single := by omega
  marked j hj := by
    show leaf (32 - p) root j = some true ↔ _
    rw [hsets j hj]
    by_cases heq : j = k
    · rw [if_pos heq]
      obtain ⟨hne, hlt⟩ := h.live k hk
      refine iff_of_false nofun (not_not_intro ?_)
      rw [heq]
      exact ⟨hne, hlt, Finset.notMem_erase k s.live⟩
    · rw [if_neg heq, h.marked j hj]
      refine not_congr (and_congr_right fun _ => and_congr_right fun _ => not_congr ?_)
      rw [Finset.mem_erase, and_iff_right heq]
  live j hj := h.live j (Finset.mem_of_mem_erase hj)

/-- **The four ways of a call.** The host is reserved; or it is live, and its leaf is not marked any more; or it is
    free, and then its leaf is missing and dereferenced, or nothing happens. -/
theorem Inv.free_cases (h : Inv subNet p s) (hp : p ≤ 31) (ip : Ip) :
    ((hostOf s.dhcp ip = 0 ∨ hostOf s.dhcp ip + 1 = 2 ^ (32 - p)) ∧
        dhcpFreeIp s.dhcp ip = some (.freeFailure, s.dhcp)) ∨
      (hostOf s.dhcp ip ∈ s.live ∧ p ≤ 30 ∧ ∃ root, Sound (32 - p) root ∧
        Sets (32 - p) s.dhcp.root root (hostOf s.dhcp ip) false ∧
        dhcpFreeIp s.dhcp ip = some (.success, { s.dhcp with root })) ∨
      (Free p s (hostOf s.dhcp ip) ∧ Missing p s (hostOf s.dhcp ip) ∧ dhcpFreeIp s.dhcp ip = none) ∨
      (Free p s (hostOf s.dhcp ip) ∧ ¬ Missing p s (hostOf s.dhcp ip) ∧
        dhcpFreeIp s.dhcp ip = some (.doubleFree, s.dhcp)) := by
  have hlt := hostOf_lt h.bits (show p ≤ 32 by omega) ip
  have hreserved := reserved_iff h hp ip
  have hoccupied := h.isOccupied_iff hp ip
  have hmarked := h.marked _ hlt
  have hmod : (hostBits s.dhcp ip).toNat % 2 ^ (32 - p) = hostOf s.dhcp ip := Nat.mod_eq_of_lt hlt
  unfold dhcpFreeIp
  by_cases hres : hostOf s.dhcp ip = 0 ∨ hostOf s.dhcp ip + 1 = 2 ^ (32 - p)
  · left
    exact ⟨hres, if_pos (hreserved.mpr hres)⟩
  right
  simp only [if_neg fun hnot => hres (hreserved.mp hnot)]
  have hp' : p ≤ 30 := by
    by_contra hnot
    obtain rfl : p = 31 := by omega
    have hlt' : hostOf s.dhcp ip < 2 := hlt
    omega
  by_cases hlive : hostOf s.dhcp ip ∈ s.live
  · -- a live host is marked, so it counts as occupied and its leaf is there
    left
    have hnot : ¬ Free p s (hostOf s.dhcp ip) := fun hfree => hfree.2.2 hlive
    have hleaf : leaf (32 - p) s.dhcp.root ((hostBits s.dhcp ip).toNat % 2 ^ (32 - p)) ≠ none := by
      rw [hmod, hmarked.mpr hnot]
      nofun
    obtain ⟨root, hfree, hsound, -, hsets⟩ := freeIp_spec (hostBits s.dhcp ip) (h.sound hp') hleaf
    rw [hmod] at hsets
    refine ⟨hlive, hp', root, hsound, hsets, ?_⟩
    rw [hoccupied.mpr (.inl hnot), if_neg Bool.false_ne_true.symm, h.numOfBits, hfree]
    rfl
  · right
    have hfree : Free p s (hostOf s.dhcp ip) := ⟨by omega, by omega, hlive⟩
    by_cases hmissing : Missing p s (hostOf s.dhcp ip)
    · left
      refine ⟨hfree, hmissing, ?_⟩
      rw [hoccupied.mpr (.inr hmissing), if_neg Bool.false_ne_true.symm, h.numOfBits,
        freeIp_none (by rw [hmod]; exact hmissing.1)]
      rfl
    · right
      refine ⟨hfree, hmissing, if_pos ?_⟩
      rw [Bool.eq_false_iff]
      intro hocc
      rcases hoccupied.mp hocc with hnot | hmiss
      · exact hnot hfree
      · exact hmissing hmiss

/-- **A live host is freed**, and only a live host can be. -/
theorem Inv.free (h : Inv subNet p s) (hp : p ≤ 31) :
    (hostOf s.dhcp ip ∈ s.live → ∃ dhcp', dhcpFreeIp s.dhcp ip = some (.success, dhcp')) ∧
      ∀ status dhcp', dhcpFreeIp s.dhcp ip = some (status, dhcp') →
        (status ≠ .success ∧ dhcp' = s.dhcp) ∨ (status = .success ∧ hostOf s.dhcp ip ∈ s.live ∧
          ∀ addresses, Inv subNet p ⟨dhcp', s.live.erase (hostOf s.dhcp ip), addresses⟩) := by
  rcases h.free_cases hp ip with ⟨hres, hcall⟩ | ⟨hlive, hp', root, hsound, hsets, hcall⟩ | ⟨hfree, -, hcall⟩ |
    ⟨hfree, -, hcall⟩
  · refine ⟨fun hlive => ?_, fun status dhcp' heq => ?_⟩
    · have hbounds := h.live _ hlive
      omega
    · rw [hcall] at heq
      cases heq
      exact .inl ⟨nofun, rfl⟩
  · refine ⟨fun _ => ⟨_, hcall⟩, fun status dhcp' heq => ?_⟩
    rw [hcall] at heq
    cases heq
    exact .inr ⟨rfl, hlive, fun _ => h.erase_live hp' hlive hsound hsets⟩
  · refine ⟨fun hlive => absurd hlive hfree.2.2, fun status dhcp' heq => ?_⟩
    rw [hcall] at heq
    cases heq
  · refine ⟨fun hlive => absurd hlive hfree.2.2, fun status dhcp' heq => ?_⟩
    rw [hcall] at heq
    cases heq
    exact .inl ⟨nofun, rfl⟩

/-! ## Every run -/

theorem Inv.addresses (h : Inv subNet p s) (addresses : List Ip) : Inv subNet p { s with addresses } :=
  ⟨h.bits, h.subNet, h.sound, h.single, h.marked, h.live⟩

/-- **One call** keeps the invariant. -/
theorem inv_step {a : Act} (hp : p ≤ 31) (h : Inv subNet p s) (hstep : Step s a s') : Inv subNet p s' := by
  cases hstep with
  | allocate allocatedIp requestedIp =>
      rcases h.allocate hp requestedIp with ⟨k, hk, -, -, root, hhost, hinv⟩ | ⟨-, hfails⟩
      · rw [State.allocate_host (hhost allocatedIp) hk.lt]
        exact hinv _
      · obtain ⟨hstatus, hroot⟩ := hfails allocatedIp
        rw [State.allocate_fails hstatus hroot]
        exact h
  | @free ip result hfree =>
      obtain ⟨status, dhcp'⟩ := result
      rcases (h.free hp).2 status dhcp' hfree with ⟨hstatus, rfl⟩ | ⟨rfl, -, hinv⟩
      · unfold State.free
        simp only [if_neg hstatus]
        exact h.addresses _
      · exact hinv _

theorem reachable_inv {ok : State → Act → Prop} (hp : p ≤ 31) (h : (system subNet p).Reachable ok s) :
    Inv subNet p s := by
  refine System.invariant ?_ (fun _ _ _ hinv _ hstep => inv_step hp hinv hstep) h
  rintro s rfl
  exact inv_init hp

/-! ## Counting and marks -/

/-- The marked leaves are the live hosts and the two reserved ones. -/
theorem Inv.leaves_eq (h : Inv subNet p s) :
    leaves (32 - p) s.dhcp.root true = insert 0 (insert (2 ^ (32 - p) - 1) s.live) := by
  have hpos := Nat.two_pow_pos (32 - p)
  ext k
  rw [mem_leaves, Finset.mem_insert, Finset.mem_insert]
  constructor
  · rintro ⟨hlt, hmarked⟩
    by_contra hnot
    refine (h.marked k hlt).mp hmarked ⟨by omega, by omega, fun hlive => hnot (.inr (.inr hlive))⟩
  · intro hk
    have hlt : k < 2 ^ (32 - p) := by
      rcases hk with rfl | rfl | hlive
      · exact hpos
      · omega
      · have hbounds := h.live k hlive
        omega
    refine ⟨hlt, (h.marked k hlt).mpr ?_⟩
    rintro ⟨hne, hlast, hnot⟩
    rcases hk with hk | hk | hk
    · exact hne hk
    · omega
    · exact hnot hk

theorem Inv.count (h : Inv subNet p s) (hp : p ≤ 31) :
    dhcpCountFree s.dhcp + s.live.card + 2 = 2 ^ (32 - p) := by
  have htwo : 2 ^ 1 ≤ 2 ^ (32 - p) := Nat.pow_le_pow_right (by decide) (show 1 ≤ 32 - p by omega)
  -- the reserved hosts are two, and not live
  have hcard : (insert 0 (insert (2 ^ (32 - p) - 1) s.live)).card = s.live.card + 2 := by
    rw [Finset.card_insert_of_notMem, Finset.card_insert_of_notMem]
    · intro hmem
      have hbounds := h.live _ hmem
      omega
    · intro hmem
      rcases Finset.mem_insert.mp hmem with heq | hlive
      · omega
      · exact (h.live 0 hlive).1 rfl
  have hoccupied : countOccupied s.dhcp.root (BitVec.ofNat 64 (32 - p)) = s.live.card + 2 := by
    rcases Nat.lt_or_ge p 31 with hlt | hge
    · rw [countOccupied_eq (Nat.sub_le _ _) (h.sound (by omega)), h.leaves_eq, hcard]
    · obtain rfl : p = 31 := by omega
      have hempty : s.live = ∅ := by
        refine Finset.eq_empty_of_forall_notMem fun k hk => ?_
        obtain ⟨hne, hlt⟩ := h.live k hk
        have hlt' : k + 1 < 2 := hlt
        omega
      rw [h.single rfl, hempty]
      rfl
  have hle : s.live.card + 2 ≤ 2 ^ (32 - p) := by
    rw [← hcard, ← h.leaves_eq]
    refine (Finset.card_filter_le _ _).trans ?_
    rw [Finset.card_range]
  unfold dhcpCountFree
  rw [h.numOfBits, hoccupied, Nat.one_shiftLeft]
  omega

theorem sound_nodeAt {m d q : Nat} {node : Node} (hs : Sound (m + d) node) : Sound m (nodeAt d node q) := by
  induction d generalizing node q with
  | zero => exact hs
  | succ d ih =>
      cases node with
      | nil =>
          rw [nodeAt_nil]
          exact sound_nil m
      | node full zero one =>
          rw [nodeAt]
          split
          · exact ih hs.2.1
          · exact ih hs.2.2

/-- **A node is marked** exactly if every host below it is live or reserved. -/
theorem Inv.isFull_nodeAt (h : Inv subNet p s) (hp : p ≤ 30) {d q : Nat} (hd : d ≤ 32 - p) (hq : q < 2 ^ d) :
    isFull (nodeAt d s.dhcp.root q) = true ↔ ∀ j < 2 ^ (32 - p - d), ¬ Free p s (q * 2 ^ (32 - p - d) + j) := by
  have hsum : 32 - p - d + d = 32 - p := Nat.sub_add_cancel hd
  have hsound := h.sound hp
  rw [← hsum] at hsound
  rw [isFull_iff (sound_nodeAt hsound)]
  refine forall_congr' fun j => forall_congr' fun hj => ?_
  -- the hosts below the node are hosts of the subnet
  have hlt : q * 2 ^ (32 - p - d) + j < 2 ^ (32 - p) := by
    have hle : (q + 1) * 2 ^ (32 - p - d) ≤ 2 ^ d * 2 ^ (32 - p - d) := Nat.mul_le_mul_right _ hq
    rw [Nat.add_mul, ← Nat.pow_add, Nat.add_comm d, hsum] at hle
    omega
  have hmarked := h.marked _ hlt
  have hleaf := leaf_nodeAt (t := s.dhcp.root) hq hj
  rw [hsum] at hleaf
  rw [← hleaf]
  exact hmarked

/-! ## The simulation -/

/-- **The trie simulates the set of live hosts**, in every state of every run. A request gets a free host, with bits
    that do not depend on what the address was before, and fails exactly if there is none; without a wish it gets the
    smallest one. A live host can be freed. The count is right, and with two bits for hosts or more, a node is marked
    exactly if every host below it is live or reserved. -/
theorem simulates (hp : p ≤ 31) (h : (system subNet p).Reachable System.Any s) :
    (∀ requestedIp,
      (∃ k, Free p s k ∧ (requestedIp = 0 → IsLeast {h | Free p s h} k) ∧ ∀ allocatedIp, ∃ dhcp',
        dhcpAllocateIp s.dhcp allocatedIp requestedIp = (.success, BitVec.ofNat 32 k ||| subNet, dhcp') ∧
        (s.allocate allocatedIp requestedIp).live = insert k s.live) ∨
      (∀ k, ¬ Free p s k) ∧ ∀ allocatedIp,
        (dhcpAllocateIp s.dhcp allocatedIp requestedIp).1 = .mallocFailure ∧
        s.allocate allocatedIp requestedIp = s) ∧
    (∀ ip, hostOf s.dhcp ip ∈ s.live → ∃ dhcp', dhcpFreeIp s.dhcp ip = some (.success, dhcp') ∧
      (s.free ip (.success, dhcp')).live = s.live.erase (hostOf s.dhcp ip)) ∧
    dhcpCountFree s.dhcp + s.live.card + 2 = 2 ^ (32 - p) ∧
    (p ≤ 30 → ∀ d ≤ 32 - p, ∀ q < 2 ^ d, isFull (nodeAt d s.dhcp.root q) = true ↔
      ∀ j < 2 ^ (32 - p - d), ¬ Free p s (q * 2 ^ (32 - p - d) + j)) := by
  have hinv := reachable_inv hp h
  refine ⟨fun requestedIp => ?_, fun ip hlive => ?_, hinv.count hp, fun hp' d hd q hq => hinv.isFull_nodeAt hp' hd hq⟩
  · rcases hinv.allocate hp requestedIp with ⟨k, hk, hleast, -, root, hhost, -⟩ | ⟨hnone, hfails⟩
    · refine .inl ⟨k, hk, fun hzero => hleast (.inl hzero), fun a => ⟨{ s.dhcp with root }, ?_, ?_⟩⟩
      · rw [← hinv.subNet]
        exact dhcpAllocateIp_host (hhost a)
      · rw [State.allocate_host (hhost a) hk.lt]
    · refine .inr ⟨hnone, fun a => ?_⟩
      obtain ⟨hstatus, hroot⟩ := hfails a
      exact ⟨hstatus, State.allocate_fails hstatus hroot⟩
  · obtain ⟨dhcp', hfree⟩ := (hinv.free hp).1 hlive
    exact ⟨dhcp', hfree, rfl⟩

/-! ## Samples -/

/-- A server of six hosts. -/
def sampleServer : State := ⟨dhcpCreate 0xC4000000#32 29, ∅, []⟩

theorem reachable_sample : (system 0xC4000000#32 29).Reachable System.Any sampleServer := .init rfl

/-- One address is allocated: five are left. -/
theorem simulates_sample : dhcpCountFree (sampleServer.allocate 0 0).dhcp + 1 + 2 = 2 ^ (32 - 29) := by
  have hstep : (system 0xC4000000#32 29).Reachable System.Any (sampleServer.allocate 0 0) :=
    .step reachable_sample trivial (.allocate sampleServer 0 0)
  exact (simulates (by decide) hstep).2.2.1

end Workbench.Dhcp
