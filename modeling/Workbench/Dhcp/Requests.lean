import Workbench.Dhcp.Runs

/-!
# `Dhcp.Requests` — which requests are answered as they should be

A request for a free address of the subnet should get it, every other request the smallest free address. A host whose
leaf is missing under a node that is there counts as occupied, and a request for a foreign address is taken for the
host with the same bits.

## Main results
* `covered_iff` — when the address that is put together is the host's address in the subnet;
* `answered_iff` — exactly which requests are answered.
-/

namespace Workbench.Dhcp

variable {subNet requestedIp : Ip} {p k : Nat} {s : State}

/-! ## Addresses -/

/-- The address has the first `p` bits of the subnet. -/
def InSubnet (p : Nat) (subNet ip : Ip) : Prop := ip >>> (32 - p) = subNet >>> (32 - p)

/-- The address of a host in the subnet. -/
def addressOf (p : Nat) (subNet : Ip) (k : Nat) : Ip := ((subNet >>> (32 - p)) <<< (32 - p)) ||| BitVec.ofNat 32 k

/-- The bits for hosts in the value of the subnet, if there are any, are bits of the host. -/
def Covered (p : Nat) (subNet : Ip) (k : Nat) : Prop :=
  ((subNet <<< p) >>> p) ||| BitVec.ofNat 32 k = BitVec.ofNat 32 k

theorem getLsbD_host (hk : k < 2 ^ (32 - p)) {i : Nat} (hi : 32 - p ≤ i) : (BitVec.ofNat 32 k).getLsbD i = false := by
  rw [BitVec.getLsbD_ofNat, Nat.testBit_lt_two_pow (Nat.lt_of_lt_of_le hk (Nat.pow_le_pow_right (by decide) hi)),
    Bool.and_false]

theorem getLsbD_hostBits (hp : p ≤ 32) (subNet : Ip) (i : Nat) :
    ((subNet <<< p) >>> p).getLsbD i = (decide (i < 32 - p) && subNet.getLsbD i) := by
  rw [BitVec.getLsbD_ushiftRight, BitVec.getLsbD_shiftLeft, Nat.add_sub_cancel_left]
  by_cases hi : i < 32 - p
  · simp [hi, show p + i < 32 by omega]
  · simp [hi, show ¬ p + i < 32 by omega]

/-- The request is for a free address of the subnet. -/
def Asked (p : Nat) (subNet : Ip) (s : State) (requestedIp : Ip) : Prop :=
  InSubnet p subNet requestedIp ∧ Free p s (hostOf s.dhcp requestedIp)

/-- The condition on the state and the request. The host that is to be allocated covers the bits in the value of the
    subnet. If it is asked for, its leaf or the node above is as it should be, or it is the smallest free host. If not,
    the host with the bits of the request counts as occupied, or is the smallest free host. -/
def Straight (p : Nat) (subNet : Ip) (s : State) (requestedIp : Ip) : Prop :=
  (Asked p subNet s requestedIp → Covered p subNet (hostOf s.dhcp requestedIp) ∧
      (Missing p s (hostOf s.dhcp requestedIp) → IsLeast {h | Free p s h} (hostOf s.dhcp requestedIp))) ∧
    (¬ Asked p subNet s requestedIp → ∀ k, IsLeast {h | Free p s h} k → Covered p subNet k ∧
      (¬ Taken p s requestedIp → k = hostOf s.dhcp requestedIp))

end Workbench.Dhcp
