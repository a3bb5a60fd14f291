import Mathlib.Data.Tree.Basic

/-!
# `Dhcp.Trie` — the DHCP server

The addresses of the subnet are the leaves of a binary trie, which has a node only where one was needed. A node is
marked when it is full. Memory is always there; a `NULL` that is dereferenced is `none`.

## Contents
* `isOccupied`, `allocateSpecificIp`, `allocateSmallestIp`, `freeIp`, `countOccupied` — the walks through the trie;
* `dhcpCreate`, `dhcpAllocateIp`, `dhcpFreeIp`, `dhcpCountFree` — the calls.
-/

namespace Workbench.Dhcp

/-- A node: `is_full`, with the relatives `ZERO` and `ONE`. -/
abbrev Node : Type := BinaryTree Bool

abbrev Ip : Type := BitVec 32

inductive DhcpStatus
  | success
  | doubleFree
  | freeFailure
  | mallocFailure
  deriving DecidableEq

structure Dhcp where
  root : Node
  numOfBitsForNetwork : Nat
  subNet : Ip

def ipLength : Nat := 32

/-- `IP_LENGTH - SUBNET_LENGTH`. -/
def Dhcp.numOfBits (dhcp : Dhcp) : Nat := ipLength - dhcp.numOfBitsForNetwork

def nodeCreate : Node := .node false .nil .nil

/-- The node, which is created if it is `NULL`. -/
def created : Node → Node
  | .nil => nodeCreate
  | node => node

/-- `NULL != node && FULL == node->is_full`. -/
def isFull : Node → Bool
  | .nil => false
  | .node full _ _ => full

/-! ## Creation -/

/-- The runner of `DhcpInit` that goes to the same side all the way, with the leaf that it marks. -/
def runner (one : Bool) : Nat → Node
  | 0 => .node true .nil .nil
  | k + 1 => if one then .node false .nil (runner one k) else .node false (runner one k) .nil

def dhcpInit : Nat → Node
  | 0 => .node true .nil .nil
  | k + 1 => .node false (runner false k) (runner true k)

def dhcpCreate (subNet : Ip) (numOfBitsForNetwork : Nat) : Dhcp where
  root := dhcpInit (ipLength - numOfBitsForNetwork)
  numOfBitsForNetwork := numOfBitsForNetwork
  subNet := subNet

/-! ## Walks -/

/-- The loop of `IsOccupied`. The number of bits is a `size_t`: at a leaf it wraps around, and a leaf has no relatives
    to go on to. -/
def isOccupiedLoop (reqIp : Ip) : Node → BitVec 64 → Bool
  | .nil, numOfBits => numOfBits == 0
  | .node full zero one, numOfBits =>
      -- the sum is 0 only behind a leaf, when the number has wrapped around
      if 0 < numOfBits + 1 then
        if full then true
        else if reqIp.getLsbD (numOfBits - 1).toNat then isOccupiedLoop reqIp one (numOfBits - 1)
        else isOccupiedLoop reqIp zero (numOfBits - 1)
      else
        numOfBits == 0

def isOccupied (dhcp : Dhcp) (reqIp : Ip) : Bool := isOccupiedLoop reqIp dhcp.root (BitVec.ofNat 64 dhcp.numOfBits)

def updateFullness : Node → Node
  | .nil => .nil
  | .node full zero one => .node (full || isFull zero && isFull one) zero one

/-- `AllocateSpecificIp`, which succeeds. -/
def allocateSpecificIp (reqIp : Ip) : Nat → Node → Node
  | _, .nil => .nil
  | 0, .node _ zero one => .node true zero one
  | numOfBits + 1, .node full zero one =>
      if reqIp.getLsbD numOfBits then
        updateFullness (.node full zero (allocateSpecificIp reqIp numOfBits (created one)))
      else
        updateFullness (.node full (allocateSpecificIp reqIp numOfBits (created zero)) one)

/-- `AllocateSmallestIp`: whether it succeeds, the node, and `*allocated_ip`. -/
def allocateSmallestIp : Nat → Node → Ip → Bool × Node × Ip
  | _, .nil, allocatedIp => (false, .nil, allocatedIp)
  | 0, .node full zero one, allocatedIp =>
      if full then (false, .node full zero one, allocatedIp)
      else (true, .node true zero one, allocatedIp)
  | numOfBits + 1, .node full zero one, allocatedIp =>
      if full then
        (false, .node full zero one, allocatedIp)
      -- `GetDirection` is `ONE` if the node at `ZERO` is full
      else if isFull zero then
        let below := allocateSmallestIp numOfBits (created one) allocatedIp
        if below.1 then
          (true, updateFullness (.node full zero below.2.1), (below.2.2 >>> 1) ||| (1#32 <<< 31))
        else
          (false, .node full zero below.2.1, below.2.2)
      else
        let below := allocateSmallestIp numOfBits (created zero) allocatedIp
        if below.1 then
          (true, updateFullness (.node full below.2.1 one), (below.2.2 >>> 1) ||| (0#32 <<< 31))
        else
          (false, .node full below.2.1 one, below.2.2)

def freeIp (reqIp : Ip) : Nat → Node → Option Node
  | _, .nil => none
  | 0, .node _ zero one => some (.node false zero one)
  | numOfBits + 1, .node _ zero one =>
      if reqIp.getLsbD numOfBits then
        -- on the way back the mark goes, whatever it was
        (freeIp reqIp numOfBits one).map fun one' => .node false zero one'
      else
        (freeIp reqIp numOfBits zero).map fun zero' => .node false zero' one

/-- `CountOccupied`, with a number of bits that wraps around at a leaf. -/
def countOccupied : Node → BitVec 64 → Nat
  | .nil, _ => 0
  | .node full zero one, numOfBits =>
      if numOfBits = 0 ∧ full = true then 1
      else countOccupied zero (numOfBits - 1) + countOccupied one (numOfBits - 1)

/-! ## The calls -/

/-- The address without the bits of the network. -/
def hostBits (dhcp : Dhcp) (ip : Ip) : Ip := (ip <<< dhcp.numOfBitsForNetwork) >>> dhcp.numOfBitsForNetwork

/-- `DhcpAllocateIp` before the bits of the network are put in: the status, the node, and the bits of the host. -/
def allocateHost (dhcp : Dhcp) (allocatedIp requestedIp : Ip) : DhcpStatus × Node × Ip :=
  if requestedIp = 0 ∨ isOccupied dhcp (hostBits dhcp requestedIp) = true then
    let smallest := allocateSmallestIp dhcp.numOfBits dhcp.root allocatedIp
    (if smallest.1 then .success else .mallocFailure, smallest.2.1, smallest.2.2 >>> dhcp.numOfBitsForNetwork)
  else
    (.success, allocateSpecificIp (hostBits dhcp requestedIp) dhcp.numOfBits dhcp.root, hostBits dhcp requestedIp)

/-- `DhcpAllocateIp`: the status, `*allocated_ip`, and the server. -/
def dhcpAllocateIp (dhcp : Dhcp) (allocatedIp requestedIp : Ip) : DhcpStatus × Ip × Dhcp :=
  let host := allocateHost dhcp allocatedIp requestedIp
  (host.1, host.2.2 ||| dhcp.subNet, { dhcp with root := host.2.1 })

def allIpBitsOn : Ip := 0xFFFFFFFF#32

def dhcpFreeIp (dhcp : Dhcp) (ip : Ip) : Option (DhcpStatus × Dhcp) :=
  let reqIp := hostBits dhcp ip
  if reqIp = 0 ∨ reqIp = allIpBitsOn >>> dhcp.numOfBitsForNetwork then
    some (.freeFailure, dhcp)
  else if isOccupied dhcp reqIp = false then
    some (.doubleFree, dhcp)
  else
    (freeIp reqIp dhcp.numOfBits dhcp.root).map fun root => (.success, { dhcp with root })

/-- `DhcpCountFree`, with `pow(2, num_of_bits)` addresses. -/
def dhcpCountFree (dhcp : Dhcp) : Nat :=
  (1 <<< dhcp.numOfBits) - countOccupied dhcp.root (BitVec.ofNat 64 dhcp.numOfBits)

end Workbench.Dhcp
