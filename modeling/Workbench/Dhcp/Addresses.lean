import Workbench.Dhcp.Requests

/-!
# `Dhcp.Addresses` — the addresses that are live at the same moment

The address is the host put together with the value of the subnet. When that value has bits for hosts, different hosts
may get the same address; and an address of another network frees the host with the same bits.

## Main results
* `prefix_shared` — an address has the prefix of the subnet;
* `together_injective` — when different hosts get different addresses;
* `addresses_distinct` — over every run under the condition, live addresses are distinct and share the prefix.
-/

namespace Workbench.Dhcp

variable {subNet ip : Ip} {p k j : Nat} {s s' : State}

theorem prefix_shared (hk : k < 2 ^ (32 - p)) (subNet : Ip) : InSubnet p subNet (BitVec.ofNat 32 k ||| subNet) := by
  unfold InSubnet
  apply BitVec.eq_of_getLsbD_eq
  intro i _
  rw [BitVec.getLsbD_ushiftRight, BitVec.getLsbD_ushiftRight, BitVec.getLsbD_or,
    getLsbD_host hk (Nat.le_add_right _ i), Bool.false_or]

/-- The value of the subnet has no bits for hosts; or there is one bit for hosts, and no host; or there are two, and the
    value does not have both. -/
def Apart (p : Nat) (subNet : Ip) : Prop :=
  ((subNet <<< p) >>> p) = 0 ∨ p = 31 ∨ p = 30 ∧ ((subNet <<< p) >>> p) ≠ 3#32

/-- One and two stay different, unless both bits are put in. -/
theorem or_one_ne_or_two (b : Ip) (hb : b ≠ 3#32) (hlt : b.toNat < 4) : b ||| 1#32 ≠ b ||| 2#32 := by
  obtain ⟨m, hm, rfl⟩ : ∃ m < 4, b = BitVec.ofNat 32 m :=
    ⟨b.toNat, hlt, by rw [BitVec.ofNat_toNat, BitVec.setWidth_eq]⟩
  have hcases : m = 0 ∨ m = 1 ∨ m = 2 ∨ m = 3 := by omega
  rcases hcases with rfl | rfl | rfl | rfl
  · decide
  · decide
  · decide
  · exact absurd rfl hb

theorem ofNat_injective (hk : k + 1 < 2 ^ (32 - p)) (hj : j + 1 < 2 ^ (32 - p))
    (heq : BitVec.ofNat 32 k = BitVec.ofNat 32 j) : k = j := by
  have hle : 2 ^ (32 - p) ≤ 2 ^ 32 := Nat.pow_le_pow_right (by decide) (Nat.sub_le _ _)
  have hnat := congrArg BitVec.toNat heq
  rw [BitVec.toNat_ofNat, BitVec.toNat_ofNat] at hnat
  omega

/-- **Different hosts** get different addresses. -/
theorem together_injective (hp : p ≤ 31) (hapart : Apart p subNet) (hk : k ≠ 0 ∧ k + 1 < 2 ^ (32 - p))
    (hj : j ≠ 0 ∧ j + 1 < 2 ^ (32 - p)) (heq : BitVec.ofNat 32 k ||| subNet = BitVec.ofNat 32 j ||| subNet) :
    k = j := by
  -- the bits for hosts
  have hbits : ((subNet <<< p) >>> p) ||| BitVec.ofNat 32 k = ((subNet <<< p) >>> p) ||| BitVec.ofNat 32 j := by
    apply BitVec.eq_of_getLsbD_eq
    intro i _
    have hi := congrArg (BitVec.getLsbD · i) heq
    simp only [BitVec.getLsbD_or] at hi
    rw [BitVec.getLsbD_or, BitVec.getLsbD_or, getLsbD_hostBits (by omega)]
    by_cases hlow : i < 32 - p
    · simp only [hlow, decide_true, Bool.true_and]
      rw [Bool.or_comm, hi, Bool.or_comm]
    · rw [getLsbD_host (by omega) (Nat.not_lt.mp hlow), getLsbD_host (by omega) (Nat.not_lt.mp hlow)]
  -- no bit for hosts is set; or there is no host; or the hosts are one and two
  rcases hapart with hzero | rfl | ⟨rfl, hthree⟩
  · rw [hzero] at hbits
    refine ofNat_injective hk.2 hj.2 ?_
    rw [← BitVec.zero_or (x := BitVec.ofNat 32 k), ← BitVec.zero_or (x := BitVec.ofNat 32 j)]
    exact hbits
  · have hlt : k + 1 < 2 := hk.2
    omega
  · have hlt : ((subNet <<< 30) >>> 30).toNat < 4 := by
      rw [BitVec.toNat_ushiftRight, Nat.shiftRight_eq_div_pow]
      have hlt' := (subNet <<< 30).isLt
      show _ / 1073741824 < 4
      omega
    have hne := or_one_ne_or_two _ hthree hlt
    have hk' : k + 1 < 4 := hk.2
    have hj' : j + 1 < 4 := hj.2
    have hkcases : k = 1 ∨ k = 2 := by omega
    have hjcases : j = 1 ∨ j = 2 := by omega
    rcases hkcases with rfl | rfl <;> rcases hjcases with rfl | rfl
    · rfl
    · exact absurd hbits hne
    · exact absurd hbits.symm hne
    · rfl

/-! ## Runs -/

/-- A live host is freed by its own address. -/
def OwnAddress (s : State) : Act → Prop
  | .allocate _ _ => True
  | .free ip => hostOf s.dhcp ip ∈ s.live → BitVec.ofNat 32 (hostOf s.dhcp ip) ||| s.dhcp.subNet = ip

/-- The live addresses are those of the live hosts, each once. -/
def Recorded (subNet : Ip) (s : State) : Prop :=
  s.addresses.Nodup ∧ ∀ ip, ip ∈ s.addresses ↔ ∃ k ∈ s.live, ip = BitVec.ofNat 32 k ||| subNet

theorem recorded_allocate (hp : p ≤ 31) (hapart : Apart p subNet) (h : Inv subNet p s) (hrec : Recorded subNet s)
    (hk : Free p s k) {dhcp : Dhcp} :
    Recorded subNet ⟨dhcp, insert k s.live, (BitVec.ofNat 32 k ||| subNet) :: s.addresses⟩ := by
  obtain ⟨hnodup, hmem⟩ := hrec
  refine ⟨List.nodup_cons.mpr ⟨?_, hnodup⟩, fun ip => ?_⟩
  · intro hin
    obtain ⟨j, hj, heq⟩ := (hmem _).mp hin
    have hsame := together_injective hp hapart ⟨hk.1, hk.2.1⟩ (h.live j hj) heq
    exact hk.2.2 (hsame ▸ hj)
  · show ip ∈ _ :: s.addresses ↔ ∃ j ∈ insert k s.live, _
    rw [List.mem_cons, hmem, Finset.exists_mem_insert]

theorem recorded_free (hp : p ≤ 31) (hapart : Apart p subNet) (h : Inv subNet p s) (hrec : Recorded subNet s)
    (hk : k ∈ s.live) {dhcp : Dhcp} (hip : BitVec.ofNat 32 k ||| subNet = ip) :
    Recorded subNet ⟨dhcp, s.live.erase k, s.addresses.erase ip⟩ := by
  obtain ⟨hnodup, hmem⟩ := hrec
  refine ⟨hnodup.erase ip, fun a => ?_⟩
  show a ∈ s.addresses.erase ip ↔ ∃ j ∈ s.live.erase k, _
  rw [hnodup.mem_erase_iff, hmem]
  constructor
  · -- the address that is freed is the one of the host and of no other
    rintro ⟨hne, j, hj, rfl⟩
    refine ⟨j, Finset.mem_erase.mpr ⟨?_, hj⟩, rfl⟩
    rintro rfl
    exact hne hip
  · rintro ⟨j, hj, rfl⟩
    obtain ⟨hne, hlive⟩ := Finset.mem_erase.mp hj
    refine ⟨?_, j, hlive, rfl⟩
    intro heq
    exact hne (together_injective hp hapart (h.live j hlive) (h.live k hk) (heq.trans hip.symm))

theorem recorded_step {a : Act} (hp : p ≤ 31) (hapart : Apart p subNet) (hinv : Inv subNet p s)
    (hrec : Recorded subNet s) (hown : OwnAddress s a) (hstep : Step s a s') : Recorded subNet s' := by
  cases hstep with
  | allocate allocatedIp requestedIp =>
      rcases hinv.allocate hp requestedIp with ⟨k, hk, -, -, root, hhost, -⟩ | ⟨-, hfails⟩
      · rw [State.allocate_host (hhost allocatedIp) hk.lt, hinv.subNet]
        exact recorded_allocate hp hapart hinv hrec hk
      · obtain ⟨hstatus, hroot⟩ := hfails allocatedIp
        rw [State.allocate_fails hstatus hroot]
        exact hrec
  | @free ip result hfree =>
      obtain ⟨status, dhcp'⟩ := result
      rcases (hinv.free hp).2 status dhcp' hfree with ⟨hstatus, rfl⟩ | ⟨rfl, hlive, -⟩
      · unfold State.free
        simp only [if_neg hstatus]
        exact hrec
      · have hip := hown hlive
        rw [hinv.subNet] at hip
        exact recorded_free hp hapart hinv hrec hlive hip

theorem reachable_recorded (hp : p ≤ 31) (hapart : Apart p subNet)
    (h : (system subNet p).Reachable OwnAddress s) : Recorded subNet s := by
  induction h with
  | init hinit =>
      obtain rfl := hinit
      exact ⟨List.nodup_nil, fun ip => by simp⟩
  | step hreach hown hstep ih => exact recorded_step hp hapart (reachable_inv hp hreach) ih hown hstep

/-- **Live addresses are distinct and share the prefix** of the subnet, over every run in which live hosts are freed by
    their own addresses, if the value of the subnet keeps the addresses of the hosts apart. -/
theorem addresses_distinct (hp : p ≤ 31) (hapart : Apart p subNet)
    (h : (system subNet p).Reachable OwnAddress s) :
    s.addresses.Nodup ∧ ∀ ip ∈ s.addresses, InSubnet p subNet ip := by
  obtain ⟨hnodup, hmem⟩ := reachable_recorded hp hapart h
  refine ⟨hnodup, fun ip hin => ?_⟩
  obtain ⟨k, hk, rfl⟩ := (hmem ip).mp hin
  exact prefix_shared (Nat.lt_of_succ_lt ((reachable_inv hp h).live k hk).2) subNet

theorem addresses_distinct_sample : [0xC4000001#32].Nodup ∧ ∀ ip ∈ [0xC4000001#32], InSubnet 29 0xC4000000#32 ip := by
  have hinit : (system 0xC4000000#32 29).Reachable OwnAddress sampleServer := .init rfl
  exact addresses_distinct (by decide) (.inl rfl)
    (.step (a := .allocate 0 0) hinit trivial (.allocate sampleServer 0 0))

/-- A server with a value of the subnet that has the bit of the first host. -/
def sampleBits : State := ⟨dhcpCreate 0xC4000001#32 29, ∅, []⟩

/-- The second host and the third get the same address. -/
theorem addresses_same : ∃ s, (system 0xC4000001#32 29).Reachable System.Any s ∧ ¬ s.addresses.Nodup := by
  have hinit : (system 0xC4000001#32 29).Reachable System.Any sampleBits := .init rfl
  have hone : (system 0xC4000001#32 29).Reachable System.Any (sampleBits.allocate 0 0) :=
    .step (a := .allocate 0 0) hinit trivial (.allocate _ 0 0)
  have htwo : (system 0xC4000001#32 29).Reachable System.Any ((sampleBits.allocate 0 0).allocate 0 0) :=
    .step (a := .allocate 0 0) hone trivial (.allocate _ 0 0)
  exact ⟨_, .step (a := .allocate 0 0) htwo trivial (.allocate _ 0 0), by decide⟩

end Workbench.Dhcp
