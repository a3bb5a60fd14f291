import Workbench.Iface.Nsi

/-!
# `Iface.NsiPools` — static addresses and the addresses of the CRDs

`split` takes the static addresses out of the pools, and the CRDs claim those they had. Every pool is a `Pool` whose
fixed values are its static addresses.

## Main results
* `registered_registerAll` — the pools after the static addresses;
* `storeCrd_cases` — what one CRD entry does;
* `sound_claims` — the invariant of the pools through the claims;
* `holds_of_claim` — an address that a CRD claims first is held by its pod.
-/

namespace Workbench.Nsi

/-! ## The range and the static addresses of a pool -/

/-- The addresses a pool starts with: those of the first bundle or sub-bundle with its `cre-vlan-id`. -/
def rangeOf (docsisIpPoolSize : Nat) (entries : List Entry) (vlan : Nat) (f : Family) :
    Option (List Address) :=
  (entries.find? fun e => e.vlan == vlan).bind fun e => (familyRange e.nsi docsisIpPoolSize f).join

/-- The static addresses for a pool, each with its pod. -/
def statics (entries : List Entry) (vlan : Nat) (f : Family) : List (Pod × Address) :=
  entries.filterMap fun e => if e.vlan = vlan then (e.addresses.get f).map fun a => (e.pod, a) else none

variable {docsis : Nat}

theorem statics_concat (done : List Entry) (e : Entry) (vlan : Nat) (f : Family) :
    statics (done ++ [e]) vlan f = statics done vlan f ++
      if e.vlan = vlan then ((e.addresses.get f).map fun a => (e.pod, a)).toList else [] := by
  unfold statics
  rw [List.filterMap_append]
  congr 1
  split
  · next h =>
      cases hx : e.addresses.get f with
      | none => simp [h, hx]
      | some a => simp [h, hx]
  · next h => simp [h]

theorem mem_statics {entries : List Entry} {vlan : Nat} {f : Family} {k : Pod} {a : Address} :
    (k, a) ∈ statics entries vlan f ↔
      ∃ e ∈ entries, e.vlan = vlan ∧ e.pod = k ∧ e.addresses.get f = some a := by
  unfold statics
  rw [List.mem_filterMap]
  constructor
  · rintro ⟨e, he, hsome⟩
    split at hsome
    · next hvlan =>
        obtain ⟨b, hb, heq⟩ := Option.map_eq_some_iff.mp hsome
        obtain ⟨rfl, rfl⟩ := Prod.mk.inj heq
        exact ⟨e, he, hvlan, rfl, hb⟩
    · cases hsome
  · rintro ⟨e, he, hvlan, rfl, ha⟩
    exact ⟨e, he, by rw [if_pos hvlan, ha]; rfl⟩

theorem rangeOf_concat_of_mem {done : List Entry} {vlan : Nat} (h : vlan ∈ done.map Entry.vlan) (e : Entry)
    (f : Family) : rangeOf docsis (done ++ [e]) vlan f = rangeOf docsis done vlan f := by
  obtain ⟨e₀, he₀, hvlan⟩ := List.mem_map.mp h
  have hsome : (done.find? fun e => e.vlan == vlan).isSome = true := by
    rw [List.find?_isSome]
    exact ⟨e₀, he₀, by simpa using hvlan⟩
  unfold rangeOf
  rw [List.find?_append, Option.or_of_isSome hsome]

theorem rangeOf_concat_of_not_mem {done : List Entry} {e : Entry} (h : e.vlan ∉ done.map Entry.vlan)
    (f : Family) :
    rangeOf docsis (done ++ [e]) e.vlan f = (familyRange e.nsi docsis f).join := by
  have hnone : (done.find? fun e' => e'.vlan == e.vlan) = none := by
    rw [List.find?_eq_none]
    intro e' he' heq
    exact h (List.mem_map.mpr ⟨e', he', by simpa using heq⟩)
  unfold rangeOf
  rw [List.find?_append, hnone]
  simp

/-! ## New pools -/

theorem nodup_addressRange {text : Nat → Address} (htext : ∀ m n, text m = text n → m = n)
    {limit start lo hi : Nat} {r : List Address} (h : addressRange text limit start lo hi = some r) :
    r.Nodup := by
  unfold addressRange at h
  split at h
  · obtain rfl := Option.some.inj h
    apply List.Nodup.map
    · intro m n hmn
      have := htext _ _ hmn
      omega
    · exact List.nodup_range'
  · cases h

theorem nodup_familyRange {nsi : Option NsiCfg} {f : Family} {r : List Address}
    (h : familyRange nsi docsis f = some (some r)) : r.Nodup := by
  cases nsi with
  | none => cases h
  | some nsi =>
      simp only [familyRange] at h
      cases hcount : nsi.poolCount.getD (some defaultNsiPoolCount) with
      | none =>
          rw [hcount] at h
          cases h
      | some count =>
          rw [hcount] at h
          cases f with
          | v4 =>
              cases hstart : nsi.startIpv4Address with
              | none => simp [hstart] at h
              | some start =>
                  simp only [hstart, Option.map_eq_some_iff, Option.some.injEq] at h
                  obtain ⟨r', hr', rfl⟩ := h
                  exact nodup_addressRange (fun m n h => Address.v4.inj h) hr'
          | v6 =>
              cases hstart : nsi.startIpv6Address with
              | none => simp [hstart] at h
              | some start =>
                  simp only [hstart, Option.map_eq_some_iff, Option.some.injEq] at h
                  obtain ⟨r', hr', rfl⟩ := h
                  exact nodup_addressRange (fun m n h => Address.v6.inj h) hr'

/-- A new pool has the addresses of its range, and nobody holds one. -/
theorem createNsiIpPool_eq {nsi : Option NsiCfg} {pool : NsiPool}
    (h : createNsiIpPool nsi docsis = some pool) (f : Family) :
    pool f = ((familyRange nsi docsis f).join).map fun r => ⟨r, []⟩ := by
  unfold createNsiIpPool at h
  cases hv4 : familyRange nsi docsis .v4 with
  | none => simp [hv4] at h
  | some v4 =>
      cases hv6 : familyRange nsi docsis .v6 with
      | none => simp [hv4, hv6] at h
      | some v6 =>
          simp only [hv4, hv6, Option.bind_eq_bind, Option.bind_some, Option.pure_def, Option.some.injEq] at h
          subst h
          cases f with
          | v4 => simp [hv4]
          | v6 => simp [hv6]

/-! ## `store_ip` as an operation of the pool -/

theorem storeIp_static (a : Address) (pool : Option (Pool Pod Address)) (pod : Pod) :
    storeIp (some a) pool pod true = pool.map fun p => p.reserve pod a := by
  cases pool with
  | none => rfl
  | some p =>
      simp only [storeIp, Option.map_some, Pool.reserve]
      split
      · rfl
      · next h => simp [List.erase_of_not_mem h]

theorem storeIp_crd (a : Address) (pool : Option (Pool Pod Address)) (pod : Pod) :
    storeIp (some a) pool pod false = pool.map fun p => p.reclaim pod a := by
  cases pool with
  | none => rfl
  | some p =>
      simp only [storeIp, Option.map_some, Pool.reclaim]
      split
      · rfl
      · rfl

/-! ## Registering the static addresses -/

/-- A family's pool and its range: there is a pool where there is a range, and the static addresses are
    registered in it. -/
abbrev FamilyRegistered (range : Option (List Address)) (fixed : List (Pod × Address))
    (pool : Option (Pool Pod Address)) : Prop :=
  Option.Rel (fun r p => Pool.Registered r fixed p) range pool

/-- The pools after some entries: one for each of their `cre-vlan-id`s, with their static addresses. -/
structure Registered (docsis : Nat) (done : List Entry) (pools : NsiPools) : Prop where
  known : ∀ vlan ∈ done.map Entry.vlan, ∃ pool, pools.get? vlan = some pool
  pool : ∀ vlan pool, pools.get? vlan = some pool → vlan ∈ done.map Entry.vlan ∧
    ∀ f, FamilyRegistered (rangeOf docsis done vlan f) (statics done vlan f) (pool f)

theorem registered_nil : Registered docsis [] [] where
  known := by
    intro vlan h
    cases h
  pool := by
    intro vlan pool h
    cases h

theorem familyRegistered_create {nsi : Option NsiCfg} {pool : NsiPool}
    (h : createNsiIpPool nsi docsis = some pool) (f : Family) :
    FamilyRegistered (familyRange nsi docsis f).join [] (pool f) := by
  rw [createNsiIpPool_eq h]
  cases hr : familyRange nsi docsis f with
  | none => exact Option.Rel.none
  | some r =>
      cases r with
      | none => exact Option.Rel.none
      | some r => exact Option.Rel.some (Pool.registered_init (nodup_familyRange hr))

theorem familyRegistered_store {range : Option (List Address)} {fixed : List (Pod × Address)}
    {pool : Option (Pool Pod Address)} (h : FamilyRegistered range fixed pool) (x : Option Address)
    (pod : Pod) :
    FamilyRegistered range (fixed ++ (x.map fun a => (pod, a)).toList) (storeIp x pool pod true) := by
  cases x with
  | none =>
      rw [Option.map_none, Option.toList_none, List.append_nil]
      exact h
  | some a =>
      rw [storeIp_static]
      cases h with
      | none => exact Option.Rel.none
      | some h => exact Option.Rel.some (Pool.registered_reserve h pod a)

/-- The pool that the addresses of an entry are stored in, before they are stored. -/
theorem register_pool {done : List Entry} {pools pools' : NsiPools} (h : Registered docsis done pools) {e : Entry}
    (hreg : register docsis pools e = some pools') :
    ∃ pool₀, (∀ f, FamilyRegistered (rangeOf docsis (done ++ [e]) e.vlan f) (statics done e.vlan f) (pool₀ f)) ∧
      pools' = pools.put e.vlan (storeIps e.addresses pool₀ e.pod true) := by
  unfold register at hreg
  cases hget : pools.get? e.vlan with
  | some pool =>
      -- the pool of an entry before
      simp only [hget, Option.bind_eq_bind, Option.bind_some, Option.pure_def, Option.some.injEq] at hreg
      obtain ⟨hmem, hpool⟩ := h.pool e.vlan pool hget
      refine ⟨pool, ?_, hreg.symm⟩
      intro f
      rw [rangeOf_concat_of_mem hmem]
      exact hpool f
  | none =>
      -- a new pool: no entry before has the VLAN
      have hnew : e.vlan ∉ done.map Entry.vlan := by
        intro hmem
        obtain ⟨pool, hpool⟩ := h.known e.vlan hmem
        rw [hget] at hpool
        cases hpool
      cases hcreate : createNsiIpPool e.nsi docsis with
      | none => simp [hget, hcreate] at hreg
      | some pool =>
          simp only [hget, hcreate, Option.bind_eq_bind, Option.bind_some, Option.pure_def,
            Option.some.injEq] at hreg
          refine ⟨pool, ?_, hreg.symm⟩
          intro f
          have hstatics : statics done e.vlan f = [] := by
            rw [List.eq_nil_iff_forall_not_mem]
            rintro ⟨k, a⟩ hk
            obtain ⟨e', he', hvlan, -, -⟩ := mem_statics.mp hk
            exact hnew (List.mem_map.mpr ⟨e', he', hvlan⟩)
          rw [rangeOf_concat_of_not_mem hnew, hstatics]
          exact familyRegistered_create hcreate f

/-- **One entry.** -/
theorem registered_register {done : List Entry} {pools pools' : NsiPools}
    (h : Registered docsis done pools) {e : Entry} (hreg : register docsis pools e = some pools') :
    Registered docsis (done ++ [e]) pools' := by
  obtain ⟨pool₀, hpool₀, rfl⟩ := register_pool h hreg
  constructor
  · -- every VLAN has a pool
    intro vlan hvlan
    by_cases heq : e.vlan = vlan
    · subst heq
      exact ⟨_, Dict.get?_put_self ..⟩
    · rw [Dict.get?_put_ne heq]
      rw [List.map_append, List.mem_append, List.map_singleton, List.mem_singleton] at hvlan
      exact h.known vlan (hvlan.resolve_right (Ne.symm heq))
  · -- the pool of the entry has one address more, and the others stay
    intro vlan pool hpool
    by_cases heq : e.vlan = vlan
    · subst heq
      rw [Dict.get?_put_self, Option.some.injEq] at hpool
      subst hpool
      refine ⟨by simp, ?_⟩
      intro f
      rw [statics_concat, if_pos rfl]
      exact familyRegistered_store (hpool₀ f) (e.addresses.get f) e.pod
    · rw [Dict.get?_put_ne heq] at hpool
      obtain ⟨hmem, hfam⟩ := h.pool vlan pool hpool
      refine ⟨by rw [List.map_append]; exact List.mem_append_left _ hmem, ?_⟩
      intro f
      rw [rangeOf_concat_of_mem hmem, statics_concat, if_neg heq, List.append_nil]
      exact hfam f

/-- **All entries.** The pools `split` hands over. -/
theorem registered_registerAll {entries : List Entry} {pools : NsiPools}
    (h : registerAll docsis entries = some pools) : Registered docsis entries pools := by
  have hrun : ∀ (rest done : List Entry) (pools : NsiPools), Registered docsis done pools →
      ∀ pools', rest.foldlM (register docsis) pools = some pools' →
      Registered docsis (done ++ rest) pools' := by
    intro rest
    induction rest with
    | nil =>
        intro done pools hreg pools' hfold
        obtain rfl := Option.some.inj hfold
        rw [List.append_nil]
        exact hreg
    | cons e rest ih =>
        intro done pools hreg pools' hfold
        rw [List.foldlM_cons] at hfold
        obtain ⟨next, hnext, hfold⟩ := Option.bind_eq_some_iff.mp hfold
        have hall := ih (done ++ [e]) next (registered_register hreg hnext) pools' hfold
        rwa [List.append_assoc, List.singleton_append] at hall
  exact hrun entries [] [] registered_nil pools h

/-! ## The invariant of the pools -/

/-- The pool of a family, where there is one. -/
def poolAt (pools : NsiPools) (vlan : Nat) (f : Family) : Option (Pool Pod Address) :=
  (pools.get? vlan).bind fun pool => pool f

/-- `k` holds `a`. -/
def Holds (pools : NsiPools) (vlan : Nat) (f : Family) (k : Pod) (a : Address) : Prop :=
  ∃ p, poolAt pools vlan f = some p ∧ p.held.get? k = some a

/-- Every pool has a range, and is sound for it and for the static addresses. -/
def PoolsSound (docsis : Nat) (entries : List Entry) (pools : NsiPools) : Prop :=
  ∀ vlan f p, poolAt pools vlan f = some p →
    ∃ r, rangeOf docsis entries vlan f = some r ∧ p.Sound r (statics entries vlan f)

variable {entries : List Entry} {pools : NsiPools} {vlan : Nat} {f : Family} {k : Pod} {a : Address}

theorem poolAt_put_self (pools : NsiPools) (vlan : Nat) (pool : NsiPool) (f : Family) :
    poolAt (pools.put vlan pool) vlan f = pool f := by
  unfold poolAt
  rw [Dict.get?_put_self]
  rfl

theorem poolAt_put_ne {vlan vlan' : Nat} (h : vlan ≠ vlan') (pools : NsiPools) (pool : NsiPool) (f : Family) :
    poolAt (pools.put vlan pool) vlan' f = poolAt pools vlan' f := by
  unfold poolAt
  rw [Dict.get?_put_ne h]

theorem poolAt_of_get? {pool : NsiPool} (h : pools.get? vlan = some pool) (f : Family) :
    poolAt pools vlan f = pool f := by
  unfold poolAt
  rw [h]
  rfl

/-- The pool of a family after the static addresses. -/
theorem registered_poolAt (h : Registered docsis entries pools) {p : Pool Pod Address}
    (hp : poolAt pools vlan f = some p) :
    ∃ r, rangeOf docsis entries vlan f = some r ∧ Pool.Registered r (statics entries vlan f) p := by
  unfold poolAt at hp
  obtain ⟨pool, hget, hpool⟩ := Option.bind_eq_some_iff.mp hp
  have hrel := (h.pool vlan pool hget).2 f
  rw [hpool] at hrel
  cases hr : rangeOf docsis entries vlan f with
  | none =>
      rw [hr] at hrel
      cases hrel
  | some r =>
      rw [hr] at hrel
      cases hrel with
      | some hreg => exact ⟨r, rfl, hreg⟩

/-- Where there is a range there is a pool. -/
theorem registered_range (h : Registered docsis entries pools) {r : List Address}
    (hr : rangeOf docsis entries vlan f = some r) :
    ∃ p, poolAt pools vlan f = some p ∧ Pool.Registered r (statics entries vlan f) p := by
  have hmem : vlan ∈ entries.map Entry.vlan := by
    obtain ⟨e, he, -⟩ := Option.bind_eq_some_iff.mp hr
    exact List.mem_map.mpr ⟨e, List.mem_of_find?_eq_some he, by simpa using List.find?_some he⟩
  obtain ⟨pool, hget⟩ := h.known vlan hmem
  have hrel := (h.pool vlan pool hget).2 f
  rw [hr] at hrel
  cases hp : pool f with
  | none =>
      rw [hp] at hrel
      cases hrel
  | some p =>
      rw [hp] at hrel
      cases hrel with
      | some hreg => exact ⟨p, (poolAt_of_get? hget f).trans hp, hreg⟩

theorem sound_of_registered (h : Registered docsis entries pools) : PoolsSound docsis entries pools := by
  intro vlan f p hp
  obtain ⟨r, hr, hreg⟩ := registered_poolAt h hp
  exact ⟨r, hr, hreg.sound⟩

/-! ## The CRDs claim their addresses -/

/-- The calls of `store_ip` for one family of a CRD entry. -/
def claimAll (pod : Pod) (xs : List (Option Address)) (pool : Option (Pool Pod Address)) :
    Option (Pool Pod Address) :=
  xs.foldl (fun pool x => storeIp x pool pod false) pool

/-- What some claims of one pod leave alone: the invariant, the other pods, the tags there are, and every
    address that is not among them. -/
theorem claimAll_spec (pod : Pod) (xs : List (Option Address)) {p : Pool Pod Address} :
    ∃ p', claimAll pod xs (some p) = some p' ∧
      (∀ r fixed, p.Sound r fixed → p'.Sound r fixed) ∧
      (∀ k, k ≠ pod → p'.held.get? k = p.held.get? k) ∧
      (∀ a ∈ p.free, some a ∉ xs → a ∈ p'.free) := by
  induction xs generalizing p with
  | nil => exact ⟨p, rfl, fun _ _ h => h, fun _ _ => rfl, fun _ h _ => h⟩
  | cons x xs ih =>
      cases x with
      | none =>
          obtain ⟨p', hp', hsound, hheld, hfree⟩ := @ih p
          refine ⟨p', hp', hsound, hheld, ?_⟩
          intro a ha hmem
          exact hfree a ha (fun h => hmem (List.mem_cons_of_mem _ h))
      | some b =>
          obtain ⟨p', hp', hsound, hheld, hfree⟩ := @ih (p.reclaim pod b)
          refine ⟨p', ?_, ?_, ?_, ?_⟩
          · rw [← hp']
            unfold claimAll
            rw [List.foldl_cons, storeIp_crd]
            rfl
          · intro r fixed h
            exact hsound r fixed (Pool.sound_reclaim h pod b)
          · intro k hk
            rw [hheld k hk, Pool.get?_held_reclaim_ne (Ne.symm hk)]
          · intro a ha hmem
            have hne : a ≠ b := by
              rintro rfl
              exact hmem (List.mem_cons_self ..)
            exact hfree a (Pool.mem_free_reclaim ha hne) (fun h => hmem (List.mem_cons_of_mem _ h))

theorem claimAll_none (pod : Pod) (xs : List (Option Address)) : claimAll pod xs none = none := by
  induction xs with
  | nil => rfl
  | cons x xs ih =>
      cases x with
      | none => exact ih
      | some b => exact ih

theorem foldl_storeIps (pod : Pod) (xs : List Addresses) (pool : NsiPool) (f : Family) :
    (xs.foldl (fun pool x => storeIps x pool pod false) pool) f =
      claimAll pod (xs.map fun x => x.get f) (pool f) := by
  induction xs generalizing pool with
  | nil => rfl
  | cons x xs ih =>
      rw [List.foldl_cons, ih]
      rfl

theorem tagged_iff {pool : NsiPool} (hget : pools.get? vlan = some pool) :
    tagged pool k = true ↔ ∃ f a, Holds pools vlan f k a := by
  have hhas : ∀ f, hasTag (pool f) k = true ↔ ∃ a, Holds pools vlan f k a := by
    intro f
    unfold Holds hasTag
    rw [poolAt_of_get? hget]
    cases pool f with
    | none => simp
    | some p => simp [Dict.hasKey, Option.isSome_iff_exists]
  unfold tagged
  rw [Bool.or_eq_true, hhas, hhas]
  constructor
  · rintro (⟨a, h⟩ | ⟨a, h⟩)
    · exact ⟨.v4, a, h⟩
    · exact ⟨.v6, a, h⟩
  · rintro ⟨f, a, h⟩
    cases f with
    | v4 => exact Or.inl ⟨a, h⟩
    | v6 => exact Or.inr ⟨a, h⟩

/-- **One CRD entry.** It changes nothing, when its pod has a tag in the pool, or the pod claims its addresses in
    this pool. -/
theorem storeCrd_cases (pools : NsiPools) (e : CrdEntry) :
    ((∃ f a, Holds pools e.vlan f e.pod a) ∧ storeCrd pools e = pools) ∨
    ((∀ f a, ¬ Holds pools e.vlan f e.pod a) ∧
      (∀ vlan ≠ e.vlan, ∀ f, poolAt (storeCrd pools e) vlan f = poolAt pools vlan f) ∧
      ∀ f, poolAt (storeCrd pools e) e.vlan f =
        claimAll e.pod (e.addresses.map fun x => x.get f) (poolAt pools e.vlan f)) := by
  unfold storeCrd
  cases hget : pools.get? e.vlan with
  | none =>
      right
      have hnone : ∀ f, poolAt pools e.vlan f = none := by
        intro f
        unfold poolAt
        rw [hget]
        rfl
      refine ⟨?_, fun _ _ _ => rfl, ?_⟩
      · rintro f a ⟨p, hp, -⟩
        rw [hnone] at hp
        cases hp
      · intro f
        show poolAt pools e.vlan f = _
        rw [hnone, claimAll_none]
  | some pool =>
      by_cases htag : tagged pool e.pod = true
      · left
        exact ⟨(tagged_iff hget).mp htag, by simp only [htag, if_true]⟩
      · right
        simp only [htag, Bool.false_eq_true, if_false]
        refine ⟨?_, ?_, ?_⟩
        · intro f a hholds
          exact htag ((tagged_iff hget).mpr ⟨f, a, hholds⟩)
        · intro vlan hvlan f
          exact poolAt_put_ne (Ne.symm hvlan) ..
        · intro f
          rw [poolAt_put_self, foldl_storeIps, poolAt_of_get? hget]

theorem sound_storeCrd (h : PoolsSound docsis entries pools) (e : CrdEntry) :
    PoolsSound docsis entries (storeCrd pools e) := by
  rcases storeCrd_cases pools e with ⟨-, heq⟩ | ⟨-, hother, hpool⟩
  · rw [heq]
    exact h
  · intro vlan f p hp
    by_cases hvlan : vlan = e.vlan
    · subst hvlan
      rw [hpool] at hp
      cases hold : poolAt pools e.vlan f with
      | none =>
          rw [hold, claimAll_none] at hp
          cases hp
      | some q =>
          rw [hold] at hp
          obtain ⟨p', hp', hsound, -, -⟩ := claimAll_spec (p := q) e.pod (e.addresses.map fun x => x.get f)
          obtain rfl := Option.some.inj (hp'.symm.trans hp)
          obtain ⟨r, hr, hq⟩ := h e.vlan f q hold
          exact ⟨r, hr, hsound r _ hq⟩
    · rw [hother vlan hvlan] at hp
      exact h vlan f p hp

/-- A pod that holds an address keeps it through the claims of the CRDs. -/
theorem holds_storeCrd (h : Holds pools vlan f k a) (e : CrdEntry) : Holds (storeCrd pools e) vlan f k a := by
  rcases storeCrd_cases pools e with ⟨-, heq⟩ | ⟨hfree, hother, hpool⟩
  · rw [heq]
    exact h
  · obtain ⟨p, hp, hk⟩ := h
    by_cases hvlan : vlan = e.vlan
    · subst hvlan
      have hne : k ≠ e.pod := by
        rintro rfl
        exact hfree f a ⟨p, hp, hk⟩
      obtain ⟨p', hp', -, hheld, -⟩ := claimAll_spec (p := p) e.pod (e.addresses.map fun x => x.get f)
      exact ⟨p', by rw [hpool, hp, hp'], by rw [hheld k hne, hk]⟩
    · exact ⟨p, by rw [hother vlan hvlan, hp], hk⟩

/-- The address `a` is still free for `k`: `k` has no tag in the pool yet, and `a` is free. -/
structure Claimable (docsis : Nat) (entries : List Entry) (vlan : Nat) (f : Family) (k : Pod) (a : Address)
    (pools : NsiPools) : Prop where
  free : ∃ p, poolAt pools vlan f = some p ∧ a ∈ p.free
  untagged : ∀ f' b, ¬ Holds pools vlan f' k b
  statics : ∀ k' f' b, (k', b) ∈ statics entries vlan f' → (rangeOf docsis entries vlan f').isSome = true →
    ∃ b', Holds pools vlan f' k' b'

theorem claimable_of_registered (h : Registered docsis entries pools) {r : List Address}
    (hr : rangeOf docsis entries vlan f = some r) (ha : a ∈ r) (hstatic : ∀ k', (k', a) ∉ statics entries vlan f)
    (hk : ∀ f' b, (k, b) ∉ statics entries vlan f') : Claimable docsis entries vlan f k a pools where
  free := by
    obtain ⟨p, hp, hreg⟩ := registered_range h hr
    exact ⟨p, hp, hreg.free a ha hstatic⟩
  untagged := by
    rintro f' b ⟨p, hp, hb⟩
    obtain ⟨r, -, hreg⟩ := registered_poolAt h hp
    exact hk f' b (hreg.held k b hb)
  statics := by
    intro k' f' b hb hrange
    obtain ⟨r', hr'⟩ := Option.isSome_iff_exists.mp hrange
    obtain ⟨p, hp, hreg⟩ := registered_range h hr'
    obtain ⟨b', hb'⟩ := Option.isSome_iff_exists.mp (hreg.hasKey k' b hb)
    exact ⟨b', p, hp, hb'⟩

/-- The entry leaves `a` alone: it is an entry of another pool, or another pod's entry that does not have the
    address, or one that is ignored since its pod has a static address. -/
def Unclaimed (docsis : Nat) (entries : List Entry) (vlan : Nat) (f : Family) (k : Pod) (a : Address)
    (e : CrdEntry) : Prop :=
  e.vlan = vlan → e.pod ≠ k ∧ ((∃ x ∈ e.addresses, x.get f = some a) →
    ∃ f' b, (e.pod, b) ∈ statics entries vlan f' ∧ (rangeOf docsis entries vlan f').isSome = true)

theorem claimable_storeCrd (h : Claimable docsis entries vlan f k a pools) {e : CrdEntry}
    (he : Unclaimed docsis entries vlan f k a e) :
    Claimable docsis entries vlan f k a (storeCrd pools e) := by
  have hstatics : ∀ k' f' b, (k', b) ∈ statics entries vlan f' →
      (rangeOf docsis entries vlan f').isSome = true → ∃ b', Holds (storeCrd pools e) vlan f' k' b' := by
    intro k' f' b hb hrange
    obtain ⟨b', hb'⟩ := h.statics k' f' b hb hrange
    exact ⟨b', holds_storeCrd hb' e⟩
  rcases storeCrd_cases pools e with ⟨-, heq⟩ | ⟨huntagged, hother, hpool⟩
  · rw [heq]
    exact h
  · by_cases hvlan : e.vlan = vlan
    · subst hvlan
      obtain ⟨hpod, hclaim⟩ := he rfl
      obtain ⟨p, hp, ha⟩ := h.free
      have hnot : some a ∉ e.addresses.map fun x => x.get f := by
        intro hmem
        obtain ⟨x, hx, hxa⟩ := List.mem_map.mp hmem
        obtain ⟨f', b, hb, hrange⟩ := hclaim ⟨x, hx, hxa⟩
        obtain ⟨b', hb'⟩ := h.statics e.pod f' b hb hrange
        exact huntagged f' b' hb'
      refine ⟨?_, ?_, hstatics⟩
      · obtain ⟨p', hp', -, -, hfree⟩ := claimAll_spec (p := p) e.pod (e.addresses.map fun x => x.get f)
        exact ⟨p', by rw [hpool, hp, hp'], hfree a ha hnot⟩
      · rintro f' b ⟨q', hq', hb⟩
        rw [hpool] at hq'
        cases hq : poolAt pools e.vlan f' with
        | none =>
            rw [hq, claimAll_none] at hq'
            cases hq'
        | some q =>
            obtain ⟨q'', hq'', -, hheld, -⟩ := claimAll_spec (p := q) e.pod
              (e.addresses.map fun x => x.get f')
            rw [hq, hq'', Option.some.injEq] at hq'
            subst hq'
            rw [hheld k (Ne.symm hpod)] at hb
            exact h.untagged f' b ⟨q, hq, hb⟩
    · refine ⟨?_, ?_, hstatics⟩
      · rw [hother vlan (Ne.symm hvlan)]
        exact h.free
      · rintro f' b ⟨q, hq, hb⟩
        rw [hother vlan (Ne.symm hvlan)] at hq
        exact h.untagged f' b ⟨q, hq, hb⟩

/-- A pod claims the single address its entry has for the family. -/
theorem holds_storeCrd_self {e : CrdEntry} (h : Claimable docsis entries e.vlan f e.pod a pools)
    {x : Addresses} (hx : e.addresses = [x]) (ha : x.get f = some a) :
    Holds (storeCrd pools e) e.vlan f e.pod a := by
  rcases storeCrd_cases pools e with ⟨⟨f', b, hb⟩, -⟩ | ⟨-, -, hpool⟩
  · exact absurd hb (h.untagged f' b)
  · obtain ⟨p, hp, hfree⟩ := h.free
    refine ⟨p.reclaim e.pod a, ?_, Pool.get?_held_reclaim_self hfree⟩
    rw [hpool, hp, hx, List.map_singleton, ha, claimAll, List.foldl_cons, List.foldl_nil, storeIp_crd,
      Option.map_some]

/-- **All CRDs.** An address that is free after the static ones, and that no earlier CRD claims, is held by the
    pod whose CRD has it. -/
theorem holds_of_claim (h : Registered docsis entries pools) {pre post : List CrdEntry} {e : CrdEntry}
    {x : Addresses} (hx : e.addresses = [x]) (ha : x.get f = some a) {r : List Address}
    (hr : rangeOf docsis entries e.vlan f = some r) (har : a ∈ r)
    (hstatic : ∀ k', (k', a) ∉ statics entries e.vlan f)
    (hpod : ∀ f' b, (e.pod, b) ∉ statics entries e.vlan f')
    (hpre : ∀ e' ∈ pre, Unclaimed docsis entries e.vlan f e.pod a e') :
    Holds ((pre ++ e :: post).foldl storeCrd pools) e.vlan f e.pod a := by
  have hstart := claimable_of_registered h hr har hstatic hpod
  have hreach : ∀ (pre : List CrdEntry) (pools : NsiPools),
      (∀ e' ∈ pre, Unclaimed docsis entries e.vlan f e.pod a e') →
      Claimable docsis entries e.vlan f e.pod a pools →
      Claimable docsis entries e.vlan f e.pod a (pre.foldl storeCrd pools) := by
    intro pre
    induction pre with
    | nil => exact fun _ _ h => h
    | cons e' pre ih =>
        intro pools hpre h
        exact ih _ (fun e'' he'' => hpre e'' (List.mem_cons_of_mem _ he''))
          (claimable_storeCrd h (hpre e' (List.mem_cons_self ..)))
  have hkeep : ∀ (post : List CrdEntry) (pools : NsiPools), Holds pools e.vlan f e.pod a →
      Holds (post.foldl storeCrd pools) e.vlan f e.pod a := by
    intro post
    induction post with
    | nil => exact fun _ h => h
    | cons e' post ih =>
        intro pools h
        exact ih _ (holds_storeCrd h e')
  rw [List.foldl_append, List.foldl_cons]
  exact hkeep post _ (holds_storeCrd_self (hreach pre pools hpre hstart) hx ha)

theorem sound_claims (h : PoolsSound docsis entries pools) (claims : List CrdEntry) :
    PoolsSound docsis entries (claims.foldl storeCrd pools) := by
  induction claims generalizing pools with
  | nil => exact h
  | cons e claims ih => exact ih (sound_storeCrd h e)

end Workbench.Nsi
