import Workbench.Iface.NsiPools

/-!
# `Iface.NsiAlloc` — what the allocation of NSI addresses guarantees

After the static addresses and those the CRDs claim, the places of the specs that have no address draw one from
their pool. An address that is assigned is held by the pod of its place when all is done, so the invariant of the
pools says where it comes from and that nobody shares it.

## Main results
* `fillPlaces_spec` — what the places draw;
* `clean_places` — a place without static addresses has no static address in its pool;
* `allocated` — where the assigned addresses come from, that nobody shares them, and who keeps an address.
-/

namespace Workbench.Nsi

variable {docsis : Nat} {entries : List Entry} {pools : NsiPools} {vlan : Nat} {f : Family} {k : Pod}
  {a : Address}

/-! ## The places draw what is missing -/

/-- `get_ip_address` as an operation of the pool: what it hands out is drawn. -/
theorem getIpAddress_cases (pool : Option (Pool Pod Address)) (pod : Pod) :
    (∃ p a p', pool = some p ∧ p.draw pod = some (a, p') ∧
      ∃ b, getIpAddress pool pod = (some a, b, some p')) ∨
    (∃ b, getIpAddress pool pod = (none, b, pool) ∧ ∀ p, pool = some p → p.held.get? pod = none) := by
  cases pool with
  | none =>
      right
      exact ⟨false, rfl, fun p hp => by cases hp⟩
  | some p =>
      cases hheld : p.held.get? pod with
      | some a =>
          left
          exact ⟨p, a, p, rfl, Pool.draw_of_held hheld, false, by simp [getIpAddress, hheld]⟩
      | none =>
          cases hlast : p.free.getLast? with
          | some a =>
              left
              exact ⟨p, a, ⟨p.free.dropLast, p.held.put pod a⟩, rfl, by simp [Pool.draw, hheld, hlast],
                true, by simp [getIpAddress, hheld, hlast]⟩
          | none =>
              right
              refine ⟨true, by simp [getIpAddress, hheld, hlast], ?_⟩
              rintro q hq
              obtain rfl := Option.some.inj hq
              exact hheld

/-- What an assignment leaves alone. -/
structure Keeps (docsis : Nat) (entries : List Entry) (pools pools' : NsiPools) : Prop where
  sound : PoolsSound docsis entries pools → PoolsSound docsis entries pools'
  holds : ∀ vlan f k a, Holds pools vlan f k a → Holds pools' vlan f k a

theorem Keeps.refl (docsis : Nat) (entries : List Entry) (pools : NsiPools) :
    Keeps docsis entries pools pools := ⟨fun h => h, fun _ _ _ _ h => h⟩

theorem Keeps.trans {pools' pools'' : NsiPools} (h : Keeps docsis entries pools pools')
    (h' : Keeps docsis entries pools' pools'') : Keeps docsis entries pools pools'' :=
  ⟨fun hs => h'.sound (h.sound hs), fun vlan f k a hk => h'.holds vlan f k a (h.holds vlan f k a hk)⟩

/-- **One draw.** -/
theorem keeps_draw {pool : NsiPool} (hget : pools.get? vlan = some pool) {p p' : Pool Pod Address}
    (hp : pool f = some p) (hdraw : p.draw k = some (a, p')) :
    Keeps docsis entries pools (pools.put vlan (Function.update pool f (some p'))) ∧
      Holds (pools.put vlan (Function.update pool f (some p'))) vlan f k a := by
  have hold : poolAt pools vlan f = some p := (poolAt_of_get? hget f).trans hp
  have hnew : poolAt (pools.put vlan (Function.update pool f (some p'))) vlan f = some p' := by
    rw [poolAt_put_self, Function.update_self]
  have hsame : ∀ vlan' f', (vlan' ≠ vlan ∨ f' ≠ f) →
      poolAt (pools.put vlan (Function.update pool f (some p'))) vlan' f' = poolAt pools vlan' f' := by
    intro vlan' f' hne
    by_cases hvlan : vlan = vlan'
    · subst hvlan
      have hf : f' ≠ f := hne.resolve_left (fun h => h rfl)
      rw [poolAt_put_self, Function.update_of_ne hf, poolAt_of_get? hget]
    · exact poolAt_put_ne hvlan ..
  refine ⟨⟨?_, ?_⟩, p', hnew, Pool.get?_held_draw_self hdraw⟩
  · intro hs vlan' f' q hq
    by_cases hne : vlan' ≠ vlan ∨ f' ≠ f
    · rw [hsame vlan' f' hne] at hq
      exact hs vlan' f' q hq
    · rw [not_or, not_not, not_not] at hne
      obtain ⟨rfl, rfl⟩ := hne
      obtain rfl := Option.some.inj (hnew.symm.trans hq)
      obtain ⟨r, hr, hsound⟩ := hs vlan' f' p hold
      exact ⟨r, hr, Pool.sound_draw hsound hdraw⟩
  · rintro vlan' f' k' b ⟨q, hq, hb⟩
    by_cases hne : vlan' ≠ vlan ∨ f' ≠ f
    · exact ⟨q, by rw [hsame vlan' f' hne, hq], hb⟩
    · rw [not_or, not_not, not_not] at hne
      obtain ⟨rfl, rfl⟩ := hne
      obtain rfl := Option.some.inj (hold.symm.trans hq)
      exact ⟨p', hnew, Pool.get?_held_draw hdraw hb⟩

theorem keeps_assignLoop (f : Family) (pod : Pod) (vlans : List Nat) (success : Bool)
    (ip : Option Address) (pools : NsiPools) :
    Keeps docsis entries pools (assignLoop f pod vlans (success, ip, pools)).2.2 := by
  induction vlans generalizing success ip pools with
  | nil => exact Keeps.refl docsis entries pools
  | cons vlan vlans ih =>
      rw [assignLoop]
      cases hget : pools.get? vlan with
      | none => exact ih success ip pools
      | some pool =>
          rcases getIpAddress_cases (pool f) pod with ⟨p, a, p', hp, hdraw, b, heq⟩ | ⟨b, heq, -⟩
          · simp only [heq]
            exact (keeps_draw hget hp hdraw).1.trans (ih _ _ _)
          · simp only [heq]
            exact ih _ _ pools

/-- An assignment from one pool: the address is held by the pod afterwards, and it is the one the pod held
    before, if it held one. -/
theorem assignIp_spec {pod : Pod} {vlans : List Nat} {ip : Option Address} {pools' : NsiPools}
    (h : assignIp f pod vlans pools = some (ip, pools')) :
    Keeps docsis entries pools pools' ∧ vlans ≠ [] ∧
      ∀ vlan, vlans = [vlan] → (∀ a, ip = some a → Holds pools' vlan f pod a) ∧
        ∀ a, Holds pools vlan f pod a → ip = some a := by
  unfold assignIp at h
  cases hrun : assignLoop f pod vlans (false, none, pools) with
  | mk success r =>
      obtain ⟨ip', pools''⟩ := r
      have hkeeps : Keeps docsis entries pools (assignLoop f pod vlans (false, none, pools)).2.2 :=
        keeps_assignLoop f pod vlans false none pools
      rw [hrun] at h hkeeps
      cases success with
      | false => cases h
      | true =>
          obtain ⟨rfl, rfl⟩ := Prod.mk.inj (Option.some.inj h)
          refine ⟨hkeeps, ?_, ?_⟩
          · rintro rfl
            cases hrun
          · rintro vlan rfl
            rw [assignLoop] at hrun
            cases hget : pools.get? vlan with
            | none =>
                rw [hget] at hrun
                cases hrun
            | some pool =>
                rw [hget] at hrun
                rcases getIpAddress_cases (pool f) pod with ⟨p, a, p', hp, hdraw, b, heq⟩ | ⟨b, heq, hnone⟩
                · simp only [heq, assignLoop, Prod.mk.injEq, true_and] at hrun
                  obtain ⟨rfl, rfl⟩ := hrun
                  refine ⟨?_, ?_⟩
                  · rintro a' ha'
                    obtain rfl := Option.some.inj ha'
                    exact (@keeps_draw docsis entries _ _ _ _ _ _ hget _ _ hp hdraw).2
                  · rintro a' ⟨q, hq, ha'⟩
                    rw [poolAt_of_get? hget, hp, Option.some.injEq] at hq
                    subst hq
                    have hsame := Pool.draw_of_held ha'
                    rw [hdraw] at hsame
                    exact congrArg (Option.map Prod.fst) hsame
                · simp only [heq, assignLoop, Prod.mk.injEq] at hrun
                  obtain ⟨-, rfl, rfl⟩ := hrun
                  refine ⟨fun a ha => (by cases ha), ?_⟩
                  rintro a ⟨q, hq, ha⟩
                  rw [poolAt_of_get? hget] at hq
                  rw [hnone q hq] at ha
                  cases ha

/-- The same for a family that may not be asked for. -/
theorem askIp_spec {asks : Bool} {pod : Pod} {vlans : List Nat} {ip : Option Address} {pools' : NsiPools}
    (h : askIp asks f pod vlans pools = some (ip, pools')) :
    Keeps docsis entries pools pools' ∧ (∀ a, ip = some a → vlans ≠ []) ∧
      ∀ vlan, vlans = [vlan] → (∀ a, ip = some a → Holds pools' vlan f pod a) ∧
        ∀ a, asks = true → Holds pools vlan f pod a → ip = some a := by
  cases asks with
  | false =>
      obtain ⟨rfl, rfl⟩ := Prod.mk.inj (Option.some.inj h)
      refine ⟨Keeps.refl .., fun a ha => (by cases ha), ?_⟩
      intro vlan _
      exact ⟨fun a ha => (by cases ha), fun a hask => (by cases hask)⟩
  | true =>
      obtain ⟨hkeeps, hne, hone⟩ := assignIp_spec h
      refine ⟨hkeeps, fun _ _ => hne, ?_⟩
      intro vlan hvlan
      obtain ⟨hholds, hkept⟩ := hone vlan hvlan
      exact ⟨hholds, fun a _ => hkept a⟩

/-- What filling a place without static addresses gives. -/
structure Filled (before after : NsiPools) (p p' : Place) : Prop where
  pool : ∀ f a, p'.addresses.get f = some a → p.vlans ≠ []
  holds : ∀ vlan, p.vlans = [vlan] → ∀ f a, p'.addresses.get f = some a → Holds after vlan f p.pod a
  kept : ∀ vlan, p.vlans = [vlan] → ∀ f a, p.asks f = true → Holds before vlan f p.pod a →
    p'.addresses.get f = some a

/-- **One place.** -/
theorem fillPlace_spec {p p' : Place} {pools' : NsiPools} (h : fillPlace p pools = some (p', pools')) :
    Keeps docsis entries pools pools' ∧ (p.addresses.static = false → Filled pools pools' p p') := by
  unfold fillPlace at h
  by_cases hstatic : p.addresses.static = true
  · rw [if_pos hstatic] at h
    obtain ⟨rfl, rfl⟩ := Prod.mk.inj (Option.some.inj h)
    refine ⟨Keeps.refl .., ?_⟩
    intro hnot
    rw [hstatic] at hnot
    cases hnot
  · rw [if_neg hstatic] at h
    obtain ⟨⟨v4, pools₁⟩, hv4, h⟩ := Option.bind_eq_some_iff.mp h
    obtain ⟨⟨v6, pools₂⟩, hv6, h⟩ := Option.bind_eq_some_iff.mp h
    obtain ⟨rfl, rfl⟩ := Prod.mk.inj (Option.some.inj h)
    obtain ⟨hkeeps₁, hne₁, hone₁⟩ := @askIp_spec docsis entries _ _ _ _ _ _ _ hv4
    obtain ⟨hkeeps₂, hne₂, hone₂⟩ := @askIp_spec docsis entries _ _ _ _ _ _ _ hv6
    refine ⟨hkeeps₁.trans hkeeps₂, fun _ => ⟨?_, ?_, ?_⟩⟩
    · intro f a ha
      cases f with
      | v4 => exact hne₁ a ha
      | v6 => exact hne₂ a ha
    · intro vlan hvlan f a ha
      cases f with
      | v4 => exact hkeeps₂.holds _ _ _ _ ((hone₁ vlan hvlan).1 a ha)
      | v6 => exact (hone₂ vlan hvlan).1 a ha
    · intro vlan hvlan f a hasks ha
      cases f with
      | v4 => exact (hone₁ vlan hvlan).2 a hasks ha
      | v6 => exact (hone₂ vlan hvlan).2 a hasks (hkeeps₁.holds _ _ _ _ ha)

/-- **All places.** -/
theorem fillPlaces_spec : ∀ {todo done : List Place} {pools pools' : NsiPools},
    fillPlaces todo pools = some (done, pools') →
    Keeps docsis entries pools pools' ∧
      ∀ pp ∈ todo.zip done, pp.1.addresses.static = false → Filled pools pools' pp.1 pp.2
  | [], done, pools, pools', h => by
      obtain ⟨rfl, rfl⟩ := Prod.mk.inj (Option.some.inj h)
      exact ⟨Keeps.refl .., fun pp hpp => by cases hpp⟩
  | p :: todo, done, pools, pools', h => by
      rw [fillPlaces] at h
      obtain ⟨⟨p', next⟩, hplace, h⟩ := Option.bind_eq_some_iff.mp h
      obtain ⟨⟨rest, last⟩, hrest, h⟩ := Option.bind_eq_some_iff.mp h
      obtain ⟨rfl, rfl⟩ := Prod.mk.inj (Option.some.inj h)
      obtain ⟨hkeeps, hfilled⟩ := @fillPlace_spec docsis entries _ _ _ _ hplace
      obtain ⟨hkeeps', hall⟩ := fillPlaces_spec hrest
      refine ⟨hkeeps.trans hkeeps', ?_⟩
      intro pp hpp hstatic
      rw [List.zip_cons_cons] at hpp
      rcases List.mem_cons.mp hpp with rfl | hpp
      · obtain ⟨hpool, hholds, hkept⟩ := hfilled hstatic
        refine ⟨hpool, ?_, hkept⟩
        intro vlan hvlan f a ha
        exact hkeeps'.holds _ _ _ _ (hholds vlan hvlan f a ha)
      · obtain ⟨hpool, hholds, hkept⟩ := hall pp hpp hstatic
        refine ⟨hpool, hholds, ?_⟩
        intro vlan hvlan f a hasks ha
        exact hkept vlan hvlan f a hasks (hkeeps.holds _ _ _ _ ha)

/-! ## Who has static addresses -/

section Config

variable {cfg : Config}

/-- The bundle and the sub-bundles of every BNG have different `cre-vlan-id`s. -/
def DistinctPools (cfg : Config) : Prop :=
  ∀ bng ∈ cfg.bngs, ∀ b, bng.cable.bind (findBundle cfg) = some b →
    (b.creVlanId :: (subBundlesOf cfg b).map SubBundle.creVlanId).Nodup

/-- The sub-interfaces of every BNG refer to different sub-bundles. -/
def DistinctRefs (cfg : Config) : Prop :=
  ∀ bng ∈ cfg.bngs, (bng.subInterfaces.map SubInterface.subBundleIndexRef).Nodup

theorem mem_flatten_mapM {α β : Type} {g : α → Option (List β)} : ∀ {xs : List α} {yss : List (List β)},
    xs.mapM g = some yss → ∀ y ∈ yss.flatten, ∃ x ∈ xs, ∃ ys, g x = some ys ∧ y ∈ ys
  | [], yss, h, y, hy => by
      rw [List.mapM_nil] at h
      obtain rfl := Option.some.inj h
      cases hy
  | x :: xs, yss, h, y, hy => by
      rw [List.mapM_cons] at h
      obtain ⟨ys, hys, h⟩ := Option.bind_eq_some_iff.mp h
      obtain ⟨rest, hrest, h⟩ := Option.bind_eq_some_iff.mp h
      obtain rfl := Option.some.inj h
      rw [List.flatten_cons, List.mem_append] at hy
      rcases hy with hy | hy
      · exact ⟨x, List.mem_cons_self .., ys, hys, hy⟩
      · obtain ⟨x', hx', ys', hys', hy'⟩ := mem_flatten_mapM hrest y hy
        exact ⟨x', List.mem_cons_of_mem _ hx', ys', hys', hy'⟩

theorem get_of_not_static {x : Addresses} (h : x.static = false) (f : Family) : x.get f = none := by
  rw [Addresses.static, Bool.or_eq_false_iff, Option.isSome_eq_false_iff, Option.isNone_iff_eq_none,
    Option.isSome_eq_false_iff, Option.isNone_iff_eq_none] at h
  cases f with
  | v4 => exact h.1
  | v6 => exact h.2

theorem nodup_subBundlesOf (cfg : Config) (b : Bundle) :
    ((subBundlesOf cfg b).map SubBundle.subBundleIndex).Nodup := by
  have hkeys : ((subBundlesOf cfg b).map fun s => (s.bundleIndexRef, s.subBundleIndex)).Nodup :=
    cfg.subBundles_nodup.sublist ((List.filter_sublist).map _)
  have heq : ((subBundlesOf cfg b).map fun s => (s.bundleIndexRef, s.subBundleIndex)) =
      ((subBundlesOf cfg b).map SubBundle.subBundleIndex).map fun i => (b.bundleIndex, i) := by
    rw [List.map_map]
    apply List.map_congr_left
    intro s hs
    have href := (List.mem_filter.mp hs).2
    simp only [Function.comp, Prod.mk.injEq, and_true]
    simpa using href
  rw [heq] at hkeys
  exact List.Nodup.of_map _ hkeys

/-- An entry is an entry of a BNG or of a SPA. -/
theorem mem_configEntries (h : configEntries cfg = some entries) {e : Entry} (he : e ∈ entries) :
    (∃ bng ∈ cfg.bngs, ∃ es, bngEntries cfg bng = some es ∧ e ∈ es) ∨
      ∃ id ∈ cfg.spaIds, ∃ es, spaEntries cfg id = some es ∧ e ∈ es := by
  unfold configEntries at h
  obtain ⟨bngs, hbngs, h⟩ := Option.bind_eq_some_iff.mp h
  obtain ⟨spas, hspas, h⟩ := Option.bind_eq_some_iff.mp h
  obtain rfl := Option.some.inj h
  rcases List.mem_append.mp he with he | he
  · exact Or.inl (mem_flatten_mapM hbngs e he)
  · exact Or.inr (mem_flatten_mapM hspas e he)

/-- The entries of a BNG are its own. -/
theorem mem_bngEntries {bng : Bng} {b : Bundle} (hb : bng.cable.bind (findBundle cfg) = some b) {es : List Entry}
    (hes : bngEntries cfg bng = some es) {e : Entry} (he : e ∈ es) : e.pod = .bng bng.id ∧
      ((e.vlan = b.creVlanId ∧ e.addresses = bng.addresses) ∨ ∃ sb ∈ subBundlesOf cfg b,
        e.vlan = sb.creVlanId ∧
        e.addresses = ((findSubInterface bng sb).map SubInterface.addresses).getD Addresses.none) := by
  unfold bngEntries at hes
  cases hcable : bng.cable with
  | none => simp [hcable] at hb
  | some bundleId =>
      rw [hcable, Option.bind_some] at hb
      simp only [hcable, hb, Option.map_some, Option.some.injEq] at hes
      subst hes
      rcases List.mem_cons.mp he with rfl | he
      · exact ⟨rfl, Or.inl ⟨rfl, rfl⟩⟩
      · obtain ⟨sb, hsb, rfl⟩ := List.mem_map.mp he
        exact ⟨rfl, Or.inr ⟨sb, hsb, rfl, rfl⟩⟩

theorem pod_of_mem_bngEntries {bng : Bng} {es : List Entry} (hes : bngEntries cfg bng = some es) {e : Entry}
    (he : e ∈ es) : e.pod = .bng bng.id := by
  cases hb : bng.cable.bind (findBundle cfg) with
  | some b => exact (mem_bngEntries hb hes he).1
  | none =>
      unfold bngEntries at hes
      cases hcable : bng.cable with
      | none =>
          simp only [hcable, Option.some.injEq] at hes
          subst hes
          cases he
      | some bundleId =>
          rw [hcable, Option.bind_some] at hb
          simp [hcable, hb] at hes

theorem mem_spaEntries {id : Nat} {es : List Entry} (hes : spaEntries cfg id = some es) {e : Entry}
    (he : e ∈ es) : e.pod = .spa id ∧ e.addresses = cfg.spa.addresses := by
  unfold spaEntries at hes
  cases hcable : cfg.spa.cable with
  | none =>
      simp only [hcable, Option.some.injEq] at hes
      subst hes
      cases he
  | some bundleId =>
      simp only [hcable, Option.map_eq_some_iff] at hes
      obtain ⟨b, -, rfl⟩ := hes
      obtain rfl := List.mem_singleton.mp he
      exact ⟨rfl, rfl⟩

/-- What a place without static addresses is sure of: it has one pool at most, and its pod has no static address
    in this pool. -/
def Clean (entries : List Entry) (p : Place) : Prop :=
  p.vlans.length ≤ 1 ∧ (p.addresses.static = false →
    ∀ vlan ∈ p.vlans, ∀ f a, (p.pod, a) ∉ statics entries vlan f)

theorem clean_spaPlace (h : configEntries cfg = some entries) {id : Nat} {ps : List Place}
    (hps : spaPlaces (spaSpec cfg id) = some ps) {p : Place} (hp : p ∈ ps) : Clean entries p := by
  unfold spaPlaces at hps
  obtain ⟨vlan, -, rfl⟩ := Option.map_eq_some_iff.mp hps
  obtain rfl := List.mem_singleton.mp hp
  refine ⟨Nat.le_refl _, ?_⟩
  intro hstatic vlan' _ f a hmem
  obtain ⟨e, he, -, hpod, ha⟩ := mem_statics.mp hmem
  rcases mem_configEntries h he with ⟨bng, -, es, hes, he⟩ | ⟨id', -, es, hes, he⟩
  · rw [pod_of_mem_bngEntries hes he] at hpod
    cases hpod
  · rw [(mem_spaEntries hes he).2] at ha
    have hnone := get_of_not_static hstatic f
    show False
    rw [show (cfg.spa.addresses).get f = none from hnone] at ha
    cases ha

theorem length_filter_key_le_one {l : List (Nat × Nat)} (h : (l.map Prod.fst).Nodup) (i : Nat) :
    (l.filter fun e => e.1 == i).length ≤ 1 := by
  induction l with
  | nil => exact Nat.zero_le _
  | cons e l ih =>
      rw [List.map_cons, List.nodup_cons] at h
      by_cases hi : e.1 = i
      · have hrest : l.filter (fun e => e.1 == i) = [] := by
          rw [List.filter_eq_nil_iff]
          intro e' he' heq
          exact h.1 (List.mem_map.mpr ⟨e', he', by rw [hi]; simpa using heq⟩)
        rw [List.filter_cons, hrest]
        split <;> simp
      · rw [List.filter_cons, if_neg (by simpa using hi)]
        exact ih h.2

/-- The addresses `split` registers for a sub-bundle are those of the sub-interface that refers to it. -/
theorem registered_addresses {bng : Bng} (hrefs : (bng.subInterfaces.map SubInterface.subBundleIndexRef).Nodup)
    {sb : SubBundle} {added : List SubBundle} (hadded : ∀ sb' ∈ added, findSubInterface bng sb' = none)
    {s : SubInterface}
    (hs : s ∈ bng.subInterfaces ++ added.map fun sb => ⟨sb.subBundleIndex, Addresses.none⟩)
    (href : s.subBundleIndexRef = sb.subBundleIndex) (hstatic : s.addresses.static = false) (f : Family) :
    (((findSubInterface bng sb).map SubInterface.addresses).getD Addresses.none).get f = none := by
  cases hfind : findSubInterface bng sb with
  | none => cases f <;> rfl
  | some s' =>
      have hmem : s' ∈ bng.subInterfaces := List.mem_of_find?_eq_some hfind
      have href' : s'.subBundleIndexRef = sb.subBundleIndex := by simpa using List.find?_some hfind
      rcases List.mem_append.mp hs with hs | hs
      · obtain rfl := List.inj_on_of_nodup_map hrefs hmem hs (href'.trans href.symm)
        exact get_of_not_static hstatic f
      · -- an added one stands for a sub-bundle without a sub-interface
        obtain ⟨sb', hsb', rfl⟩ := List.mem_map.mp hs
        have hnone := hadded sb' hsb'
        unfold findSubInterface at hnone hfind
        rw [show sb'.subBundleIndex = sb.subBundleIndex from href, hfind] at hnone
        cases hnone

/-- An entry of the pod of a BNG is an entry of this BNG: of its bundle, or of a sub-bundle. -/
theorem own_entry (h : configEntries cfg = some entries) {bng : Bng} (hbng : bng ∈ cfg.bngs) {b : Bundle}
    (hb : bng.cable.bind (findBundle cfg) = some b) {e : Entry} (he : e ∈ entries) (hpod : e.pod = .bng bng.id) :
    (e.vlan = b.creVlanId ∧ e.addresses = bng.addresses) ∨ ∃ sb ∈ subBundlesOf cfg b,
      e.vlan = sb.creVlanId ∧
      e.addresses = ((findSubInterface bng sb).map SubInterface.addresses).getD Addresses.none := by
  rcases mem_configEntries h he with ⟨bng', hbng', es, hes, he⟩ | ⟨id, -, es, hes, he⟩
  · -- the ids of the BNGs are distinct
    rw [pod_of_mem_bngEntries hes he, Pod.bng.injEq] at hpod
    obtain rfl := List.inj_on_of_nodup_map cfg.bngs_nodup hbng' hbng hpod
    exact (mem_bngEntries hb hes he).2
  · rw [(mem_spaEntries hes he).1] at hpod
    cases hpod

theorem clean_bngPlace (h : configEntries cfg = some entries) (hpools : DistinctPools cfg)
    (hrefs : DistinctRefs cfg) {bng : Bng} (hbng : bng ∈ cfg.bngs) {ps : List Place}
    (hps : bngPlaces (bngSpec cfg bng) = some ps) {p : Place} (hp : p ∈ ps) : Clean entries p := by
  cases hb : bng.cable.bind (findBundle cfg) with
  | none => simp [bngPlaces, bngSpec, hb] at hps
  | some b =>
      have hnodup := hpools bng hbng b hb
      rw [List.nodup_cons] at hnodup
      simp only [bngPlaces, bngSpec, hb, Option.map_some, Option.some.injEq] at hps
      subst hps
      rcases List.mem_cons.mp hp with rfl | hp
      · -- the bundle
        refine ⟨Nat.le_refl _, ?_⟩
        intro hstatic vlan hvlan f a hmem
        obtain rfl := List.mem_singleton.mp hvlan
        obtain ⟨e, he, hvlan, hpod, ha⟩ := mem_statics.mp hmem
        rcases own_entry h hbng hb he hpod with ⟨-, haddr⟩ | ⟨sb, hsb, hsbvlan, -⟩
        · rw [haddr, get_of_not_static hstatic] at ha
          cases ha
        · exact hnodup.1 (List.mem_map.mpr ⟨sb, hsb, hsbvlan.symm.trans hvlan⟩)
      · -- a sub-interface
        split at hp
        · cases hp
        · obtain ⟨s, hs, rfl⟩ := List.mem_map.mp hp
          refine ⟨?_, ?_⟩
          · rw [List.length_map]
            apply length_filter_key_le_one
            rw [List.map_map]
            exact nodup_subBundlesOf cfg b
          · intro hstatic vlan hvlan f a hmem
            obtain ⟨x, hx, rfl⟩ := List.mem_map.mp hvlan
            obtain ⟨hx, href⟩ := List.mem_filter.mp hx
            obtain ⟨sb, hsb, rfl⟩ := List.mem_map.mp hx
            obtain ⟨e, he, hvlan, hpod, ha⟩ := mem_statics.mp hmem
            -- the static address is the one of this sub-interface, as the VLANs of the pools are distinct
            rcases own_entry h hbng hb he hpod with ⟨hmain, -⟩ | ⟨sb', hsb', hsbvlan, haddr⟩
            · exact hnodup.1 (List.mem_map.mpr ⟨sb, hsb, hvlan.symm.trans hmain⟩)
            · obtain rfl := List.inj_on_of_nodup_map hnodup.2 hsb' hsb (hsbvlan.symm.trans hvlan)
              have href' : s.subBundleIndexRef = sb'.subBundleIndex := (beq_iff_eq.mp href).symm
              have hadded : ∀ sb₀ ∈ (subBundlesOf cfg b).filter fun sb => (findSubInterface bng sb).isNone,
                  findSubInterface bng sb₀ = none := by
                intro sb₀ hsb₀
                simpa using (List.mem_filter.mp hsb₀).2
              rw [haddr, registered_addresses (hrefs bng hbng) hadded hs href' hstatic] at ha
              cases ha

/-- The places of a configuration are clean. -/
theorem clean_places (h : configEntries cfg = some entries) (hpools : DistinctPools cfg)
    (hrefs : DistinctRefs cfg) {todo : List Place} (htodo : places cfg = some todo) :
    ∀ p ∈ todo, Clean entries p := by
  intro p hp
  unfold places at htodo
  obtain ⟨bngs, hbngs, htodo⟩ := Option.bind_eq_some_iff.mp htodo
  obtain ⟨spas, hspas, htodo⟩ := Option.bind_eq_some_iff.mp htodo
  obtain rfl := Option.some.inj htodo
  rcases List.mem_append.mp hp with hp | hp
  · obtain ⟨bng, hbng, ps, hps, hp⟩ := mem_flatten_mapM hbngs p hp
    exact clean_bngPlace h hpools hrefs hbng hps hp
  · obtain ⟨id, -, ps, hps, hp⟩ := mem_flatten_mapM hspas p hp
    exact clean_spaPlace h hps hp

/-! ## The allocation -/

/-- An entry of a CRD that gets its address `a` back from the pool of its `vlan`: it is the pod's only one for
    this pool so far, `a` is in the range of the pool and not static in it, and no earlier entry claims it. -/
structure Reclaims (docsis : Nat) (entries : List Entry) (claims : List CrdEntry) (pod : Pod) (vlan : Nat)
    (f : Family) (a : Address) : Prop where
  crd : ∃ pre e post x, claims = pre ++ e :: post ∧ e.pod = pod ∧ e.vlan = vlan ∧ e.addresses = [x] ∧
    x.get f = some a ∧ ∀ e' ∈ pre, Unclaimed docsis entries vlan f pod a e'
  range : ∃ r, rangeOf docsis entries vlan f = some r ∧ a ∈ r
  static : ∀ k, (k, a) ∉ statics entries vlan f

/-- What holds of the places after the allocation. A place is assigned when it has no static addresses. -/
structure Allocated (docsis : Nat) (entries : List Entry) (claims : List CrdEntry) (todo done : List Place) :
    Prop where
  /-- An assigned address is from the range of the place's pool, and not static in this pool. -/
  range : ∀ pp ∈ todo.zip done, pp.1.addresses.static = false → ∀ f a, pp.2.addresses.get f = some a →
    ∃ vlan r, pp.1.vlans = [vlan] ∧ rangeOf docsis entries vlan f = some r ∧ a ∈ r ∧
      ∀ k, (k, a) ∉ statics entries vlan f
  /-- Two pods are not assigned the same address from one pool. -/
  distinct : ∀ pp ∈ todo.zip done, ∀ qq ∈ todo.zip done, pp.1.addresses.static = false →
    qq.1.addresses.static = false → pp.1.pod ≠ qq.1.pod → pp.1.vlans = qq.1.vlans →
    ∀ f a, pp.2.addresses.get f = some a → qq.2.addresses.get f ≠ some a
  /-- A pod keeps the address its CRD reclaims, in the families that are assigned. -/
  kept : ∀ pod vlan f a, Reclaims docsis entries claims pod vlan f a →
    ∀ pp ∈ todo.zip done, pp.1.addresses.static = false → pp.1.pod = pod → pp.1.vlans = [vlan] →
      pp.1.asks f = true → pp.2.addresses.get f = some a

/-- An address of a clean place is held by the pod of the place, in its only pool. -/
theorem Filled.held {before after : NsiPools} {p p' : Place} (h : Filled before after p p') (hclean : Clean entries p)
    {a : Address} (ha : p'.addresses.get f = some a) : ∃ vlan, p.vlans = [vlan] ∧ Holds after vlan f p.pod a := by
  obtain ⟨vlan, hvlan⟩ : ∃ vlan, p.vlans = [vlan] := by
    rw [← List.length_eq_one_iff]
    have hne := List.length_pos_iff.mpr (h.pool f a ha)
    have hone := hclean.1
    omega
  exact ⟨vlan, hvlan, h.holds vlan hvlan f a ha⟩

/-- An address that the pod of a clean place without static addresses holds is not static in the pool. -/
theorem Clean.not_static {p : Place} (hclean : Clean entries p) (hstatic : p.addresses.static = false)
    (hsound : PoolsSound docsis entries pools) (hvlan : p.vlans = [vlan]) {a : Address}
    (hholds : Holds pools vlan f p.pod a) :
    ∃ q r, poolAt pools vlan f = some q ∧ q.held.get? p.pod = some a ∧ rangeOf docsis entries vlan f = some r ∧
      q.Sound r (statics entries vlan f) ∧ a ∈ r ∧ ∀ k, (k, a) ∉ statics entries vlan f := by
  obtain ⟨q, hq, hk⟩ := hholds
  obtain ⟨r, hr, hs⟩ := hsound vlan f q hq
  refine ⟨q, r, hq, hk, hr, hs, ?_⟩
  rcases hs.held _ a hk with hfix | ⟨har, -, hfix⟩
  · have hmem : vlan ∈ p.vlans := hvlan ▸ List.mem_singleton_self vlan
    exact absurd hfix (hclean.2 hstatic vlan hmem f a)
  · exact ⟨har, hfix⟩

/-- **The allocation of NSI addresses.** Every assigned address is from the range of its pool and not static in
    it, two BNGs or SPAs never get the same address from one pool, and whoever has an address in a CRD that
    nobody else claims keeps it. -/
theorem allocated (hpools : DistinctPools cfg) (hrefs : DistinctRefs cfg) {crds : Crds} {done : List Place}
    (h : allocateNsiIps cfg crds = some done) :
    ∃ entries claims todo, configEntries cfg = some entries ∧ crdEntries cfg crds = some claims ∧
      places cfg = some todo ∧ Allocated cfg.docsisIpPoolSize entries claims todo done := by
  unfold allocateNsiIps at h
  obtain ⟨entries, hentries, h⟩ := Option.bind_eq_some_iff.mp h
  obtain ⟨pools, hpools₀, h⟩ := Option.bind_eq_some_iff.mp h
  obtain ⟨claims, hclaims, h⟩ := Option.bind_eq_some_iff.mp h
  obtain ⟨todo, htodo, h⟩ := Option.bind_eq_some_iff.mp h
  obtain ⟨⟨done', last⟩, hfill, h⟩ := Option.bind_eq_some_iff.mp h
  obtain rfl := Option.some.inj h
  refine ⟨entries, claims, todo, hentries, hclaims, htodo, ?_⟩
  have hreg := registered_registerAll hpools₀
  obtain ⟨hkeeps, hfilled⟩ := @fillPlaces_spec cfg.docsisIpPoolSize entries _ _ _ _ hfill
  have hsound := hkeeps.sound (sound_claims (sound_of_registered hreg) claims)
  have hclean := clean_places hentries hpools hrefs htodo
  have hof : ∀ pp ∈ todo.zip done', Clean entries pp.1 := fun pp hpp => hclean pp.1 (List.of_mem_zip hpp).1
  constructor
  · intro pp hpp hstatic f a ha
    obtain ⟨vlan, hvlan, hholds⟩ := (hfilled pp hpp hstatic).held (hof pp hpp) ha
    obtain ⟨-, r, -, -, hr, -, har, hfix⟩ := (hof pp hpp).not_static hstatic hsound hvlan hholds
    exact ⟨vlan, r, hvlan, hr, har, hfix⟩
  · intro pp hpp qq hqq hstatic hstatic' hne hsame f a ha ha'
    obtain ⟨vlan, hvlan, hholds⟩ := (hfilled pp hpp hstatic).held (hof pp hpp) ha
    obtain ⟨vlan', hvlan', hholds'⟩ := (hfilled qq hqq hstatic').held (hof qq hqq) ha'
    obtain rfl : vlan = vlan' := by
      rw [hvlan, hvlan'] at hsame
      exact List.singleton_inj.mp hsame
    obtain ⟨p, r, hp, hk, -, hs, -, hfix⟩ := (hof pp hpp).not_static hstatic hsound hvlan hholds
    obtain ⟨p', -, hp', hk', -⟩ := (hof qq hqq).not_static hstatic' hsound hvlan' hholds'
    obtain rfl := Option.some.inj (hp.symm.trans hp')
    rcases hs.distinct _ _ a hk hk' with heq | ⟨k, hk⟩
    · exact hne heq
    · exact hfix k hk
  · rintro pod vlan f a ⟨⟨pre, e, post, x, rfl, rfl, rfl, hx, ha, hpre⟩, ⟨r, hr, har⟩, hstatic⟩ pp hpp hplace
      hpod hvlan hasks
    have hmem : e.vlan ∈ pp.1.vlans := hvlan ▸ List.mem_singleton_self e.vlan
    have hnone : ∀ f' b, (e.pod, b) ∉ statics entries e.vlan f' := by
      intro f' b
      rw [← hpod]
      exact (hof pp hpp).2 hplace e.vlan hmem f' b
    have hholds : Holds ((pre ++ e :: post).foldl storeCrd pools) e.vlan f e.pod a :=
      holds_of_claim hreg hx ha hr har hstatic hnone hpre
    exact (hfilled pp hpp hplace).kept e.vlan hvlan f a hasks (hpod ▸ hholds)

/-- A BNG with a bundle and a sub-bundle, and a SPA with a static address in the pool of the bundle. -/
def oneOfEach : Config where
  bundles := [⟨1, 10, some ⟨some (some 4), some 100, none⟩⟩]
  subBundles := [⟨1, 1, 20, some ⟨some (some 2), some 200, none⟩⟩]
  bngs := [⟨1, some 1, Addresses.none, []⟩]
  spa := ⟨some 1, ⟨some (.v4 102), none⟩, none⟩
  spaIds := [1]
  docsisIpPoolSize := 0
  subBundles_nodup := by decide
  bngs_nodup := by decide
  spaIds_nodup := by decide

/-- The BNG had an address of the pool before. -/
def oldBng : Crds := ⟨[⟨1, ⟨some (.v4 101), none⟩, some 10, [], []⟩], []⟩

theorem allocated_sample : ∃ done, allocateNsiIps oneOfEach oldBng = some done ∧
    ∃ entries claims todo, configEntries oneOfEach = some entries ∧ crdEntries oneOfEach oldBng = some claims ∧
      places oneOfEach = some todo ∧ Allocated oneOfEach.docsisIpPoolSize entries claims todo done := by
  refine ⟨_, rfl, allocated ?_ ?_ rfl⟩
  · intro bng hbng b hb
    obtain rfl := List.mem_singleton.mp hbng
    obtain rfl := Option.some.inj hb
    decide
  · intro bng hbng
    obtain rfl := List.mem_singleton.mp hbng
    exact List.nodup_nil

/-- A SPA that is `ipv6-only`, and had an IPv4 address before. -/
def ipv6Only : Config where
  bundles := [⟨1, 10, some ⟨some (some 4), some 100, some 200⟩⟩]
  subBundles := []
  bngs := []
  spa := ⟨some 1, Addresses.none, some "ipv6-only"⟩
  spaIds := [1]
  docsisIpPoolSize := 0
  subBundles_nodup := List.nodup_nil
  bngs_nodup := List.nodup_nil
  spaIds_nodup := List.nodup_singleton 1

def oldSpa : Crds := ⟨[], [⟨1, ⟨some (.v4 102), none⟩, some 10, none⟩]⟩

/-- Two sub-interfaces for one sub-bundle, the first one with a static address. -/
def sharedRef : Config where
  bundles := [⟨1, 10, none⟩]
  subBundles := [⟨1, 1, 20, some ⟨some (some 2), some 100, none⟩⟩]
  bngs := [⟨1, some 1, Addresses.none, [⟨1, ⟨some (.v4 7), none⟩⟩, ⟨1, Addresses.none⟩]⟩]
  spa := ⟨none, Addresses.none, none⟩
  spaIds := []
  docsisIpPoolSize := 0
  subBundles_nodup := List.nodup_singleton _
  bngs_nodup := List.nodup_singleton _
  spaIds_nodup := List.nodup_nil

/-- Two sub-bundles with a pool each, which a CRD had in one. -/
def splitPools : Config where
  bundles := [⟨1, 10, none⟩]
  subBundles := [⟨1, 1, 20, some ⟨some (some 4), some 100, none⟩⟩, ⟨1, 2, 30, some ⟨some (some 4), some 100, none⟩⟩]
  bngs := [⟨1, some 1, Addresses.none, []⟩]
  spa := ⟨none, Addresses.none, none⟩
  spaIds := []
  docsisIpPoolSize := 0
  subBundles_nodup := by decide
  bngs_nodup := List.nodup_singleton _
  spaIds_nodup := List.nodup_nil

def sharedPool : Crds :=
  ⟨[⟨1, Addresses.none, some 10, [(2, 20), (1, 20)],
    [⟨1, ⟨some (.v4 101), none⟩⟩, ⟨2, ⟨some (.v4 102), none⟩⟩]⟩], []⟩

/-- Every assigned address is from the range of the place's pool. -/
def AllInRange (docsis : Nat) (entries : List Entry) (todo done : List Place) : Prop :=
  ∀ pp ∈ todo.zip done, pp.1.addresses.static = false → ∀ f a, pp.2.addresses.get f = some a →
    ∀ vlan, pp.1.vlans = [vlan] → ∃ r, rangeOf docsis entries vlan f = some r ∧ a ∈ r

/-- Whoever has an address in a CRD keeps it, whatever the family, when it is from the range of the pool, not
    static in it, and no entry of an earlier CRD has it. -/
def AllKept (docsis : Nat) (entries : List Entry) (claims : List CrdEntry) (todo done : List Place) : Prop :=
  ∀ pre e post, claims = pre ++ e :: post → ∀ x ∈ e.addresses, ∀ f a, x.get f = some a →
    (∃ r, rangeOf docsis entries e.vlan f = some r ∧ a ∈ r) → (∀ k, (k, a) ∉ statics entries e.vlan f) →
    (∀ e' ∈ pre, e'.vlan = e.vlan → ∀ y ∈ e'.addresses, y.get f ≠ some a) →
    ∀ pp ∈ todo.zip done, pp.1.addresses.static = false → pp.1.pod = e.pod → pp.1.vlans = [e.vlan] →
      pp.2.addresses.get f = some a

/-- A SPA does not keep an address of a family it does not ask for; a second sub-interface for a sub-bundle gets the
    static address of the first one; of two addresses a CRD has for one pool only one is kept. -/
theorem not_allocated :
    (DistinctPools ipv6Only ∧ ∃ entries claims todo done, configEntries ipv6Only = some entries ∧
      crdEntries ipv6Only oldSpa = some claims ∧ places ipv6Only = some todo ∧
      allocateNsiIps ipv6Only oldSpa = some done ∧ ¬ AllKept 0 entries claims todo done) ∧
    (DistinctPools sharedRef ∧ ∃ entries todo done, configEntries sharedRef = some entries ∧
      places sharedRef = some todo ∧ allocateNsiIps sharedRef ⟨[], []⟩ = some done ∧
      ¬ AllInRange 0 entries todo done) ∧
    (DistinctPools splitPools ∧ ∃ entries claims todo done, configEntries splitPools = some entries ∧
      crdEntries splitPools sharedPool = some claims ∧ places splitPools = some todo ∧
      allocateNsiIps splitPools sharedPool = some done ∧ ¬ AllKept 0 entries claims todo done) := by
  refine ⟨⟨?_, _, _, _, _, rfl, rfl, rfl, rfl, ?_⟩, ⟨?_, _, _, _, rfl, rfl, rfl, ?_⟩,
    ⟨?_, _, _, _, _, rfl, rfl, rfl, rfl, ?_⟩⟩
  · intro bng hbng
    cases hbng
  · intro h
    have hkept := h [] _ [] rfl _ (List.mem_cons_self ..) .v4 (.v4 102) rfl ⟨_, rfl, by decide⟩
      (fun k hk => by cases hk) (fun e' he' => by cases he') _ (List.mem_cons_self ..) rfl rfl rfl
    cases hkept
  · intro bng hbng b hb
    obtain rfl := List.mem_singleton.mp hbng
    obtain rfl := Option.some.inj hb
    decide
  · intro h
    obtain ⟨r, hr, hmem⟩ := h _ (List.mem_cons_of_mem _ (List.mem_cons_of_mem _ (List.mem_cons_self ..))) rfl
      .v4 (.v4 7) rfl 20 rfl
    obtain rfl := Option.some.inj hr
    revert hmem
    decide
  · intro bng hbng b hb
    obtain rfl := List.mem_singleton.mp hbng
    obtain rfl := Option.some.inj hb
    decide
  · intro h
    have hkept := h [⟨.bng 1, 10, [Addresses.none]⟩, ⟨.bng 1, 20, [⟨some (.v4 102), none⟩]⟩] _ [] rfl _
      (List.mem_cons_self ..) .v4 (.v4 101) rfl ⟨_, rfl, by decide⟩ (fun k hk => by cases hk) (by decide) _
      (List.mem_cons_of_mem _ (List.mem_cons_self ..)) rfl rfl rfl
    cases hkept

end Config

end Workbench.Nsi
