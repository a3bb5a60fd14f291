import Workbench.Iface.OltPasses

/-!
# `Iface.OltUnique` — no value is given twice, and OLTs keep their values

Static values are outside the pools, and no value leaves a pool twice, so the values of all OLTs are distinct. The
pool of a module is made around the values of its managable OLTs only: where another OLT of the module is not
managable, its VNIs and s-tags may be given again.

## Main results
* `has_of_mem_values` — the values of the configuration are not in the pools;
* `nodup_applied` — distinct values stay distinct, however they are counted;
* `values_unique` — uniqueness and stability of the values of `apply_olt_control`.
-/

namespace Workbench.Olt

open Iface (OltKey)
open Request

variable {inp : Input} {P : Pools}

/-! ## The values of the configuration -/

theorem configuredVni_of_clean {t : Option Tunnel} (hclean : Clean t) : configuredVni t = vniOf t := by
  unfold configuredVni
  split
  · rfl
  · next hopen => exact (hclean (by simpa using hopen)).1.symm

theorem configuredSrcIp_of_clean {t : Option Tunnel} (hclean : Clean t) : configuredSrcIp t = srcIpOf t := by
  unfold configuredSrcIp
  split
  · rfl
  · next hopen => exact (hclean (by simpa using hopen)).2.symm

theorem mem_tunnelValues {m : ModuleKey} {value : SrcIp → Value} {t : Option Tunnel} {v : Value} :
    v ∈ tunnelValues m value t ↔
      (∃ n, vniOf t = some n ∧ v = .vni m n) ∨ ∃ ip, srcIpOf t = some ip ∧ v = value ip := by
  unfold tunnelValues readTunnel
  rw [List.mem_append, Option.mem_toList, Option.mem_toList]
  show (vniOf t).map (Value.vni m) = some v ∨ (srcIpOf t).map value = some v ↔ _
  rw [Option.map_eq_some_iff, Option.map_eq_some_iff]
  simp only [eq_comm (a := v)]

/-- A value of a spec whose open tunnels have none is a static value. -/
inductive StaticValue (spec : OltSpec) : Value → Prop
  | vni {n : Nat} (h : n ∈ staticVnis spec) : StaticValue spec (.vni spec.moduleKey n)
  | stag {n : Nat} (h : n ∈ staticStags spec) : StaticValue spec (.stag spec.moduleKey n)
  | mgmtIp {ip : SrcIp} (h : configuredSrcIp spec.tunnelMgmt = some ip) : StaticValue spec (.mgmtIp ip)
  | dataIp {ip : SrcIp} (h : ip ∈ staticDataIps spec) : StaticValue spec (.dataIp ip)

theorem static_of_mem_values {spec : OltSpec} (hclean : CleanSpec spec) {v : Value} (hv : v ∈ values spec) :
    StaticValue spec v := by
  unfold values at hv
  rcases List.mem_append.mp hv with hv | hv
  · rcases mem_tunnelValues.mp hv with ⟨n, hn, rfl⟩ | ⟨ip, hip, rfl⟩
    · apply StaticValue.vni
      apply List.mem_append_left
      rw [configuredVni_of_clean hclean.mgmt, hn]
      exact List.mem_singleton_self n
    · apply StaticValue.mgmtIp
      rw [configuredSrcIp_of_clean hclean.mgmt, hip]
  · obtain ⟨pon, hpon, hv⟩ := List.mem_flatMap.mp hv
    have hdata := hclean.data pon hpon
    rcases List.mem_append.mp hv with hv | hv
    · rcases mem_tunnelValues.mp hv with ⟨n, hn, rfl⟩ | ⟨ip, hip, rfl⟩
      · apply StaticValue.vni
        apply List.mem_append_right
        exact List.mem_filterMap.mpr ⟨pon, hpon, by rw [configuredVni_of_clean hdata, hn]⟩
      · apply StaticValue.dataIp
        exact List.mem_filterMap.mpr ⟨pon, hpon, by rw [configuredSrcIp_of_clean hdata, hip]⟩
    · rw [Option.mem_toList] at hv
      obtain ⟨n, hn, rfl⟩ := Option.map_eq_some_iff.mp hv
      exact .stag (List.mem_filterMap.mpr ⟨pon, hpon, hn⟩)

def Value.isAddress : Value → Bool
  | .stag _ _ => false
  | .vni _ _ => false
  | .mgmtIp _ => true
  | .dataIp _ => true

/-- The values of the configuration are not in the pools: the addresses of all OLTs, and all values of an OLT that is
    managable. -/
theorem has_of_mem_values (h : setup inp = .ok P) {name : OltKey} {spec : OltSpec}
    (hspec : (name, spec) ∈ inp.specs) (hclean : CleanSpec spec) {v : Value} (hv : v ∈ values spec)
    (hscope : isOltSpecManagable spec inp.moduleMgmt = true ∨ v.isAddress = true) : P.has v = false := by
  cases static_of_mem_values hclean hv with
  | vni hn =>
      rcases hscope with hman | hip
      · exact has_vni_of_static h hspec hman hn
      · cases hip
  | stag hn =>
      rcases hscope with hman | hip
      · exact has_stag_of_static h hspec hman hn
      · cases hip
  | mgmtIp hip => exact has_mgmtIp_of_static h hspec hip
  | dataIp hip => exact has_dataIp_of_static h hspec hip

/-- All OLTs of a module are managable, or none. -/
def Uniform (inp : Input) : Prop :=
  ∀ e ∈ inp.specs, ∀ e' ∈ inp.specs, e'.2.moduleKey = e.2.moduleKey →
    isOltSpecManagable e'.2 inp.moduleMgmt = true → isOltSpecManagable e.2 inp.moduleMgmt = true

/-- Then the pools have no value of the configuration at all. -/
theorem has_of_uniform (h : setup inp = .ok P) (huniform : Uniform inp) {name : OltKey} {spec : OltSpec}
    (hspec : (name, spec) ∈ inp.specs) (hclean : CleanSpec spec) {v : Value} (hv : v ∈ values spec) :
    P.has v = false := by
  by_cases hman : isOltSpecManagable spec inp.moduleMgmt = true
  · exact has_of_mem_values h hspec hclean hv (Or.inl hman)
  · -- the module has no pools
    have hnone (static : OltSpec → List Nat) : moduleReserved inp static spec.moduleKey = none := by
      apply moduleReserved_eq_none
      intro spec' hspec' hkey
      obtain ⟨hmem, hman'⟩ := List.mem_filter.mp hspec'
      obtain ⟨e', he', rfl⟩ := List.mem_map.mp hmem
      exact hman (huniform (name, spec) hspec e' he' hkey hman')
    cases static_of_mem_values hclean hv with
    | vni _ =>
        rw [Pools.has, (setup_eq_ok h).2.2.2.2, hnone]
        rfl
    | stag _ =>
        rw [Pools.has, (setup_eq_ok h).2.2.2.1, hnone]
        rfl
    | mgmtIp hip => exact has_mgmtIp_of_static h hspec hip
    | dataIp hip => exact has_dataIp_of_static h hspec hip

/-! ## Uniqueness -/

/-- The run of the passes behind a result. -/
theorem applyOltControl_eq_ok {orders : Orders inp} {r : Result} (h : applyOltControl inp orders = .ok r) :
    ∃ P u', setup inp = .ok P ∧ applyOlts inp P orders Marks.none = .ok r u' := by
  unfold applyOltControl at h
  cases hsetup : setup inp with
  | error e =>
      rw [hsetup] at h
      cases h
  | ok P =>
      rw [hsetup] at h
      cases hrun : applyOlts inp P orders Marks.none with
      | error e u' =>
          simp only [hrun] at h
          cases h
      | ok r' u' =>
          simp only [hrun] at h
          cases h
          exact ⟨P, u', rfl, hrun⟩

/-- Values of the configuration that are distinct and outside the pools, and the values that are taken out of the
    pools, are distinct. -/
theorem nodup_applied {count : OltSpec → List Value} {orders : Orders inp} {r : Result} {u' : Marks Value}
    (hsetup : setup inp = .ok P) (hclean : ∀ e ∈ inp.specs, CleanSpec e.2)
    (hcount : ∀ spec, isOltSpecManagable spec inp.moduleMgmt = true → count spec = values spec)
    (hnd : (inp.specs.flatMap fun e => count e.2).Nodup)
    (hout : ∀ e ∈ inp.specs, ∀ v ∈ count e.2, P.has v = false)
    (h : applyOlts inp P orders Marks.none = .ok r u') : (r.applied.flatMap count).Nodup := by
  have hconf : ∀ e ∈ inp.specs, isOltSpecManagable e.2 inp.moduleMgmt = false → Configured e.2 :=
    fun e he hun => configured_of_unmanaged hsetup he hun
  obtain ⟨ts, htaken, hfree, -, sub, hperm, hsub⟩ := (spends_applyOlts hcount hclean hconf).of_ok h
  have hall : ((inp.specs.flatMap fun e => count e.2) ++ ts).Nodup := by
    apply List.Nodup.append hnd htaken
    intro v hv hv'
    obtain ⟨e, he, hve⟩ := List.mem_flatMap.mp hv
    have hin := (hfree v hv').1
    rw [hout e he v hve] at hin
    cases hin
  exact (hperm.nodup_iff).mp (hall.sublist hsub)

/-- The values that count for uniqueness: the VNIs and s-tags of an OLT that is not managable are left out. -/
def managedValues (inp : Input) (spec : OltSpec) : List Value :=
  if isOltSpecManagable spec inp.moduleMgmt then values spec else (values spec).filter Value.isAddress

theorem managedValues_sublist (spec : OltSpec) : (managedValues inp spec).Sublist (values spec) := by
  unfold managedValues
  split
  · exact List.Sublist.refl _
  · exact List.filter_sublist

theorem flatMap_sublist {α β : Type} {f g : α → List β} (h : ∀ a, (f a).Sublist (g a)) (xs : List α) :
    (xs.flatMap f).Sublist (xs.flatMap g) := by
  induction xs with
  | nil => exact List.Sublist.refl []
  | cons x xs ih => exact (h x).append ih

/-! ## Stability -/

/-- The first claim for a value of a pool is kept to the end. -/
theorem kept_first {orders : Orders inp} {r : Result} {u' : Marks Value} (hsetup : setup inp = .ok P)
    (hclean : ∀ e ∈ inp.specs, CleanSpec e.2) (h : applyOlts inp P orders Marks.none = .ok r u')
    {pre post : List (Request (Nat × Slot) Value)} {i : Nat} {s : Slot} {v : Value} {fits : Bool}
    (hreq : requests inp orders.update = pre ++ ⟨(i, s), v, fits⟩ :: post) (hpool : P.has v = true)
    (hfirst : v ∉ pre.map Request.value) {e : Update} (he : orders.update[i]? = some e) {spec : OltSpec}
    (hspec : r.specs.get? e.name = some (some spec)) : readOlt spec s = some v := by
  obtain ⟨specs, u₁, rs, hreclaim, hassign, rfl⟩ := applyOlts_eq_ok.mp h
  have hclean' : True → ∀ e ∈ inp.specs, CleanSpec e.2 := fun _ => hclean
  have hserves := (serves_of_setup hsetup orders hclean').sound _ _ _ hreclaim
  obtain ⟨-, -, -, hlen, hkept⟩ := hserves
  have hread := (hkept trivial).1 pre _ post hreq ⟨hpool, rfl, hfirst⟩
  exact kept_of_reclaimed hlen.length_eq hassign he hspec hread

/-- **The values of `apply_olt_control`**, when the static values of the OLTs are distinct and tunnels that are not
    configured have none. The addresses of all OLTs, and the VNIs and s-tags of the OLTs that are managable, are
    distinct among the OLTs that do not fail, whatever is in k8s and in whatever order the OLTs are visited. If all
    OLTs of a module are managable or none, then all values are distinct. And whoever is the first to claim a value of
    a pool that it had in k8s, keeps it. -/
theorem values_unique {orders : Orders inp} {r : Result} (hclean : ∀ e ∈ inp.specs, CleanSpec e.2)
    (hunique : (inp.specs.flatMap fun e => values e.2).Nodup) (hsetup : setup inp = .ok P)
    (h : applyOltControl inp orders = .ok r) :
    (r.applied.flatMap (managedValues inp)).Nodup ∧
      (Uniform inp → (r.applied.flatMap values).Nodup) ∧
      ∀ pre i s v fits post, requests inp orders.update = pre ++ ⟨(i, s), v, fits⟩ :: post →
        P.has v = true → v ∉ pre.map Request.value → ∀ e, orders.update[i]? = some e →
          ∀ spec, r.specs.get? e.name = some (some spec) → readOlt spec s = some v := by
  obtain ⟨P', u', hsetup', hrun⟩ := applyOltControl_eq_ok h
  rw [hsetup] at hsetup'
  cases hsetup'
  refine ⟨?_, ?_, ?_⟩
  · apply nodup_applied hsetup hclean _ _ _ hrun
    · intro spec hman
      exact if_pos hman
    · exact hunique.sublist (flatMap_sublist (fun e => managedValues_sublist e.2) inp.specs)
    · intro e he v hv
      apply has_of_mem_values hsetup he (hclean e he) ((managedValues_sublist e.2).subset hv)
      unfold managedValues at hv
      split at hv
      · next hman => exact Or.inl hman
      · exact Or.inr (List.mem_filter.mp hv).2
  · intro huniform
    apply nodup_applied hsetup hclean (fun _ _ => rfl) hunique _ hrun
    intro e he v hv
    exact has_of_uniform hsetup huniform he (hclean e he) hv
  · intro pre i s v fits post hreq hpool hfirst e he spec hspec
    exact kept_first hsetup hclean hrun hreq hpool hfirst he hspec

/-! ## Samples -/

/-- The sets are visited in the order of the dictionaries. -/
def Orders.inOrder (inp : Input) : Orders inp :=
  ⟨updates inp, creates inp, inp.specs, .refl _, .refl _, .refl _⟩

/-- The global configuration of tunnels in 10.0.0.0/29, with the pool from 10.0.0.1. -/
def sampleGlobal : GlobalVxlanCfg where
  dsiVlanId := some 10
  ipAddressPool := some ⟨some 167772161, none⟩
  creGwIpAddress := some ⟨"10.0.0.6", 167772166, some 29⟩
  creGwIpv6Address := none

def sampleModule : ModuleKey := ⟨1, 1⟩

/-- A tunnel as `split` makes it. -/
def emptyTunnel : Option Tunnel := some ⟨some ⟨none, none, none, none, none, false⟩⟩

def configuredTunnel (srcIp : Nat) (vni : Nat) : Option Tunnel :=
  some ⟨some ⟨some (.host ⟨.v4, srcIp⟩ 29), some "10.0.0.6", some "dynamic", some vni, some 10, true⟩⟩

/-- An OLT with one PON, which had the same VNI twice. -/
def sampleInput : Input where
  specs := [(⟨1, 1, 0⟩, ⟨sampleModule, ⟨1, 1, 0⟩, emptyTunnel,
    [⟨1, some 1, some 1, emptyTunnel, none, ""⟩], none, ""⟩)]
  stored := [(⟨1, 1, 0⟩, ⟨sampleModule, ⟨1, 1, 0⟩, configuredTunnel 167772164 11005,
    [⟨1, some 1, some 1, configuredTunnel 167772165 11005, some 150, ""⟩], none, ""⟩)]
  moduleMgmt := [⟨[sampleModule], [⟨1, 1, 0⟩], none, none⟩]
  oltControl := some sampleGlobal
  bngData := some sampleGlobal
  specs_nodup := List.nodup_singleton _

theorem ok_of_any {ε α : Type} {x : Except ε α} {p : α → Bool} (h : x.toOption.any p = true) :
    ∃ a, x = .ok a ∧ p a = true := by
  cases x with
  | ok a => exact ⟨a, rfl, h⟩
  | error e => cases h

theorem clean_emptyTunnel : Clean emptyTunnel := fun _ => ⟨rfl, rfl⟩

theorem sampleInput_clean : ∀ e ∈ sampleInput.specs, CleanSpec e.2 := by
  intro e he
  obtain rfl := List.mem_singleton.mp he
  refine ⟨clean_emptyTunnel, ?_⟩
  intro pon hpon
  obtain rfl := List.mem_singleton.mp hpon
  exact clean_emptyTunnel

theorem values_unique_sample : ∃ P r, setup sampleInput = .ok P ∧
    applyOltControl sampleInput (Orders.inOrder sampleInput) = .ok r ∧
    (r.applied.flatMap (managedValues sampleInput)).Nodup := by
  obtain ⟨P, hsetup, -⟩ := ok_of_any (x := setup sampleInput) (p := fun _ => true) (by decide)
  obtain ⟨r, hr, -⟩ := ok_of_any (x := applyOltControl sampleInput (Orders.inOrder sampleInput))
    (p := fun _ => true) (by decide)
  exact ⟨P, r, hsetup, hr, (values_unique sampleInput_clean (by decide) hsetup hr).1⟩

/-- An OLT that is not managable, in the module of one that is. -/
def sampleShared : Input where
  specs := [(⟨1, 1, 0⟩, ⟨sampleModule, ⟨1, 1, 0⟩, emptyTunnel, [], none, ""⟩),
    (⟨1, 1, 1⟩, ⟨sampleModule, ⟨1, 1, 1⟩, configuredTunnel 167772164 11000, [], none, ""⟩)]
  stored := []
  moduleMgmt := [⟨[sampleModule], [⟨1, 1, 0⟩], none, none⟩]
  oltControl := some sampleGlobal
  bngData := none
  specs_nodup := by decide

/-- Both OLTs have the VNI 11000, although their configuration is as it should be. -/
theorem values_shared : (∀ e ∈ sampleShared.specs, CleanSpec e.2) ∧
    (sampleShared.specs.flatMap fun e => values e.2).Nodup ∧
    ∃ r, applyOltControl sampleShared (Orders.inOrder sampleShared) = .ok r ∧
      r.applied.length = 2 ∧ ¬ (r.applied.flatMap values).Nodup := by
  refine ⟨?_, by decide, ?_⟩
  · intro e he
    rcases List.mem_cons.mp he with rfl | he
    · exact ⟨clean_emptyTunnel, fun pon hpon => by cases hpon⟩
    · obtain rfl := List.mem_singleton.mp he
      refine ⟨?_, fun pon hpon => by cases hpon⟩
      intro hopen
      cases hopen
  · obtain ⟨r, hr, hshared⟩ := ok_of_any
      (x := applyOltControl sampleShared (Orders.inOrder sampleShared))
      (p := fun r => decide (r.applied.length = 2 ∧ ¬ (r.applied.flatMap values).Nodup)) (by decide)
    exact ⟨r, hr, of_decide_eq_true hshared⟩

end Workbench.Olt
