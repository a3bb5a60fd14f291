import Workbench.Iface.OltApply

/-!
# `Iface.OltValues` — where the values go

Every value that a pass takes out of a pool ends in a spec, and the specs keep the values they had: the values of a
spec afterwards are its values before, and those that were taken for it. The assign pass fills every slot.

## Main results
* `spends_reclaimOlt` — the reclaim pass;
* `spends_assignOlt` — the assign pass, which also keeps what is there and leaves nothing open.
-/

namespace Workbench.Olt

open Attempt (Spends Collects)

/-! ## Values of a tunnel -/

/-- Between configured tunnels and others: a tunnel that is not configured has neither a VNI nor a `src-ip`. -/
def Clean (t : Option Tunnel) : Prop :=
  isVxlanTunnelConfigured t = false → vniOf t = none ∧ srcIpOf t = none

/-- The tunnel has the same values. -/
def SameValues (t t' : Option Tunnel) : Prop := vniOf t' = vniOf t ∧ srcIpOf t' = srcIpOf t

theorem SameValues.read {t t' : Option Tunnel} (h : SameValues t t') (m : ModuleKey) (value : SrcIp → Value) :
    readTunnel m value t' = readTunnel m value t := by
  funext s
  cases s with
  | vni => exact congrArg (Option.map (Value.vni m)) h.1
  | srcIp => exact congrArg (Option.map value) h.2

theorem SameValues.tunnelValues {t t' : Option Tunnel} (h : SameValues t t') (m : ModuleKey)
    (value : SrcIp → Value) : tunnelValues m value t' = tunnelValues m value t := by
  unfold Olt.tunnelValues
  rw [h.read]

theorem sameValues_update {t t' : Option Tunnel} {cfg : GlobalVxlanCfg}
    (h : updateTunnelFromGlobalVxlanCfg t cfg = .ok t') : SameValues t t' := by
  obtain ⟨-, v, v', hv, rfl, hvni, hip, -⟩ := updateTunnelFromGlobalVxlanCfg_eq_ok h
  constructor
  · show v'.vni = (t.bind Tunnel.vxlan).bind Vxlan.vni
    rw [hv, hvni]
    rfl
  · show v'.srcIp = (t.bind Tunnel.vxlan).bind Vxlan.srcIp
    rw [hv, hip]
    rfl

theorem sameValues_updateMgmt {inp : Input} {t t' : Option Tunnel} (h : updateMgmt inp t = .ok t') :
    SameValues t t' := by
  unfold updateMgmt at h
  split at h
  · cases h
  · exact sameValues_update h

theorem sameValues_updateData {inp : Input} {t t' : Option Tunnel} (h : updateData inp t = .ok t') :
    SameValues t t' := by
  unfold updateData at h
  split at h
  · cases h
    exact ⟨rfl, rfl⟩
  · exact sameValues_update h

theorem sameValues_markTunnelDynamic {t t' : Option Tunnel} (h : markTunnelDynamic t = .ok t') :
    SameValues t t' := by
  obtain ⟨v, hv, rfl⟩ := setVxlan_eq_ok.mp h
  constructor
  · show v.vni = (t.bind Tunnel.vxlan).bind Vxlan.vni
    rw [hv]
    rfl
  · show v.srcIp = (t.bind Tunnel.vxlan).bind Vxlan.srcIp
    rw [hv]
    rfl

/-- Marking the tunnel changes no value of the PON. -/
theorem readPon_markPon {pon pon' : Pon} (h : markPon pon = .ok pon') (m : ModuleKey) :
    readPon m pon' = readPon m pon := by
  unfold markPon at h
  split at h
  · cases h
    rfl
  · cases ht : markTunnelDynamic pon.tunnelData with
    | error e =>
        rw [ht] at h
        cases h
    | ok t =>
        rw [ht] at h
        cases h
        funext s
        cases s with
        | data s => exact congrFun ((sameValues_markTunnelDynamic ht).read m .dataIp) s
        | sTag => rfl

/-- Setting the VNI. -/
theorem setVni_values {t t' : Option Tunnel} {n : Nat}
    (h : setVxlan t (fun v => { v with vni := some n }) = .ok t') :
    vniOf t' = some n ∧ srcIpOf t' = srcIpOf t := by
  obtain ⟨v, hv, rfl⟩ := setVxlan_eq_ok.mp h
  refine ⟨rfl, ?_⟩
  show v.srcIp = (t.bind Tunnel.vxlan).bind Vxlan.srcIp
  rw [hv]
  rfl

/-- Setting the `src-ip`. -/
theorem setSrcIp_values {t t' : Option Tunnel} {ip : SrcIp}
    (h : setVxlan t (fun v => { v with srcIp := some ip }) = .ok t') :
    srcIpOf t' = some ip ∧ vniOf t' = vniOf t := by
  obtain ⟨v, hv, rfl⟩ := setVxlan_eq_ok.mp h
  refine ⟨rfl, ?_⟩
  show v.vni = (t.bind Tunnel.vxlan).bind Vxlan.vni
  rw [hv]
  rfl

/-! ## What is taken for a spec -/

variable {inp : Input} {P : Pools} {m : ModuleKey} {value : SrcIp → Value}

/-- The tunnel has what was taken for it. -/
def TunnelGains (m : ModuleKey) (value : SrcIp → Value) (t t' : Option Tunnel) (ts : List Value) : Prop :=
  (tunnelValues m value t').Perm (tunnelValues m value t ++ ts)

def PonGains (m : ModuleKey) (pon pon' : Pon) (ts : List Value) : Prop :=
  (ponValues m pon').Perm (ponValues m pon ++ ts)

/-- The spec has what was taken for it, and is the spec of the same OLT. -/
structure SpecGains (spec spec' : OltSpec) (ts : List Value) : Prop where
  values : (values spec').Perm (values spec ++ ts)
  moduleKey : spec'.moduleKey = spec.moduleKey
  key : spec'.key = spec.key

theorem TunnelGains.of_same {t t' : Option Tunnel} (h : SameValues t t') : TunnelGains m value t t' [] := by
  unfold TunnelGains
  rw [h.tunnelValues, List.append_nil]

theorem TunnelGains.trans_same {t t₁ t' : Option Tunnel} {ts : List Value} (h : TunnelGains m value t t₁ ts)
    (h' : SameValues t₁ t') : TunnelGains m value t t' ts := by
  unfold TunnelGains
  rw [h'.tunnelValues]
  exact h

theorem TunnelGains.trans {t t₁ t' : Option Tunnel} {ts ts' : List Value} (h : TunnelGains m value t t₁ ts)
    (h' : TunnelGains m value t₁ t' ts') : TunnelGains m value t t' (ts ++ ts') := by
  unfold TunnelGains at *
  rw [← List.append_assoc]
  exact h'.trans (h.append_right ts')

/-- An open VNI is filled. -/
theorem TunnelGains.vni {t t' : Option Tunnel} {n : Nat} (hopen : vniOf t = none)
    (h : vniOf t' = some n ∧ srcIpOf t' = srcIpOf t) : TunnelGains m value t t' [.vni m n] := by
  unfold TunnelGains tunnelValues readTunnel
  rw [h.1, h.2, hopen]
  exact List.perm_append_comm

/-- An open `src-ip` is filled. -/
theorem TunnelGains.srcIp {t t' : Option Tunnel} {ip : SrcIp} (hopen : srcIpOf t = none)
    (h : srcIpOf t' = some ip ∧ vniOf t' = vniOf t) : TunnelGains m value t t' [value ip] := by
  unfold TunnelGains tunnelValues readTunnel
  rw [h.1, h.2, hopen, List.append_assoc]
  exact List.Perm.refl _

/-! ## The reclaim pass -/

theorem spends_reclaimTunnel {k8s t : Option Tunnel} (hvni : vniOf t = none) (hip : srcIpOf t = none) :
    Spends (fun v => P.has v = true) (reclaimTunnel P m value k8s t) (TunnelGains m value t) := by
  unfold reclaimTunnel
  split
  · next vni ip _ _ =>
      -- the VNI is reclaimed first, and leaves the `src-ip` open
      have hfirst : Spends (fun v => P.has v = true) (reclaimVni P m vni t)
          fun t' ts => TunnelGains m value t t' ts ∧ srcIpOf t' = none := by
        unfold reclaimVni
        apply Spends.bind (Spends.lift (Q := fun _ ts => ts = []) fun _ _ => rfl)
        rintro _ ts rfl
        apply Spends.reclaim
        · exact fun h => h
        · intro t' ht'
          have hset := setVni_values ht'
          exact ⟨.vni hvni hset, hset.2.trans hip⟩
        · exact ⟨.of_same ⟨rfl, rfl⟩, hip⟩
      refine Spends.bind hfirst ?_
      rintro t' ts ⟨hgain, hopen⟩
      apply Spends.reclaim
      · exact fun h => h
      · intro t'' ht''
        exact hgain.trans (.srcIp hopen (setSrcIp_values ht''))
      · exact hgain.trans (.of_same ⟨rfl, rfl⟩)
  · exact Spends.pure (.of_same ⟨rfl, rfl⟩)

theorem spends_reclaimOpenTunnel {update : Option Tunnel → Except Error (Option Tunnel)} {k8s t : Option Tunnel}
    (hupdate : ∀ t t', update t = .ok t' → SameValues t t') (hclean : Clean t) :
    Spends (fun v => P.has v = true) (reclaimOpenTunnel P m value update k8s t) (TunnelGains m value t) := by
  unfold reclaimOpenTunnel
  split
  · exact Spends.pure (.of_same ⟨rfl, rfl⟩)
  · next hopen =>
      obtain ⟨hvni, hip⟩ := hclean (by simpa using hopen)
      refine Spends.bind (spends_reclaimTunnel hvni hip) ?_
      intro t' ts hgain
      apply Spends.lift
      intro t'' ht''
      rw [List.append_nil]
      exact hgain.trans_same (hupdate t' t'' ht'')

theorem PonGains.of_read {pon pon' : Pon} (h : readPon m pon' = readPon m pon) : PonGains m pon pon' [] := by
  have hdata : tunnelValues m .dataIp pon'.tunnelData = tunnelValues m .dataIp pon.tunnelData := by
    show (readPon m pon' (.data .vni)).toList ++ (readPon m pon' (.data .srcIp)).toList = _
    rw [h]
    rfl
  unfold PonGains ponValues
  rw [hdata, h, List.append_nil]

theorem PonGains.trans {pon pon₁ pon' : Pon} {ts ts' : List Value} (h : PonGains m pon pon₁ ts)
    (h' : PonGains m pon₁ pon' ts') : PonGains m pon pon' (ts ++ ts') := by
  unfold PonGains at *
  rw [← List.append_assoc]
  exact h'.trans (h.append_right ts')

/-- The PON has what was taken for its tunnel. -/
theorem PonGains.data {pon : Pon} {t : Option Tunnel} {ts : List Value}
    (h : TunnelGains m .dataIp pon.tunnelData t ts) : PonGains m pon { pon with tunnelData := t } ts := by
  unfold PonGains ponValues
  apply (List.Perm.append_right _ h).trans
  rw [List.append_assoc, List.append_assoc]
  exact List.perm_append_comm.append_left _

/-- An open s-tag is filled. -/
theorem PonGains.sTag {pon : Pon} {n : Nat} (hopen : pon.sTag = none) :
    PonGains m pon { pon with sTag := some n } [.stag m n] := by
  unfold PonGains ponValues readPon
  rw [hopen, List.append_assoc]
  exact List.Perm.refl _

theorem spends_reclaimPonTunnel {k8s pon : Pon} (hclean : Clean pon.tunnelData) :
    Spends (fun v => P.has v = true) (reclaimPonTunnel inp P m k8s pon)
      fun pon' ts => PonGains m pon pon' ts ∧ pon'.sTag = pon.sTag := by
  unfold reclaimPonTunnel reclaimData
  refine Spends.bind (spends_reclaimOpenTunnel (fun _ _ => sameValues_updateData) hclean) ?_
  intro t ts hgain
  apply Spends.pure
  rw [List.append_nil]
  exact ⟨.data hgain, rfl⟩

theorem spends_reclaimPonStag {k8s pon : Pon} :
    Spends (fun v => P.has v = true) (reclaimPonStag P m k8s pon) (PonGains m pon) := by
  unfold reclaimPonStag
  split
  · exact Spends.pure (.of_read rfl)
  · next hopen =>
      have hnone : pon.sTag = none := by simpa using hopen
      have hfirst : Spends (fun v => P.has v = true) (reclaimStag P m k8s pon) (PonGains m pon) := by
        unfold reclaimStag
        split
        · exact Spends.pure (.of_read rfl)
        · apply Spends.bind (Spends.lift (Q := fun _ ts => ts = []) fun _ _ => rfl)
          rintro _ ts rfl
          apply Spends.reclaim
          · exact fun h => h
          · intro pon' hpon'
            cases hpon'
            exact .sTag hnone
          · exact .of_read rfl
      refine Spends.bind hfirst ?_
      intro pon₁ ts hgain
      apply Spends.lift
      intro pon' hpon'
      exact hgain.trans (.of_read (readPon_markPon hpon' m))

theorem spends_reclaimPon {k8s : OltSpec} {pon : Pon} (hclean : Clean pon.tunnelData) :
    Spends (fun v => P.has v = true) (reclaimPon inp P m k8s pon) (PonGains m pon) := by
  unfold reclaimPon
  split
  · exact Spends.pure (.of_read rfl)
  · refine Spends.bind (spends_reclaimPonTunnel hclean) ?_
    rintro pon₁ ts ⟨hgain, -⟩
    exact spends_reclaimPonStag.mono fun pon' ts' hgain' => hgain.trans hgain'

theorem SpecGains.mgmt {spec : OltSpec} {t : Option Tunnel} {ts : List Value}
    (h : TunnelGains spec.moduleKey .mgmtIp spec.tunnelMgmt t ts) :
    SpecGains spec { spec with tunnelMgmt := t } ts where
  values := by
    unfold Olt.values
    apply (List.Perm.append_right _ h).trans
    rw [List.append_assoc, List.append_assoc]
    exact List.perm_append_comm.append_left _
  moduleKey := rfl
  key := rfl

theorem SpecGains.pons {spec : OltSpec} {pons : List Pon} {ts : List Value}
    (h : (pons.flatMap (ponValues spec.moduleKey)).Perm (spec.pons.flatMap (ponValues spec.moduleKey) ++ ts)) :
    SpecGains spec { spec with pons := pons } ts where
  values := by
    unfold Olt.values
    rw [List.append_assoc]
    exact h.append_left _
  moduleKey := rfl
  key := rfl

theorem SpecGains.trans {spec spec₁ spec' : OltSpec} {ts ts' : List Value} (h : SpecGains spec spec₁ ts)
    (h' : SpecGains spec₁ spec' ts') : SpecGains spec spec' (ts ++ ts') where
  values := by
    rw [← List.append_assoc]
    exact h'.values.trans (h.values.append_right ts')
  moduleKey := h'.moduleKey.trans h.moduleKey
  key := h'.key.trans h.key

theorem SpecGains.refl (spec : OltSpec) : SpecGains spec spec [] where
  values := by rw [List.append_nil]
  moduleKey := rfl
  key := rfl

/-- A tunnel that is not configured has no value of its own. -/
structure CleanSpec (spec : OltSpec) : Prop where
  mgmt : Clean spec.tunnelMgmt
  data : ∀ pon ∈ spec.pons, Clean pon.tunnelData

/-- **The reclaim pass** takes values for the spec, and they are in the spec afterwards. -/
theorem spends_reclaimOlt {k8s spec : OltSpec} (hclean : CleanSpec spec) :
    Spends (fun v => P.has v = true) (reclaimOlt inp P k8s spec) (SpecGains spec) := by
  unfold reclaimOlt
  have hmgmt : Spends (fun v => P.has v = true) (reclaimOltMgmt inp P k8s spec)
      fun spec' ts => SpecGains spec spec' ts ∧ spec'.pons = spec.pons := by
    unfold reclaimOltMgmt reclaimMgmt
    refine Spends.bind (spends_reclaimOpenTunnel (fun _ _ => sameValues_updateMgmt) hclean.mgmt) ?_
    intro t ts hgain
    apply Spends.pure
    rw [List.append_nil]
    exact ⟨.mgmt hgain, rfl⟩
  refine Spends.bind hmgmt ?_
  rintro spec₁ ts ⟨hgain, hpons⟩
  unfold reclaimOltPons
  have hloop : Spends (fun v => P.has v = true) (spec₁.pons.mapM (reclaimPon inp P spec₁.moduleKey k8s))
      (Collects (PonGains spec₁.moduleKey) spec₁.pons) := by
    apply Spends.mapM
    intro pon hpon
    rw [hpons] at hpon
    exact spends_reclaimPon (hclean.data pon hpon)
  refine Spends.bind hloop ?_
  intro pons ts' hcollects
  apply Spends.pure
  rw [List.append_nil]
  exact hgain.trans (.pons (hcollects.perm fun _ _ _ h => h))

/-! ## The assign pass -/

theorem keeps_readTunnel {t t' : Option Tunnel} (hvni : ∀ n, vniOf t = some n → vniOf t' = some n)
    (hip : ∀ ip, srcIpOf t = some ip → srcIpOf t' = some ip) : Keeps (readTunnel m value) t t' := by
  intro s v hread
  cases s with
  | vni =>
      obtain ⟨n, hn, rfl⟩ := Option.map_eq_some_iff.mp hread
      exact Option.map_eq_some_iff.mpr ⟨n, hvni n hn, rfl⟩
  | srcIp =>
      obtain ⟨ip, hip', rfl⟩ := Option.map_eq_some_iff.mp hread
      exact Option.map_eq_some_iff.mpr ⟨ip, hip ip hip', rfl⟩

theorem has_of_mem_vniPool {pool : List Nat} (h : P.vniPool m = .ok pool) {n : Nat} (hn : n ∈ pool) :
    P.has (.vni m n) = true := by
  unfold Pools.vniPool at h
  split at h
  · cases h
  · next heq =>
      cases h
      simp [Pools.has, heq, hn]

theorem has_of_mem_stagPool {pool : List Nat} (h : P.stagPool m = .ok pool) {n : Nat} (hn : n ∈ pool) :
    P.has (.stag m n) = true := by
  unfold Pools.stagPool at h
  split at h
  · cases h
  · next heq =>
      cases h
      simp [Pools.has, heq, hn]

/-- Setting the VNI of a tunnel that has none. -/
theorem keeps_setVni {t t' : Option Tunnel} {n : Nat} (hopen : vniOf t = none)
    (hset : vniOf t' = some n ∧ srcIpOf t' = srcIpOf t) : Keeps (readTunnel m value) t t' := by
  apply keeps_readTunnel
  · intro n' hn'
    rw [hopen] at hn'
    cases hn'
  · intro ip hip
    rw [hset.2, hip]

/-- Setting the `src-ip` of a tunnel that has none. -/
theorem keeps_setSrcIp {t t' : Option Tunnel} {ip : SrcIp} (hopen : srcIpOf t = none)
    (hset : srcIpOf t' = some ip ∧ vniOf t' = vniOf t) : Keeps (readTunnel m value) t t' := by
  apply keeps_readTunnel
  · intro n hn
    rw [hset.2, hn]
  · intro ip' hip'
    rw [hopen] at hip'
    cases hip'

theorem spends_assignMissingVni {t : Option Tunnel} :
    Spends (fun v => P.has v = true) (assignMissingVni P m t) fun t' ts =>
      TunnelGains m value t t' ts ∧ Keeps (readTunnel m value) t t' ∧
        (readTunnel m value t' .vni).isSome = true := by
  unfold assignMissingVni
  split
  · next hnone =>
      have hopen : vniOf t = none := by simpa using hnone
      unfold assignVniFromPool
      apply Spends.bind (Spends.lift (Q := fun pool ts => P.vniPool m = .ok pool ∧ ts = [])
        fun pool hpool => ⟨hpool, rfl⟩)
      rintro pool ts ⟨hpool, rfl⟩
      apply Spends.draw
      · exact fun n hn => has_of_mem_vniPool hpool hn
      · intro n t' ht'
        have hset := setVni_values ht'
        exact ⟨.vni hopen hset, keeps_setVni hopen hset, by rw [readTunnel, hset.1]; rfl⟩
  · next hsome =>
      apply Spends.pure
      refine ⟨.of_same ⟨rfl, rfl⟩, Keeps.refl _ _, ?_⟩
      simpa [readTunnel, Option.isSome_iff_ne_none] using hsome

theorem spends_assignMissingSrcIp {pool : List SrcIp} {t : Option Tunnel}
    (hpool : ∀ ip ∈ pool, P.has (value ip) = true) :
    Spends (fun v => P.has v = true) (assignMissingSrcIp value pool t) fun t' ts =>
      TunnelGains m value t t' ts ∧ Keeps (readTunnel m value) t t' ∧
        (readTunnel m value t' .srcIp).isSome = true := by
  unfold assignMissingSrcIp
  split
  · next hnone =>
      have hopen : srcIpOf t = none := by simpa using hnone
      apply Spends.draw
      · exact hpool
      · intro ip t' ht'
        have hset := setSrcIp_values ht'
        exact ⟨.srcIp hopen hset, keeps_setSrcIp hopen hset, by rw [readTunnel, hset.1]; rfl⟩
  · next hsome =>
      apply Spends.pure
      refine ⟨.of_same ⟨rfl, rfl⟩, Keeps.refl _ _, ?_⟩
      simpa [readTunnel, Option.isSome_iff_ne_none] using hsome

/-- What the assign pass does with a tunnel. -/
structure TunnelDone (m : ModuleKey) (value : SrcIp → Value) (t t' : Option Tunnel) (ts : List Value) : Prop where
  gains : TunnelGains m value t t' ts
  keeps : Keeps (readTunnel m value) t t'
  filled : ∀ s, (readTunnel m value t' s).isSome = true

theorem filled_of_configured {t : Option Tunnel} (h : isVxlanTunnelConfigured t = true) (s : TunnelSlot) :
    (readTunnel m value t s).isSome = true := by
  unfold isVxlanTunnelConfigured at h
  split at h
  · cases h
  · next t =>
      split at h
      · cases h
      · next v hv =>
          simp only [Bool.and_eq_true] at h
          cases s with
          | vni => simpa [readTunnel, vniOf, hv] using h.1.2
          | srcIp => simpa [readTunnel, srcIpOf, hv] using h.1.1.1.1

theorem spends_assignTunnel {pool : List SrcIp} {t : Option Tunnel}
    (hpool : ∀ ip ∈ pool, P.has (value ip) = true) :
    Spends (fun v => P.has v = true) (assignTunnel P m value pool t) (TunnelDone m value t) := by
  unfold assignTunnel
  split
  · apply Spends.lift
    intro t' h
    cases h
  · have hvni : Spends (fun v => P.has v = true) (assignMissingVni P m t) fun t' ts =>
        TunnelGains m value t t' ts ∧ _ := spends_assignMissingVni
    refine Spends.bind hvni ?_
    rintro t₁ ts ⟨hgain, hkeep, hvni⟩
    refine (spends_assignMissingSrcIp (m := m) hpool).mono ?_
    rintro t' ts' ⟨hgain', hkeep', hip⟩
    refine ⟨hgain.trans hgain', hkeep.trans hkeep', ?_⟩
    intro s
    cases s with
    | vni => exact hkeep'.isSome hvni
    | srcIp => exact hip

theorem spends_assignOpenTunnel {pool : List SrcIp} {update : Option Tunnel → Except Error (Option Tunnel)}
    {t : Option Tunnel} (hpool : ∀ ip ∈ pool, P.has (value ip) = true)
    (hupdate : ∀ t t', update t = .ok t' → SameValues t t') :
    Spends (fun v => P.has v = true) (assignOpenTunnel P m value pool update t) (TunnelDone m value t) := by
  unfold assignOpenTunnel
  split
  · next hconf => exact Spends.pure ⟨.of_same ⟨rfl, rfl⟩, Keeps.refl _ _, filled_of_configured hconf⟩
  · refine Spends.bind (spends_assignTunnel hpool) ?_
    intro t₁ ts hdone
    apply Spends.lift
    intro t' ht'
    have hread := (hupdate t₁ t' ht').read m value
    rw [List.append_nil]
    refine ⟨hdone.gains.trans_same (hupdate t₁ t' ht'), ?_, ?_⟩
    · intro s v hs
      rw [hread]
      exact hdone.keeps s v hs
    · intro s
      rw [hread]
      exact hdone.filled s

/-- A PON has all its values, or its `tunnel-data` is null. -/
def FilledPon (m : ModuleKey) (pon : Pon) : Prop := pon.tunnelData = none ∨ ∀ s, (readPon m pon s).isSome = true

/-- What the assign pass does with a PON. -/
structure PonDone (m : ModuleKey) (pon pon' : Pon) (ts : List Value) : Prop where
  gains : PonGains m pon pon' ts
  keeps : Keeps (readPon m) pon pon'
  filled : FilledPon m pon'

theorem spends_assignPonTunnel {pon : Pon} :
    Spends (fun v => P.has v = true) (assignPonTunnel inp P m pon) fun pon' ts =>
      PonGains m pon pon' ts ∧ Keeps (readPon m) pon pon' ∧
        (pon'.tunnelData = none ∨ ∀ s, (readPon m pon' (.data s)).isSome = true) := by
  unfold assignPonTunnel assignData
  by_cases hnull : pon.tunnelData.isNone = true
  · rw [if_pos hnull]
    refine Spends.bind (Spends.pure (Q := fun t ts => t = pon.tunnelData ∧ ts = []) ⟨rfl, rfl⟩) ?_
    rintro t ts ⟨rfl, rfl⟩
    apply Spends.pure
    exact ⟨.of_read rfl, Keeps.refl _ _, Or.inl (Option.isNone_iff_eq_none.mp hnull)⟩
  · rw [if_neg hnull]
    have hpool : ∀ ip ∈ P.dataIps, P.has (.dataIp ip) = true := by
      intro ip hip
      simpa [Pools.has] using hip
    refine Spends.bind (spends_assignOpenTunnel hpool fun _ _ => sameValues_updateData) ?_
    intro t ts hdone
    apply Spends.pure
    rw [List.append_nil]
    refine ⟨.data hdone.gains, ?_, Or.inr hdone.filled⟩
    intro s v hread
    cases s with
    | data s => exact hdone.keeps s v hread
    | sTag => exact hread

theorem spends_assignStagFromPool {pon : Pon} (hopen : pon.sTag = none) :
    Spends (fun v => P.has v = true) (assignStagFromPool P m pon) fun pon' ts =>
      PonGains m pon pon' ts ∧ ∃ n, pon' = { pon with sTag := some n } := by
  unfold assignStagFromPool
  apply Spends.bind (Spends.lift (Q := fun pool ts => P.stagPool m = .ok pool ∧ ts = [])
    fun pool hpool => ⟨hpool, rfl⟩)
  rintro pool ts ⟨hpool, rfl⟩
  apply Spends.draw
  · exact fun n hn => has_of_mem_stagPool hpool hn
  · intro n pon' hpon'
    cases hpon'
    exact ⟨.sTag hopen, n, rfl⟩

theorem spends_assignPonStag {pon : Pon}
    (htunnel : pon.tunnelData = none ∨ ∀ s, (readPon m pon (.data s)).isSome = true) :
    Spends (fun v => P.has v = true) (assignPonStag P m pon) (PonDone m pon) := by
  unfold assignPonStag
  by_cases hcond : (pon.sTag.isNone && pon.tunnelData.isSome) = true
  · rw [if_pos hcond]
    obtain ⟨hopen, hdata⟩ : pon.sTag = none ∧ pon.tunnelData.isSome = true := by simpa using hcond
    refine Spends.bind (spends_assignStagFromPool hopen) ?_
    rintro _ ts ⟨hgain, n, rfl⟩
    apply Spends.lift
    intro pon' hmark
    have hread := readPon_markPon hmark m
    refine ⟨hgain.trans (.of_read hread), ?_, Or.inr ?_⟩
    · -- the s-tag was open, and the tunnel stays as it is
      intro s v hs
      rw [hread]
      cases s with
      | data s => exact hs
      | sTag =>
          rw [readPon, hopen] at hs
          cases hs
    · intro s
      rw [hread]
      cases s with
      | data s =>
          rcases htunnel with hnull | hfilled
          · rw [hnull] at hdata
            cases hdata
          · exact hfilled s
      | sTag => rfl
  · rw [if_neg hcond]
    apply Spends.pure
    refine ⟨.of_read rfl, Keeps.refl _ _, ?_⟩
    rcases htunnel with hnull | hfilled
    · exact Or.inl hnull
    · cases hdata : pon.tunnelData with
      | none => exact Or.inl hdata
      | some t =>
          refine Or.inr fun s => ?_
          cases s with
          | data s => exact hfilled s
          | sTag =>
              have hsome : pon.sTag ≠ none := by simpa [hdata] using hcond
              simpa [readPon, Option.isSome_iff_ne_none] using hsome

theorem spends_assignPon {pon : Pon} :
    Spends (fun v => P.has v = true) (assignPon inp P m pon) (PonDone m pon) := by
  unfold assignPon
  refine Spends.bind spends_assignPonTunnel ?_
  rintro pon₁ ts ⟨hgain, hkeep, htunnel⟩
  refine (spends_assignPonStag htunnel).mono ?_
  intro pon' ts' hdone
  exact ⟨hgain.trans hdone.gains, hkeep.trans hdone.keeps, hdone.filled⟩

/-- Nothing is open in the spec of an OLT that is managable. -/
structure Filled (spec : OltSpec) : Prop where
  mgmt : ∀ s, (readOlt spec (.mgmt s)).isSome = true
  pons : ∀ pon ∈ spec.pons, FilledPon spec.moduleKey pon

/-- What the assign pass does with a spec. -/
structure SpecDone (inp : Input) (spec spec' : OltSpec) (ts : List Value) : Prop where
  gains : SpecGains spec spec' ts
  keeps : Keeps readOlt spec spec'
  filled : isOltSpecManagable spec inp.moduleMgmt = true → Filled spec'
  unmanaged : isOltSpecManagable spec inp.moduleMgmt = false → spec' = spec ∧ ts = []

/-- **The assign pass** keeps the values of the spec and fills what is open. -/
theorem spends_assignOlt {spec : OltSpec} :
    Spends (fun v => P.has v = true) (assignOlt inp P spec) (SpecDone inp spec) := by
  unfold assignOlt
  split
  · next hman =>
    have hpool : ∀ ip ∈ P.mgmtIps, P.has (.mgmtIp ip) = true := by
      intro ip hip
      simpa [Pools.has] using hip
    refine Spends.bind (spends_assignOpenTunnel hpool fun _ _ => sameValues_updateMgmt) ?_
    intro t ts hmgmt
    have hloop : Spends (fun v => P.has v = true) (spec.pons.mapM (assignPon inp P spec.moduleKey))
        (Collects (PonDone spec.moduleKey) spec.pons) := Spends.mapM fun _ _ => spends_assignPon
    refine Spends.bind hloop ?_
    intro pons ts' hcollects
    apply Spends.pure
    rw [List.append_nil]
    refine ⟨?_, ?_, ?_, ?_⟩
    · have hfirst : SpecGains spec { spec with tunnelMgmt := t } ts := .mgmt hmgmt.gains
      exact hfirst.trans (.pons (hcollects.perm fun _ _ _ h => h.gains))
    · intro s v hread
      cases s with
      | mgmt s => exact hmgmt.keeps s v hread
      | pon s => exact Keeps.readAt (hcollects.forall₂ fun _ _ _ h => h.keeps) s v hread
    · intro _
      refine ⟨hmgmt.filled, ?_⟩
      intro pon' hpon'
      obtain ⟨_, _, _, hdone⟩ := hcollects.exists_of_mem hpon'
      exact hdone.filled
    · intro hun
      rw [hman] at hun
      cases hun
  · next hman =>
      apply Spends.pure
      exact ⟨.refl spec, Keeps.refl _ _, fun h => absurd h hman, fun _ => ⟨rfl, rfl⟩⟩

end Workbench.Olt
