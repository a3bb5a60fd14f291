import Workbench.Iface.OltValues

/-!
# `Iface.OltRequests` — the reclaim pass as a list of requests

The reclaim pass serves requests in a fixed order: the OLTs in the order of the iteration, for each its management
tunnel and then its PONs, for each tunnel the VNI and then the `src-ip`, and the s-tag of a PON at last. Which
requests there are does not depend on what is granted.

## Main results
* `oltRequests`, and `ReadyOlt`, what the rest of the update needs;
* `serves_reclaimOlt` — the reclaim pass for one OLT serves its requests;
* `serves_reclaimUpdates` — the whole pass.
-/

namespace Workbench.Olt

open Request

/-! ## The requests -/

/-- The values of the tunnel in k8s, for slots of `t`. They fit if `t` has a `vxlan`. -/
def tunnelRequests (m : ModuleKey) (value : SrcIp → Value) (k8s t : Option Tunnel) :
    List (Request TunnelSlot Value) :=
  match configuredVni k8s, configuredSrcIp k8s with
  | some vni, some ip => [⟨.vni, .vni m vni, hasVxlan t⟩, ⟨.srcIp, value ip, hasVxlan t⟩]
  | _, _ => []

def openTunnelRequests (m : ModuleKey) (value : SrcIp → Value) (k8s t : Option Tunnel) :
    List (Request TunnelSlot Value) :=
  if isVxlanTunnelConfigured t then [] else tunnelRequests m value k8s t

def stagRequests (m : ModuleKey) (k8s pon : Pon) : List (Request PonSlot Value) :=
  if pon.sTag.isSome then [] else k8s.sTag.toList.map fun n => ⟨.sTag, .stag m n, true⟩

def ponRequests (m : ModuleKey) (k8s : OltSpec) (pon : Pon) : List (Request PonSlot Value) :=
  match ponSpecFromOlt k8s pon with
  | none => []
  | some k8sPon =>
      (openTunnelRequests m .dataIp k8sPon.tunnelData pon.tunnelData).map (within .data) ++
        stagRequests m k8sPon pon

/-- The requests for one OLT. -/
def oltRequests (k8s spec : OltSpec) : List (Request Slot Value) :=
  (openTunnelRequests spec.moduleKey .mgmtIp k8s.tunnelMgmt spec.tunnelMgmt).map (within .mgmt) ++
    (indexed (ponRequests spec.moduleKey k8s) spec.pons).map (within .pon)

/-! ## What else the update needs -/

/-- A global configuration that there is must be complete, and the tunnel must have a `vxlan`. -/
def Updatable (cfg : GlobalVxlanCfg) (t : Option Tunnel) : Prop := Complete cfg ∧ hasVxlan t = true

/-- An open management tunnel needs a global configuration. -/
def ReadyMgmt (inp : Input) (t : Option Tunnel) : Prop :=
  isVxlanTunnelConfigured t = false → ∃ cfg, inp.oltControl = some cfg ∧ Updatable cfg t

/-- An open data tunnel is updated if there is a global configuration, even if it is null. -/
def ReadyData (inp : Input) (t : Option Tunnel) : Prop :=
  isVxlanTunnelConfigured t = false → ∀ cfg, inp.bngData = some cfg → Updatable cfg t

/-- A PON without an s-tag is marked, unless its tunnel is null. -/
def ReadyStag (pon : Pon) : Prop := pon.sTag = none → pon.tunnelData = none ∨ hasVxlan pon.tunnelData = true

/-- Only the PONs that are in k8s are updated. -/
def ReadyPon (inp : Input) (k8s : OltSpec) (pon : Pon) : Prop :=
  (ponSpecFromOlt k8s pon).isSome = true → ReadyData inp pon.tunnelData ∧ ReadyStag pon

def ReadyOlt (inp : Input) (k8s spec : OltSpec) : Prop :=
  ReadyMgmt inp spec.tunnelMgmt ∧ ∀ pon ∈ spec.pons, ReadyPon inp k8s pon

/-- The pools of the module are there. -/
structure Pooled (P : Pools) (m : ModuleKey) : Prop where
  vni : ∃ pool, P.vniPool m = .ok pool
  stag : ∃ pool, P.stagPool m = .ok pool

/-! ## One OLT -/

variable {inp : Input} {P : Pools} {m : ModuleKey} {value : SrcIp → Value} {clean : Prop}

/-- The tunnel is a null, or lacks a `vxlan`, as before. -/
structure SameShape (t t' : Option Tunnel) : Prop where
  vxlan : hasVxlan t' = hasVxlan t
  null : t'.isNone = t.isNone

theorem SameShape.refl (t : Option Tunnel) : SameShape t t := ⟨rfl, rfl⟩

theorem SameShape.trans {t t₁ t' : Option Tunnel} (h : SameShape t t₁) (h' : SameShape t₁ t') : SameShape t t' :=
  ⟨h'.vxlan.trans h.vxlan, h'.null.trans h.null⟩

theorem SameShape.of_vxlan {t : Option Tunnel} {v v' : Vxlan} (h : t.bind Tunnel.vxlan = some v) :
    SameShape t (some ⟨some v'⟩) where
  vxlan := by
    rw [hasVxlan, hasVxlan, h]
    rfl
  null := by
    cases t with
    | none => cases h
    | some t => rfl

theorem sameShape_set {t t' : Option Tunnel} {set : Vxlan → Vxlan} (h : setVxlan t set = .ok t') :
    SameShape t t' := by
  obtain ⟨v, hv, rfl⟩ := setVxlan_eq_ok.mp h
  exact .of_vxlan hv

theorem sameShape_update {t t' : Option Tunnel} {cfg : GlobalVxlanCfg}
    (h : updateTunnelFromGlobalVxlanCfg t cfg = .ok t') : SameShape t t' := by
  obtain ⟨-, v, v', hv, rfl, -⟩ := updateTunnelFromGlobalVxlanCfg_eq_ok h
  exact .of_vxlan hv

theorem sameShape_updateData {t t' : Option Tunnel} (h : updateData inp t = .ok t') : SameShape t t' := by
  unfold updateData at h
  split at h
  · cases h
    exact .refl t
  · exact sameShape_update h

theorem sameShape_updateMgmt {t t' : Option Tunnel} (h : updateMgmt inp t = .ok t') : SameShape t t' := by
  unfold updateMgmt at h
  split at h
  · cases h
  · exact sameShape_update h

theorem reclaimVni_eq (hpool : Pooled P m) (vni : Nat) (t : Option Tunnel) :
    reclaimVni P m vni t =
      Attempt.reclaim (P.has (.vni m vni)) (.vni m vni) (setVxlan t fun v => { v with vni := some vni }) t := by
  obtain ⟨pool, hpool⟩ := hpool.vni
  unfold reclaimVni
  rw [hpool]
  rfl

theorem serves_reclaimVni (hpool : Pooled P m) {vni : Nat} {t : Option Tunnel}
    (hopen : clean → vniOf t = none) :
    Serves P.has (readTunnel m value) clean True [⟨.vni, .vni m vni, hasVxlan t⟩] t
      (fun t' => SameShape t t' ∧ srcIpOf t' = srcIpOf t) (reclaimVni P m vni t) := by
  rw [reclaimVni_eq hpool]
  apply Serves.reclaim
  · exact setVxlan_isOk.symm
  · intro t' ht'
    have hset := setVni_values ht'
    refine ⟨⟨sameShape_set ht', hset.2⟩, ?_⟩
    intro hc
    exact ⟨by rw [readTunnel, hset.1]; rfl, keeps_setVni (hopen hc) hset⟩
  · exact ⟨.refl t, rfl⟩

theorem serves_reclaimSrcIp {ip : SrcIp} {t : Option Tunnel} (hopen : clean → srcIpOf t = none) :
    Serves P.has (readTunnel m value) clean True [⟨.srcIp, value ip, hasVxlan t⟩] t
      (SameShape t) (reclaimSrcIp P value ip t) := by
  apply Serves.reclaim
  · exact setVxlan_isOk.symm
  · intro t' ht'
    have hset := setSrcIp_values ht'
    refine ⟨sameShape_set ht', ?_⟩
    intro hc
    exact ⟨by rw [readTunnel, hset.1]; rfl, keeps_setSrcIp (hopen hc) hset⟩
  · exact .refl t

theorem serves_reclaimTunnel (hpool : Pooled P m) {k8s t : Option Tunnel}
    (hopen : clean → vniOf t = none ∧ srcIpOf t = none) :
    Serves P.has (readTunnel m value) clean True (tunnelRequests m value k8s t) t
      (SameShape t) (reclaimTunnel P m value k8s t) := by
  have hleft : Serves P.has (readTunnel m value) clean True [] t (SameShape t)
      (pure t : Step (Option Tunnel)) := Serves.pure (Keeps.refl _ _) (.refl t)
  unfold reclaimTunnel tunnelRequests
  cases configuredVni k8s with
  | none => exact hleft
  | some vni =>
      cases configuredSrcIp k8s with
      | none => exact hleft
      | some ip =>
          have hvni : Serves P.has (readTunnel m value) clean True _ t _ (reclaimVni P m vni t) :=
            serves_reclaimVni hpool fun hc => (hopen hc).1
          have hip (t' : Option Tunnel) (ht' : SameShape t t' ∧ srcIpOf t' = srcIpOf t) :
              Serves P.has (readTunnel m value) clean True [⟨.srcIp, value ip, hasVxlan t⟩] t'
                (SameShape t) (reclaimSrcIp P value ip t') := by
            rw [← ht'.1.vxlan]
            have hserves : Serves P.has (readTunnel m value) clean True _ t' _ (reclaimSrcIp P value ip t') :=
              serves_reclaimSrcIp fun hc => ht'.2.trans (hopen hc).2
            exact hserves.congr Iff.rfl rfl fun _ h => ht'.1.trans h
          exact (hvni.bind hip).congr (by simp) rfl fun _ h => h

theorem serves_reclaimOpenTunnel {k8s t : Option Tunnel} (hpool : isVxlanTunnelConfigured t = false → Pooled P m)
    {update : Option Tunnel → Except Error (Option Tunnel)} {ready : Prop}
    (hready : ∀ t', hasVxlan t' = hasVxlan t → (ready ↔ ∃ t'', update t' = .ok t''))
    (hupdate : ∀ t t', update t = .ok t' → SameValues t t' ∧ SameShape t t') (hclean : clean → Clean t) :
    Serves P.has (readTunnel m value) clean (isVxlanTunnelConfigured t = false → ready)
      (openTunnelRequests m value k8s t) t (SameShape t) (reclaimOpenTunnel P m value update k8s t) := by
  unfold reclaimOpenTunnel openTunnelRequests
  cases hconf : isVxlanTunnelConfigured t with
  | true =>
      refine (Serves.pure (Keeps.refl _ _) (SameShape.refl t)).congr ?_ rfl fun _ h => h
      simp
  | false =>
      have hfirst : Serves P.has (readTunnel m value) clean True _ t _ (reclaimTunnel P m value k8s t) :=
        serves_reclaimTunnel (hpool hconf) fun hc => hclean hc hconf
      have hrest (t' : Option Tunnel) (ht' : SameShape t t') :
          Serves P.has (readTunnel m value) clean ready [] t' (SameShape t)
            (Attempt.lift (update t') : Step (Option Tunnel)) := by
        apply Serves.lift (hready t' ht'.vxlan)
        intro t'' ht''
        obtain ⟨hsame, hshape⟩ := hupdate t' t'' ht''
        refine ⟨?_, ht'.trans hshape⟩
        intro s v hs
        rw [hsame.read]
        exact hs
      exact (hfirst.bind hrest).congr (by simp) (by simp) fun _ h => h

theorem updateMgmt_isOk {t t' : Option Tunnel} (h : hasVxlan t' = hasVxlan t) :
    (∃ cfg, inp.oltControl = some cfg ∧ Updatable cfg t) ↔ ∃ t'', updateMgmt inp t' = .ok t'' := by
  unfold updateMgmt Updatable
  cases inp.oltControl with
  | none => simp
  | some cfg =>
      simp only [Option.some.injEq, exists_eq_left', updateTunnelFromGlobalVxlanCfg_isOk, h]

theorem updateData_isOk {t t' : Option Tunnel} (h : hasVxlan t' = hasVxlan t) :
    (∀ cfg, inp.bngData = some cfg → Updatable cfg t) ↔ ∃ t'', updateData inp t' = .ok t'' := by
  unfold updateData Updatable
  cases inp.bngData with
  | none => simp
  | some cfg =>
      simp only [Option.some.injEq, forall_eq', updateTunnelFromGlobalVxlanCfg_isOk, h]

theorem serves_reclaimPonTunnel {k8s pon : Pon}
    (hpool : isVxlanTunnelConfigured pon.tunnelData = false → Pooled P m) (hclean : clean → Clean pon.tunnelData) :
    Serves P.has (readPon m) clean (ReadyData inp pon.tunnelData)
      ((openTunnelRequests m .dataIp k8s.tunnelData pon.tunnelData).map (within .data)) pon
      (fun pon' => SameShape pon.tunnelData pon'.tunnelData ∧ pon'.sTag = pon.sTag)
      (reclaimPonTunnel inp P m k8s pon) := by
  have htunnel : Serves P.has (readTunnel m .dataIp) clean _ _ pon.tunnelData _
      (reclaimOpenTunnel P m .dataIp (updateData inp) k8s.tunnelData pon.tunnelData) :=
    serves_reclaimOpenTunnel hpool (fun _ h => updateData_isOk h)
      (fun _ _ h => ⟨sameValues_updateData h, sameShape_updateData h⟩) hclean
  apply htunnel.within PonSlot.data (fun t => ({ pon with tunnelData := t } : Pon))
  · intro t s
    rfl
  · intro t hkeeps s v hs
    cases s with
    | data s => exact hkeeps s v hs
    | sTag => exact hs
  · intro t ht
    exact ⟨ht, rfl⟩

theorem markPon_isOk {pon : Pon} :
    (∃ pon', markPon pon = .ok pon') ↔ (pon.tunnelData = none ∨ hasVxlan pon.tunnelData = true) := by
  unfold markPon
  cases hdata : pon.tunnelData with
  | none => simp
  | some t =>
      simp only [Option.isNone_some, Bool.false_eq_true, if_false, reduceCtorEq, false_or]
      have hset : (∃ t', setVxlan (some t) (fun v => { v with dynamicConfigured := true }) = .ok t') ↔ _ :=
        setVxlan_isOk
      rw [← hset]
      unfold markTunnelDynamic
      cases setVxlan (some t) fun v => { v with dynamicConfigured := true } with
      | error e => simp [bind, Except.bind]
      | ok t' => simp [bind, Except.bind, pure, Except.pure]

theorem serves_reclaimStag (hpool : Pooled P m) {k8s pon : Pon} (hopen : pon.sTag = none) :
    Serves P.has (readPon m) clean True (stagRequests m k8s pon) pon
      (fun pon' => pon'.tunnelData = pon.tunnelData) (reclaimStag P m k8s pon) := by
  obtain ⟨pool, hpool⟩ := hpool.stag
  unfold reclaimStag stagRequests
  rw [hopen]
  cases k8s.sTag with
  | none => exact Serves.pure (Keeps.refl _ _) rfl
  | some n =>
      rw [hpool]
      show Serves P.has (readPon m) clean True [⟨.sTag, .stag m n, true⟩] pon _
        (Attempt.reclaim (P.has (.stag m n)) (.stag m n) (.ok { pon with sTag := some n }) pon)
      apply Serves.reclaim
      · simp
      · intro pon' hpon'
        cases hpon'
        refine ⟨rfl, fun _ => ⟨rfl, ?_⟩⟩
        intro s v hs
        cases s with
        | data s => exact hs
        | sTag =>
            rw [readPon, hopen] at hs
            cases hs
      · rfl

theorem serves_reclaimPonStag {k8s pon : Pon} (hpool : pon.sTag = none → Pooled P m) :
    Serves P.has (readPon m) clean (ReadyStag pon) (stagRequests m k8s pon) pon (fun _ => True)
      (reclaimPonStag P m k8s pon) := by
  unfold reclaimPonStag
  cases htag : pon.sTag with
  | some n =>
      refine (Serves.pure (Keeps.refl _ _) trivial).congr ?_ ?_ fun _ h => h
      · simp [ReadyStag, htag]
      · simp [stagRequests, htag]
  | none =>
      have hrest (pon₁ : Pon) (h₁ : pon₁.tunnelData = pon.tunnelData) :
          Serves P.has (readPon m) clean (ReadyStag pon) [] pon₁ (fun _ => True)
            (Attempt.lift (markPon pon₁) : Step Pon) := by
        apply Serves.lift
        · rw [markPon_isOk, h₁]
          simp [ReadyStag, htag]
        · intro pon' hpon'
          refine ⟨?_, trivial⟩
          intro s v hs
          rw [readPon_markPon hpon']
          exact hs
      exact ((serves_reclaimStag (hpool htag) htag).bind hrest).congr (by simp) (by simp) fun _ h => h

theorem serves_reclaimPon {k8s : OltSpec} {pon : Pon}
    (htunnel : isVxlanTunnelConfigured pon.tunnelData = false → Pooled P m) (hstag : pon.sTag = none → Pooled P m)
    (hclean : clean → Clean pon.tunnelData) :
    Serves P.has (readPon m) clean (ReadyPon inp k8s pon) (ponRequests m k8s pon) pon (fun _ => True)
      (reclaimPon inp P m k8s pon) := by
  unfold reclaimPon ponRequests ReadyPon
  cases ponSpecFromOlt k8s pon with
  | none => exact (Serves.pure (Keeps.refl _ _) trivial).congr (by simp) rfl fun _ h => h
  | some k8sPon =>
      have hrest (pon₁ : Pon) (h₁ : SameShape pon.tunnelData pon₁.tunnelData ∧ pon₁.sTag = pon.sTag) :
          Serves P.has (readPon m) clean (ReadyStag pon) (stagRequests m k8sPon pon) pon₁ (fun _ => True)
            (reclaimPonStag P m k8sPon pon₁) := by
        obtain ⟨⟨hvxlan, hnull⟩, htag⟩ := h₁
        apply (serves_reclaimPonStag (by rwa [htag])).congr
        · simp only [ReadyStag, htag, hvxlan, ← Option.isNone_iff_eq_none, hnull]
        · simp only [stagRequests, htag]
        · exact fun _ h => h
      exact ((serves_reclaimPonTunnel htunnel hclean).bind hrest).congr (by simp) rfl fun _ h => h

theorem serves_reclaimOltMgmt {k8s spec : OltSpec}
    (hpool : isVxlanTunnelConfigured spec.tunnelMgmt = false → Pooled P spec.moduleKey)
    (hclean : clean → CleanSpec spec) :
    Serves P.has readOlt clean (ReadyMgmt inp spec.tunnelMgmt)
      ((openTunnelRequests spec.moduleKey .mgmtIp k8s.tunnelMgmt spec.tunnelMgmt).map (within .mgmt)) spec
      (fun spec' => spec'.pons = spec.pons ∧ spec'.moduleKey = spec.moduleKey) (reclaimOltMgmt inp P k8s spec) := by
  have htunnel : Serves P.has (readTunnel spec.moduleKey .mgmtIp) clean _ _ spec.tunnelMgmt _
      (reclaimOpenTunnel P spec.moduleKey .mgmtIp (updateMgmt inp) k8s.tunnelMgmt spec.tunnelMgmt) :=
    serves_reclaimOpenTunnel hpool (fun _ h => updateMgmt_isOk h)
      (fun _ _ h => ⟨sameValues_updateMgmt h, sameShape_updateMgmt h⟩) fun hc => (hclean hc).mgmt
  apply htunnel.within Slot.mgmt (fun t => ({ spec with tunnelMgmt := t } : OltSpec))
  · intro t s
    rfl
  · intro t hkeeps s v hs
    cases s with
    | mgmt s => exact hkeeps s v hs
    | pon s => exact hs
  · intro t _
    exact ⟨rfl, rfl⟩

theorem serves_reclaimOltPons {k8s spec : OltSpec}
    (htunnel : ∀ pon ∈ spec.pons, isVxlanTunnelConfigured pon.tunnelData = false → Pooled P spec.moduleKey)
    (hstag : ∀ pon ∈ spec.pons, pon.sTag = none → Pooled P spec.moduleKey)
    (hclean : clean → ∀ pon ∈ spec.pons, Clean pon.tunnelData) :
    Serves P.has readOlt clean (∀ pon ∈ spec.pons, ReadyPon inp k8s pon)
      ((indexed (ponRequests spec.moduleKey k8s) spec.pons).map (within .pon)) spec (fun _ => True)
      (reclaimOltPons inp P k8s spec) := by
  have hloop : Serves P.has (readAt (readPon spec.moduleKey)) clean (∀ pon ∈ spec.pons, ReadyPon inp k8s pon)
      (indexed (ponRequests spec.moduleKey k8s) spec.pons) (spec.pons.map id)
      (fun pons => List.Forall₂ (fun _ _ => True) spec.pons pons)
      (spec.pons.mapM (reclaimPon inp P spec.moduleKey k8s)) := by
    apply Serves.mapM
    intro pon hpon
    exact serves_reclaimPon (htunnel pon hpon) (hstag pon hpon) fun hc => hclean hc pon hpon
  apply hloop.within Slot.pon (fun pons => ({ spec with pons := pons } : OltSpec))
  · intro pons s
    rfl
  · intro pons hkeeps s v hs
    cases s with
    | mgmt s => exact hs
    | pon s => exact hkeeps s v (by rwa [List.map_id])
  · intro _ _
    trivial

/-- **The reclaim pass for one OLT** serves its requests. A spec with everything configured needs no pool. -/
theorem serves_reclaimOlt {k8s spec : OltSpec} (hpool : ¬ Configured spec → Pooled P spec.moduleKey)
    (hclean : clean → CleanSpec spec) :
    Serves P.has readOlt clean (ReadyOlt inp k8s spec) (oltRequests k8s spec) spec (fun _ => True)
      (reclaimOlt inp P k8s spec) := by
  have hmgmt : Serves P.has readOlt clean (ReadyMgmt inp spec.tunnelMgmt) _ spec _
      (reclaimOltMgmt inp P k8s spec) :=
    serves_reclaimOltMgmt (fun hopen => hpool fun hconf => by rw [hconf.mgmt] at hopen; cases hopen) hclean
  refine hmgmt.bind fun spec₁ h₁ => ?_
  have hpons : Serves P.has readOlt clean (∀ pon ∈ spec₁.pons, ReadyPon inp k8s pon)
      ((indexed (ponRequests spec₁.moduleKey k8s) spec₁.pons).map (within .pon)) spec₁ (fun _ => True)
      (reclaimOltPons inp P k8s spec₁) := by
    apply serves_reclaimOltPons
    · rw [h₁.1, h₁.2]
      intro pon hpon hopen
      apply hpool
      intro hconf
      rw [hconf.data pon hpon] at hopen
      cases hopen
    · rw [h₁.1, h₁.2]
      intro pon hpon hopen
      apply hpool
      intro hconf
      have hsome := hconf.sTag pon hpon
      rw [hopen] at hsome
      cases hsome
    · rw [h₁.1]
      exact fun hc => (hclean hc).data
  rw [h₁.1, h₁.2] at hpons
  exact hpons

end Workbench.Olt
