import Workbench.Iface.OltRequests

/-!
# `Iface.OltPasses` — the two passes over all OLTs

What holds of one OLT holds of a pass: the reclaim pass takes values for the specs that are updated and serves the
requests of all of them, the assign pass takes values for the specs that do not fail.

## Main results
* `spends_applyOlts` — the values of the specs in the end are values that specs had, and values that were taken;
* `serves_reclaimUpdates` — the requests of all OLTs;
* `kept_of_reclaimed` — what a spec has after the reclaim pass, it has in the end.
-/

namespace Workbench.Olt

open Iface (OltKey)
open Attempt (Spends Collects)
open Request

variable {inp : Input} {P : Pools}

/-! ## Specs with everything configured -/

theorem mapM_pure_of {α : Type} {f : α → Step α} {xs : List α} (h : ∀ x ∈ xs, f x = pure x) :
    xs.mapM f = pure xs := by
  induction xs with
  | nil => rfl
  | cons x xs ih =>
      rw [List.mapM_cons, h x List.mem_cons_self, ih fun x' hx' => h x' (List.mem_cons_of_mem x hx')]
      rfl

/-- There is nothing to reclaim where everything is configured. -/
theorem reclaimOlt_of_configured {k8s spec : OltSpec} (h : Configured spec) :
    reclaimOlt inp P k8s spec = pure spec := by
  have hmgmt : reclaimOltMgmt inp P k8s spec = pure spec := by
    unfold reclaimOltMgmt reclaimMgmt reclaimOpenTunnel
    rw [if_pos h.mgmt]
    rfl
  have hpon (pon : Pon) (hpon : pon ∈ spec.pons) : reclaimPon inp P spec.moduleKey k8s pon = pure pon := by
    unfold reclaimPon
    split
    · rfl
    · unfold reclaimPonTunnel reclaimData reclaimOpenTunnel reclaimPonStag
      rw [if_pos (h.data pon hpon)]
      show (if pon.sTag.isSome = true then _ else _) = _
      rw [if_pos (h.sTag pon hpon)]
  unfold reclaimOlt reclaimOltPons
  rw [hmgmt, pure_bind, mapM_pure_of hpon]
  rfl

/-! ## The reclaim pass -/

/-- What a pass does with a spec: it takes values only for OLTs that are managable. -/
structure Gains (inp : Input) (spec spec' : OltSpec) (ts : List Value) : Prop where
  gains : SpecGains spec spec' ts
  unmanaged : isOltSpecManagable spec inp.moduleMgmt = false → spec' = spec ∧ ts = []

theorem SpecDone.toGains {spec spec' : OltSpec} {ts : List Value} (h : SpecDone inp spec spec' ts) :
    Gains inp spec spec' ts := ⟨h.gains, h.unmanaged⟩

theorem spends_reclaimUpdate {e : Update} (hclean : CleanSpec e.spec)
    (hconf : isOltSpecManagable e.spec inp.moduleMgmt = false → Configured e.spec) :
    Spends (fun v => P.has v = true) (reclaimUpdate inp P e) (Gains inp e.spec) := by
  unfold reclaimUpdate
  split
  · by_cases hman : isOltSpecManagable e.spec inp.moduleMgmt = true
    · refine (spends_reclaimOlt hclean).mono ?_
      intro spec' ts hgain
      refine ⟨hgain, ?_⟩
      intro hun
      rw [hman] at hun
      cases hun
    · rw [reclaimOlt_of_configured (hconf (by simpa using hman))]
      exact Spends.pure ⟨.refl _, fun _ => ⟨rfl, rfl⟩⟩
  · exact Spends.pure ⟨.refl _, fun _ => ⟨rfl, rfl⟩⟩

/-! ## The orders -/

theorem mem_updates {e : Update} :
    e ∈ updates inp ↔ (e.name, e.spec) ∈ inp.specs ∧ inp.stored.get? e.name = some e.stored := by
  unfold updates
  rw [List.mem_filterMap]
  constructor
  · rintro ⟨e', he', hsome⟩
    obtain ⟨stored, hstored, rfl⟩ := Option.map_eq_some_iff.mp hsome
    exact ⟨he', hstored⟩
  · rintro ⟨hspec, hstored⟩
    exact ⟨(e.name, e.spec), hspec, by rw [hstored]; rfl⟩

/-- The OLT that is updated, among the new specs. -/
def Update.entry (e : Update) : OltKey × OltSpec := (e.name, e.spec)

theorem map_entry_updates : (updates inp).map Update.entry = inp.specs.filter fun e => inp.stored.hasKey e.1 := by
  unfold updates Dict.hasKey
  induction inp.specs with
  | nil => rfl
  | cons e specs ih =>
      rw [List.filterMap_cons, List.filter_cons]
      cases inp.stored.get? e.1 with
      | none => simpa using ih
      | some stored => simpa [Update.entry] using ih

theorem nodup_names (orders : Orders inp) : (orders.update.map Update.name).Nodup := by
  rw [(orders.update_perm.map Update.name).nodup_iff]
  show ((updates inp).map (Prod.fst ∘ Update.entry)).Nodup
  rw [← List.map_map, map_entry_updates]
  exact inp.specs_nodup.sublist (List.filter_sublist.map Prod.fst)

/-- The spec of an OLT after the reclaim pass. -/
def currentSpec (reclaimed : Dict OltKey OltSpec) (e : OltKey × OltSpec) : OltSpec := (reclaimed.get? e.1).getD e.2

theorem get?_zip {order : List Update} {specs : List OltSpec} (hlen : order.length = specs.length)
    (hnd : (order.map Update.name).Nodup) {i : Nat} {e : Update} (he : order[i]? = some e) :
    Dict.get? ((order.map Update.name).zip specs) e.name = specs[i]? := by
  induction order generalizing specs i with
  | nil => cases he
  | cons e₀ order ih =>
      cases specs with
      | nil => cases hlen
      | cons spec specs =>
          rw [List.map_cons, List.nodup_cons] at hnd
          rw [List.map_cons, List.zip_cons_cons, Dict.get?_cons]
          cases i with
          | zero =>
              cases he
              rw [if_pos rfl]
              rfl
          | succ i =>
              have hmem : e ∈ order := List.mem_of_getElem? he
              rw [if_neg]
              · exact ih (by simpa using hlen) hnd.2 he
              · intro heq
                apply hnd.1
                rw [heq]
                exact List.mem_map_of_mem hmem

theorem map_currentSpec {order : List Update} {specs : List OltSpec} (hlen : order.length = specs.length)
    (hnd : (order.map Update.name).Nodup) :
    order.map (fun e => currentSpec ((order.map Update.name).zip specs) e.entry) = specs := by
  apply List.ext_getElem?
  intro i
  rw [List.getElem?_map]
  cases he : order[i]? with
  | none =>
      rw [List.getElem?_eq_none_iff, hlen] at he
      exact (List.getElem?_eq_none_iff.mpr he).symm
  | some e =>
      have hi : i < specs.length := hlen ▸ (List.getElem?_eq_some_iff.mp he).1
      show some ((Dict.get? _ e.name).getD e.spec) = specs[i]?
      rw [get?_zip hlen hnd he, List.getElem?_eq_getElem hi]
      rfl

theorem currentSpec_of_not_stored {orders : Orders inp} {specs : List OltSpec}
    (hlen : orders.update.length = specs.length) {e : OltKey × OltSpec} (he : inp.stored.hasKey e.1 = false) :
    currentSpec ((orders.update.map Update.name).zip specs) e = e.2 := by
  unfold currentSpec
  rw [Dict.get?_eq_none_iff.mpr]
  · rfl
  · unfold Dict.keys
    rw [List.map_fst_zip (by simp [hlen])]
    intro hmem
    obtain ⟨u, hu, heq⟩ := List.mem_map.mp hmem
    have hstored := (mem_updates.mp (orders.update_perm.mem_iff.mp hu)).2
    rw [heq] at hstored
    rw [Dict.hasKey, hstored] at he
    cases he

/-- The new specs are those of the OLTs that are updated, and the others. -/
theorem specs_perm (orders : Orders inp) :
    inp.specs.Perm (orders.update.map Update.entry ++ inp.specs.filter fun e => !inp.stored.hasKey e.1) := by
  have hperm := (List.filter_append_perm (fun e : OltKey × OltSpec => inp.stored.hasKey e.1) inp.specs).symm
  rw [← map_entry_updates] at hperm
  exact hperm.trans ((orders.update_perm.map Update.entry).symm.append_right _)

section

variable {count : OltSpec → List Value}

/-- The count of a spec is all its values, if the OLT is managable. -/
theorem Gains.perm (hcount : ∀ spec, isOltSpecManagable spec inp.moduleMgmt = true → count spec = values spec)
    {spec spec' : OltSpec} {ts : List Value} (h : Gains inp spec spec' ts) :
    (count spec').Perm (count spec ++ ts) := by
  cases hman : isOltSpecManagable spec inp.moduleMgmt with
  | false =>
      obtain ⟨rfl, rfl⟩ := h.unmanaged hman
      rw [List.append_nil]
  | true =>
      have hman' : isOltSpecManagable spec' inp.moduleMgmt = true := by
        unfold isOltSpecManagable
        rw [h.gains.moduleKey, h.gains.key]
        exact hman
      rw [hcount spec hman, hcount spec' hman']
      exact h.gains.values

/-- After the reclaim pass the specs have what they had, and what was taken. -/
theorem perm_currentSpec
    (hcount : ∀ spec, isOltSpecManagable spec inp.moduleMgmt = true → count spec = values spec)
    (orders : Orders inp) {specs : List OltSpec} {ts : List Value}
    (h : Collects (fun e => Gains inp e.spec) orders.update specs ts) :
    (inp.specs.flatMap fun e => count (currentSpec ((orders.update.map Update.name).zip specs) e)).Perm
      ((inp.specs.flatMap fun e => count e.2) ++ ts) := by
  have hlen : orders.update.length = specs.length :=
    (h.forall₂ (R := fun _ _ => True) fun _ _ _ _ => trivial).length_eq
  let others := inp.specs.filter fun e => !inp.stored.hasKey e.1
  have hupdated : (orders.update.map Update.entry).flatMap
      (fun e => count (currentSpec ((orders.update.map Update.name).zip specs) e)) = specs.flatMap count := by
    conv_rhs => rw [← map_currentSpec hlen (nodup_names orders)]
    rw [List.flatMap_map, List.flatMap_map]
  have hothers : others.flatMap
      (fun e => count (currentSpec ((orders.update.map Update.name).zip specs) e)) =
        others.flatMap fun e => count e.2 := by
    apply List.flatMap_congr
    intro e he
    rw [currentSpec_of_not_stored hlen (by simpa using (List.mem_filter.mp he).2)]
  have hgains : (specs.flatMap count).Perm
      ((orders.update.map Update.entry).flatMap (fun e => count e.2) ++ ts) := by
    rw [List.flatMap_map]
    exact h.perm fun _ _ _ hg => hg.perm hcount
  refine ((specs_perm orders).flatMap_right _).trans ?_
  refine .trans ?_ (((specs_perm orders).flatMap_right _).symm.append_right ts)
  rw [List.flatMap_append, List.flatMap_append, hupdated, hothers]
  refine (hgains.append_right _).trans ?_
  rw [List.append_assoc, List.append_assoc]
  exact List.perm_append_comm.append_left _

/-! ## The assign pass -/

/-- What the assign pass does with an entry. -/
def EntryDone (inp : Input) (reclaimed : Dict OltKey OltSpec) (e : OltKey × OltSpec)
    (result : OltKey × Option OltSpec) (ts : List Value) : Prop :=
  result.1 = e.1 ∧ ∀ spec, result.2 = some spec → SpecDone inp (currentSpec reclaimed e) spec ts

theorem spends_assignEntry {reclaimed : Dict OltKey OltSpec} {e : OltKey × OltSpec} :
    Spends (fun v => P.has v = true) (assignEntry inp P reclaimed e) (EntryDone inp reclaimed e) := by
  unfold assignEntry
  refine Spends.bind spends_assignOlt.attempt ?_
  intro result ts hdone
  apply Spends.pure
  rw [List.append_nil]
  exact ⟨rfl, hdone⟩

/-- The specs that do not fail have what they had, and something of what was taken. -/
theorem subperm_assigned
    (hcount : ∀ spec, isOltSpecManagable spec inp.moduleMgmt = true → count spec = values spec)
    {reclaimed : Dict OltKey OltSpec} {es : List (OltKey × OltSpec)} {rs : List (OltKey × Option OltSpec)}
    {ts : List Value} (h : Collects (EntryDone inp reclaimed) es rs ts) :
    ((rs.filterMap Prod.snd).flatMap count).Subperm
      ((es.flatMap fun e => count (currentSpec reclaimed e)) ++ ts) := by
  induction h with
  | nil => exact List.Subperm.refl []
  | @cons e es result rs ts ts' hdone _ ih =>
      -- what was taken for an OLT that fails is in no spec
      have hfirst : ((result.2.map count).getD []).Subperm (count (currentSpec reclaimed e) ++ ts) := by
        cases hresult : result.2 with
        | none => exact List.nil_subperm
        | some spec => exact ((hdone.2 spec hresult).toGains.perm hcount).subperm
      have hboth := hfirst.append ih
      have hsplit : (((result :: rs).filterMap Prod.snd).flatMap count) =
          (result.2.map count).getD [] ++ (rs.filterMap Prod.snd).flatMap count := by
        rw [List.filterMap_cons]
        cases result.2 with
        | none => rfl
        | some spec => rfl
      rw [hsplit, List.flatMap_cons]
      apply hboth.trans
      apply List.Perm.subperm
      rw [List.append_assoc, List.append_assoc]
      exact (List.perm_append_comm_assoc _ _ _).append_left _

end

/-! ## All passes -/

/-- The values of the OLTs that do not fail are values of the new specs and values that were taken. -/
theorem spends_applyOlts {count : OltSpec → List Value} {orders : Orders inp}
    (hcount : ∀ spec, isOltSpecManagable spec inp.moduleMgmt = true → count spec = values spec)
    (hclean : ∀ e ∈ inp.specs, CleanSpec e.2)
    (hconf : ∀ e ∈ inp.specs, isOltSpecManagable e.2 inp.moduleMgmt = false → Configured e.2) :
    Spends (fun v => P.has v = true) (applyOlts inp P orders) fun r ts =>
      (r.applied.flatMap count).Subperm ((inp.specs.flatMap fun e => count e.2) ++ ts) := by
  unfold applyOlts reclaimPass
  have hloop : Spends (fun v => P.has v = true) (orders.update.mapM (reclaimUpdate inp P))
      (Collects (fun e => Gains inp e.spec) orders.update) := by
    apply Spends.mapM
    intro e he
    have hmem := (mem_updates.mp (orders.update_perm.mem_iff.mp he)).1
    exact spends_reclaimUpdate (hclean _ hmem) (hconf _ hmem)
  rw [bind_assoc]
  refine Spends.bind hloop ?_
  intro specs ts hreclaimed
  rw [pure_bind]
  refine Spends.bind (Spends.mapM fun _ _ => spends_assignEntry) ?_
  intro rs ts' hassigned
  apply Spends.pure
  rw [List.append_nil]
  refine (subperm_assigned hcount hassigned).trans ?_
  apply List.Perm.subperm
  rw [← List.append_assoc]
  apply List.Perm.append_right
  exact (orders.all_perm.flatMap_right _).trans (perm_currentSpec hcount orders hreclaimed)

/-- The passes, one by one. -/
theorem applyOlts_eq_ok {orders : Orders inp} {u u' : Marks Value} {r : Result} :
    applyOlts inp P orders u = .ok r u' ↔
      ∃ specs u₁ rs, orders.update.mapM (reclaimUpdate inp P) u = .ok specs u₁ ∧
        orders.all.mapM (assignEntry inp P ((orders.update.map Update.name).zip specs)) u₁ = .ok rs u' ∧
        r = {
          specs := rs
          ops := deletions inp ++ orders.update.filterMap (updateOp rs) ++
            orders.create.filterMap (createOp rs) } := by
  unfold applyOlts reclaimPass
  rw [bind_assoc, Attempt.bind_eq_ok]
  constructor
  · rintro ⟨specs, u₁, hreclaim, hrest⟩
    rw [pure_bind, Attempt.bind_eq_ok] at hrest
    obtain ⟨rs, u₂, hassign, hpure⟩ := hrest
    cases hpure
    exact ⟨specs, u₁, rs, hreclaim, hassign, rfl⟩
  · rintro ⟨specs, u₁, rs, hreclaim, hassign, rfl⟩
    refine ⟨specs, u₁, hreclaim, ?_⟩
    rw [pure_bind, Attempt.bind_ok hassign]
    rfl

/-! ## The requests of all OLTs -/

/-- The requests for an OLT that is updated. Its spec in k8s counts if it is managable. -/
def updateRequests (inp : Input) (e : Update) : List (Request Slot Value) :=
  if isOltSpecManagable e.stored inp.moduleMgmt then oltRequests e.stored e.spec else []

/-- All requests, in the order in which they are served; the slot says the position of the OLT in that order. -/
def requests (inp : Input) (order : List Update) : List (Request (Nat × Slot) Value) :=
  indexed (updateRequests inp) order

def ReadyUpdate (inp : Input) (e : Update) : Prop :=
  isOltSpecManagable e.stored inp.moduleMgmt = true → ReadyOlt inp e.stored e.spec

theorem serves_reclaimUpdate {clean : Prop} {e : Update} (hpool : ¬ Configured e.spec → Pooled P e.spec.moduleKey)
    (hclean : clean → CleanSpec e.spec) :
    Serves P.has readOlt clean (ReadyUpdate inp e) (updateRequests inp e) e.spec (fun _ => True)
      (reclaimUpdate inp P e) := by
  unfold reclaimUpdate updateRequests ReadyUpdate
  split
  · next hman => exact (serves_reclaimOlt hpool hclean).congr (by simp [hman]) rfl fun _ h => h
  · next hman => exact (Serves.pure (Keeps.refl _ _) trivial).congr (by simp [hman]) rfl fun _ h => h

/-- **The reclaim pass** serves the requests of all OLTs that are updated. -/
theorem serves_reclaimUpdates {clean : Prop} {order : List Update}
    (hpool : ∀ e ∈ order, ¬ Configured e.spec → Pooled P e.spec.moduleKey)
    (hclean : clean → ∀ e ∈ order, CleanSpec e.spec) :
    Serves P.has (readAt readOlt) clean (∀ e ∈ order, ReadyUpdate inp e) (requests inp order)
      (order.map Update.spec) (fun specs => List.Forall₂ (fun _ _ => True) order specs)
      (order.mapM (reclaimUpdate inp P)) := by
  apply Serves.mapM
  intro e he
  exact serves_reclaimUpdate (hpool e he) fun hc => hclean hc e he

/-- The set-up makes the pools that are needed. -/
theorem pooled_of_setup (h : setup inp = .ok P) {name : OltKey} {spec : OltSpec} (hspec : (name, spec) ∈ inp.specs)
    (hopen : ¬ Configured spec) : Pooled P spec.moduleKey := by
  have hman : isOltSpecManagable spec inp.moduleMgmt = true := by
    by_contra hun
    exact hopen (configured_of_unmanaged h hspec (by simpa using hun))
  obtain ⟨vnis, hvnis⟩ := vnis_isSome h hspec hman
  obtain ⟨stags, hstags⟩ := stags_isSome h hspec hman
  refine ⟨⟨vnis, ?_⟩, ⟨stags, ?_⟩⟩
  · rw [Pools.vniPool, hvnis]
  · rw [Pools.stagPool, hstags]

theorem mem_specs_of_update {orders : Orders inp} {e : Update} (he : e ∈ orders.update) :
    (e.name, e.spec) ∈ inp.specs := (mem_updates.mp (orders.update_perm.mem_iff.mp he)).1

theorem serves_of_setup (h : setup inp = .ok P) (orders : Orders inp) {clean : Prop}
    (hclean : clean → ∀ e ∈ inp.specs, CleanSpec e.2) :
    Serves P.has (readAt readOlt) clean (∀ e ∈ orders.update, ReadyUpdate inp e) (requests inp orders.update)
      (orders.update.map Update.spec) (fun specs => List.Forall₂ (fun _ _ => True) orders.update specs)
      (orders.update.mapM (reclaimUpdate inp P)) := by
  apply serves_reclaimUpdates
  · intro e he
    exact pooled_of_setup h (mem_specs_of_update he)
  · intro hc e he
    exact hclean hc _ (mem_specs_of_update he)

/-- What a spec has after the reclaim pass, it has in the end. -/
theorem kept_of_reclaimed {orders : Orders inp} {specs : List OltSpec} {rs : Dict OltKey (Option OltSpec)}
    {u u' : Marks Value} (hlen : orders.update.length = specs.length)
    (hassign : orders.all.mapM (assignEntry inp P ((orders.update.map Update.name).zip specs)) u = .ok rs u')
    {i : Nat} {e : Update} (he : orders.update[i]? = some e) {spec : OltSpec}
    (hspec : rs.get? e.name = some (some spec)) {s : Slot} {v : Value}
    (hread : readAt readOlt specs (i, s) = some v) : readOlt spec s = some v := by
  obtain ⟨ts, -, -, -, hcollects⟩ := (Spends.mapM fun _ _ => spends_assignEntry).of_ok hassign
  obtain ⟨entry, _, _, hname, hdone⟩ := hcollects.exists_of_mem (Dict.mem_of_get?_eq_some hspec)
  apply (hdone spec rfl).keeps
  unfold currentSpec
  rw [← hname, get?_zip hlen (nodup_names orders) he]
  obtain ⟨spec₁, hspec₁, hv⟩ := Option.bind_eq_some_iff.mp hread
  rw [hspec₁]
  exact hv

end Workbench.Olt
