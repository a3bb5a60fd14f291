import Workbench.Iface.Spa

/-!
# `Iface.SvcProvApp` — the SPAs of the cluster, in `apply_svc_prov_app`

Three sets of names are made of the SPAs that are there and of the ones that are asked for. A spec without OLTs is then
added to the names to delete and is taken out of the names to update, but not out of the names to create.

## Main results
* `mem_deleteSet` — the names to delete;
* `applySvcProvApp_eq` — the three loops, when the names to delete are those of SPAs that are there;
* `applies_iff` — when the cluster becomes what is asked for.
-/

namespace Workbench.SvcProvApp

open Iface (OltKey)

/-- What is read of `service-provisioning/interface`. -/
structure SpaInterface where
  /-- `all` is not `None`. -/
  all : Bool
  deriving DecidableEq

/-- A spec: what is read of `service-provisioning`, and the rest. -/
structure SpaSpec where
  interface : Option SpaInterface
  serviceProvisioningId : Option Int
  handledOlts : Option (List OltKey)
  rest : String
  deriving DecidableEq

/-- `svc_prov_app_specs`, by the names of the SPAs. -/
abbrev Specs := Dict String SpaSpec

/-- The `software-controls` of the cluster by name, each with what `.get('spec')` is. -/
abbrev SoftwareControls := Dict String (Option SpaSpec)

/-- `name.startswith('svc-prov-app')`. -/
def isSvcProvApp (name : String) : Bool := "svc-prov-app".toList.isPrefixOf name.toList

/-- `re.match('svc-prov-app-(\d+)', name)`. The names in a cluster are ASCII. -/
def hasSpaId (name : String) : Bool :=
  "svc-prov-app-".toList.isPrefixOf name.toList &&
    (name.toList.drop "svc-prov-app-".toList.length).head?.any Char.isDigit

/-! ## The three sets -/

/-- `k8s_svc_prov_apps`. -/
def k8sSvcProvApps (controls : SoftwareControls) : SoftwareControls := controls.filter fun e => isSvcProvApp e.1

/-- `non_lb_spa`. -/
def nonLbSpa (spa : SpaSpec) : Bool :=
  (spa.interface.isNone || spa.interface.any SpaInterface.all) && spa.serviceProvisioningId == some 1

/-- The specs that are added to `delete`. -/
def isDropped (spa : SpaSpec) : Bool := spa.handledOlts.isNone && !nonLbSpa spa

/-- `delete`: a set, without repetitions. -/
def deleteSet (specs : Specs) (apps : SoftwareControls) : List String :=
  specs.foldl (fun delete e => if isDropped e.2 then delete.insert e.1 else delete)
    (apps.keys.filter fun name => decide (name ∉ specs.keys))

/-- `create = new - old`. -/
def createSet (specs : Specs) (apps : SoftwareControls) : List String :=
  specs.keys.filter fun name => decide (name ∉ apps.keys)

/-- `update = (new & old) - delete`. -/
def updateSet (specs : Specs) (apps : SoftwareControls) : List String :=
  (specs.keys.filter fun name => decide (name ∈ apps.keys)).filter fun name => decide (name ∉ deleteSet specs apps)

/-! ## The three loops -/

/-- `none` is the `KeyError` of `k8s_svc_prov_apps[...]`, or the `AttributeError` of `psql_delete_spa`. -/
def deleteSpa (apps controls : SoftwareControls) (name : String) : Option SoftwareControls :=
  if apps.hasKey name && hasSpaId name then some (controls.erase name) else none

def updateSpa (specs : Specs) (apps controls : SoftwareControls) (name : String) : Option SoftwareControls := do
  let spec ← specs.get? name
  let stored ← apps.get? name
  some (if some spec ≠ stored then controls.put name (some spec) else controls)

def createSpa (specs : Specs) (controls : SoftwareControls) (name : String) : Option SoftwareControls := do
  let spec ← specs.get? name
  some (controls.put name (some spec))

/-- `apply_svc_prov_app`, the sets taken in the order `order` gives them; what becomes of the cluster. -/
def applySvcProvApp (order : List String → List String) (specs : Specs) (controls : SoftwareControls) :
    Option SoftwareControls := do
  let apps := k8sSvcProvApps controls
  let controls ← (order (deleteSet specs apps)).foldlM (deleteSpa apps) controls
  let controls ← (order (updateSet specs apps)).foldlM (updateSpa specs apps) controls
  (order (createSet specs apps)).foldlM (createSpa specs) controls

/-! ## What it should do -/

/-- The SPA specs that are kept, and the other controls as they were. -/
def expected (specs : Specs) (controls : SoftwareControls) (name : String) : Option (Option SpaSpec) :=
  if isSvcProvApp name then ((specs.get? name).filter fun spa => !isDropped spa).map some else controls.get? name

/-- **What is asked for**: no exception, the SPAs that are expected, and none that is created and deleted. -/
def Applies (order : List String → List String) (specs : Specs) (controls : SoftwareControls) : Prop :=
  (∃ result, applySvcProvApp order specs controls = some result ∧
    ∀ name, result.get? name = expected specs controls name) ∧
  ∀ name ∈ createSet specs (k8sSvcProvApps controls), name ∉ deleteSet specs (k8sSvcProvApps controls)

/-- A dictionary of specs, all of them of SPAs. -/
structure WellNamed (specs : Specs) : Prop where
  nodup : specs.keys.Nodup
  named : ∀ name ∈ specs.keys, isSvcProvApp name = true

/-- Each spec that is dropped is the one of an SPA that is there. -/
def DroppedAreThere (specs : Specs) (controls : SoftwareControls) : Prop :=
  ∀ e ∈ specs, isDropped e.2 = true → e.1 ∈ controls.keys

/-- The SPAs that are not kept have numbers. -/
def GoneAreNumbered (specs : Specs) (controls : SoftwareControls) : Prop :=
  ∀ name ∈ controls.keys, isSvcProvApp name = true →
    (∀ spa, specs.get? name = some spa → isDropped spa = true) → hasSpaId name = true

variable {specs : Specs} {controls apps : SoftwareControls} {order : List String → List String} {name : String}

/-! ## The sets -/

theorem get?_k8sSvcProvApps (controls : SoftwareControls) (name : String) :
    (k8sSvcProvApps controls).get? name = if isSvcProvApp name then controls.get? name else none :=
  Dict.get?_filter isSvcProvApp controls name

theorem mem_k8sSvcProvApps :
    name ∈ (k8sSvcProvApps controls).keys ↔ isSvcProvApp name = true ∧ name ∈ controls.keys := by
  rw [← Dict.hasKey_iff_mem_keys, ← Dict.hasKey_iff_mem_keys, Dict.hasKey, Dict.hasKey, get?_k8sSvcProvApps]
  by_cases h : isSvcProvApp name
  · simp [h]
  · simp [h]

/-- The loop over the specs adds those that are dropped. -/
theorem mem_addDropped (specs : Specs) (delete : List String) :
    name ∈ specs.foldl (fun delete e => if isDropped e.2 then delete.insert e.1 else delete) delete ↔
      name ∈ delete ∨ ∃ e ∈ specs, e.1 = name ∧ isDropped e.2 = true := by
  induction specs generalizing delete with
  | nil => simp
  | cons e specs ih =>
      rw [List.foldl_cons, ih]
      by_cases h : isDropped e.2
      · rw [if_pos h, List.mem_insert_iff]
        constructor
        · rintro ((rfl | hmem) | ⟨e', he', hd⟩)
          · exact Or.inr ⟨e, List.mem_cons_self, rfl, h⟩
          · exact Or.inl hmem
          · exact Or.inr ⟨e', List.mem_cons_of_mem _ he', hd⟩
        · rintro (hmem | ⟨e', he', rfl, hd⟩)
          · exact Or.inl (Or.inr hmem)
          · rcases List.mem_cons.mp he' with rfl | he'
            · exact Or.inl (Or.inl rfl)
            · exact Or.inr ⟨e', he', rfl, hd⟩
      · rw [if_neg h]
        refine or_congr_right ⟨fun ⟨e', he', hd⟩ => ⟨e', List.mem_cons_of_mem _ he', hd⟩, ?_⟩
        rintro ⟨e', he', rfl, hd⟩
        rcases List.mem_cons.mp he' with rfl | he'
        · exact absurd hd h
        · exact ⟨e', he', rfl, hd⟩

/-- **The names to delete**: of the SPAs that are not asked for, and of the specs that are dropped. -/
theorem mem_deleteSet (hspecs : WellNamed specs) : name ∈ deleteSet specs apps ↔
    (name ∈ apps.keys ∧ specs.get? name = none) ∨ ∃ spa, specs.get? name = some spa ∧ isDropped spa = true := by
  rw [deleteSet, mem_addDropped, List.mem_filter, decide_eq_true_eq, Dict.get?_eq_none_iff]
  refine or_congr_right ⟨?_, ?_⟩
  · rintro ⟨e, he, rfl, hd⟩
    exact ⟨e.2, Dict.get?_eq_some_of_mem hspecs.nodup he, hd⟩
  · rintro ⟨spa, hget, hd⟩
    exact ⟨(name, spa), Dict.mem_of_get?_eq_some hget, rfl, hd⟩

theorem mem_createSet : name ∈ createSet specs apps ↔ name ∈ specs.keys ∧ name ∉ apps.keys := by
  rw [createSet, List.mem_filter, decide_eq_true_eq]

theorem mem_updateSet :
    name ∈ updateSet specs apps ↔ (name ∈ specs.keys ∧ name ∈ apps.keys) ∧ name ∉ deleteSet specs apps := by
  rw [updateSet, List.mem_filter, List.mem_filter, decide_eq_true_eq, decide_eq_true_eq]

/-! ## The loops -/

theorem deleteSpa_eq (happs : name ∈ apps.keys) (hid : hasSpaId name = true) (controls : SoftwareControls) :
    deleteSpa apps controls name = some (controls.erase name) := by
  rw [deleteSpa, Dict.hasKey_iff_mem_keys.mpr happs, hid]
  exact if_pos rfl

/-- The loop over the names to delete. -/
theorem deleteLoop_eq {names : List String} (h : ∀ name ∈ names, name ∈ apps.keys ∧ hasSpaId name = true)
    (controls : SoftwareControls) : ∃ controls', names.foldlM (deleteSpa apps) controls = some controls' ∧
      ∀ name, controls'.get? name = if name ∈ names then none else controls.get? name := by
  refine Dict.foldlM_pass (fun _ => none) fun name hname d _ => ?_
  obtain ⟨happs, hid⟩ := h name hname
  exact ⟨d.erase name, deleteSpa_eq happs hid d, Dict.get?_erase_self d name, fun _ hne => Dict.get?_erase_ne hne d⟩

/-- A name in the loop over `delete` that raises nothing is one of an SPA that is there, and has a number. -/
theorem of_deleteLoop {names : List String} {controls' : SoftwareControls}
    (h : names.foldlM (deleteSpa apps) controls = some controls') :
    ∀ name ∈ names, name ∈ apps.keys ∧ hasSpaId name = true := by
  intro name hname
  obtain ⟨d, d', hturn⟩ := Dict.turn_of_foldlM h name hname
  unfold deleteSpa at hturn
  by_cases hc : apps.hasKey name && hasSpaId name
  · rw [Bool.and_eq_true, Dict.hasKey_iff_mem_keys] at hc
    exact hc
  · rw [if_neg hc] at hturn
    cases hturn

/-- The loop over the names to update: a spec that is stored already need not be stored again. -/
theorem updateLoop_eq {names : List String} (h : ∀ name ∈ names, name ∈ specs.keys ∧ name ∈ apps.keys)
    (hstored : ∀ name ∈ names, controls.get? name = apps.get? name) :
    ∃ controls', names.foldlM (updateSpa specs apps) controls = some controls' ∧
      ∀ name, controls'.get? name = if name ∈ names then (specs.get? name).map some else controls.get? name := by
  refine Dict.foldlM_pass (fun name => (specs.get? name).map some) fun name hname d hd => ?_
  obtain ⟨hspec, happ⟩ := h name hname
  obtain ⟨spec, hspec⟩ := Option.isSome_iff_exists.mp (Dict.hasKey_iff_mem_keys.mpr hspec)
  obtain ⟨stored, happ⟩ := Option.isSome_iff_exists.mp (Dict.hasKey_iff_mem_keys.mpr happ)
  have hturn : updateSpa specs apps d name =
      some (if some spec ≠ stored then d.put name (some spec) else d) := by
    rw [updateSpa, hspec, happ]
    rfl
  by_cases hne : some spec ≠ stored
  · rw [if_pos hne] at hturn
    refine ⟨_, hturn, ?_, fun k hk => Dict.get?_put_ne hk d _⟩
    rw [Dict.get?_put_self, hspec, Option.map_some]
  · rw [if_neg hne] at hturn
    refine ⟨d, hturn, ?_, fun _ _ => rfl⟩
    rcases hd with hd | hd
    · rw [hd, hstored name hname, happ, hspec, ← not_not.mp hne, Option.map_some]
    · exact hd

/-- The loop over the names to create. -/
theorem createLoop_eq {names : List String} (h : ∀ name ∈ names, name ∈ specs.keys) (controls : SoftwareControls) :
    ∃ controls', names.foldlM (createSpa specs) controls = some controls' ∧
      ∀ name, controls'.get? name = if name ∈ names then (specs.get? name).map some else controls.get? name := by
  refine Dict.foldlM_pass (fun name => (specs.get? name).map some) fun name hname d _ => ?_
  obtain ⟨spec, hspec⟩ := Option.isSome_iff_exists.mp (Dict.hasKey_iff_mem_keys.mpr (h name hname))
  refine ⟨d.put name (some spec), by rw [createSpa, hspec]; rfl, ?_, fun k hk => Dict.get?_put_ne hk d _⟩
  rw [Dict.get?_put_self, hspec, Option.map_some]

/-! ## The whole call -/

section

variable (hspecs : WellNamed specs)
include hspecs

theorem isSvcProvApp_of_get? {spa : SpaSpec} (h : specs.get? name = some spa) : isSvcProvApp name = true :=
  hspecs.named name (List.mem_map.mpr ⟨_, Dict.mem_of_get?_eq_some h, rfl⟩)

/-- The names of the specs that are dropped are taken out of what is created and updated. -/
theorem not_mem_of_dropped (hthere : DroppedAreThere specs controls) {spa : SpaSpec} (hget : specs.get? name = some spa)
    (hd : isDropped spa = true) : name ∈ deleteSet specs (k8sSvcProvApps controls) ∧
      name ∉ createSet specs (k8sSvcProvApps controls) ∧ name ∉ updateSet specs (k8sSvcProvApps controls) := by
  have hdelete : name ∈ deleteSet specs (k8sSvcProvApps controls) :=
    (mem_deleteSet hspecs).mpr (Or.inr ⟨spa, hget, hd⟩)
  have happ : name ∈ (k8sSvcProvApps controls).keys :=
    mem_k8sSvcProvApps.mpr ⟨isSvcProvApp_of_get? hspecs hget, hthere _ (Dict.mem_of_get?_eq_some hget) hd⟩
  exact ⟨hdelete, fun h => (mem_createSet.mp h).2 happ, fun h => (mem_updateSet.mp h).2 hdelete⟩

/-- A spec that is kept is created or updated. -/
theorem mem_of_kept (controls : SoftwareControls) {spa : SpaSpec} (hget : specs.get? name = some spa)
    (hd : isDropped spa = false) :
    name ∈ createSet specs (k8sSvcProvApps controls) ∨ name ∈ updateSet specs (k8sSvcProvApps controls) := by
  have hmem : name ∈ specs.keys := List.mem_map.mpr ⟨_, Dict.mem_of_get?_eq_some hget, rfl⟩
  by_cases happ : name ∈ (k8sSvcProvApps controls).keys
  · refine Or.inr (mem_updateSet.mpr ⟨⟨hmem, happ⟩, fun hdelete => ?_⟩)
    rcases (mem_deleteSet hspecs).mp hdelete with ⟨-, hnone⟩ | ⟨spa', hget', hd'⟩
    · rw [hnone] at hget
      cases hget
    · rw [hget, Option.some.injEq] at hget'
      rw [← hget', hd] at hd'
      cases hd'
  · exact Or.inl (mem_createSet.mpr ⟨hmem, happ⟩)

/-- What the three loops leave is what is expected. -/
theorem loops_expected (hthere : DroppedAreThere specs controls) (name : String) :
    (if name ∈ createSet specs (k8sSvcProvApps controls) then (specs.get? name).map some
      else if name ∈ updateSet specs (k8sSvcProvApps controls) then (specs.get? name).map some
      else if name ∈ deleteSet specs (k8sSvcProvApps controls) then none
      else controls.get? name) = expected specs controls name := by
  cases hget : specs.get? name with
  | some spa =>
      rw [expected, if_pos (isSvcProvApp_of_get? hspecs hget), hget]
      by_cases hd : isDropped spa
      · obtain ⟨hdelete, hcreate, hupdate⟩ := not_mem_of_dropped hspecs hthere hget hd
        rw [if_neg hcreate, if_neg hupdate, if_pos hdelete]
        simp [hd]
      · have hkept := mem_of_kept hspecs controls hget (by simpa using hd)
        have hfilter : (some spa).filter (fun spa => !isDropped spa) = some spa := by simp [hd]
        rw [hfilter]
        by_cases hcreate : name ∈ createSet specs (k8sSvcProvApps controls)
        · rw [if_pos hcreate]
        · rw [if_neg hcreate, if_pos (hkept.resolve_left hcreate)]
  | none =>
      have hmem : name ∉ specs.keys := Dict.get?_eq_none_iff.mp hget
      rw [if_neg fun h => hmem (mem_createSet.mp h).1, if_neg fun h => hmem (mem_updateSet.mp h).1.1, expected, hget]
      have hdelete : name ∈ deleteSet specs (k8sSvcProvApps controls) ↔ name ∈ (k8sSvcProvApps controls).keys := by
        rw [mem_deleteSet hspecs, hget]
        simp
      by_cases happ : isSvcProvApp name
      · rw [if_pos happ]
        by_cases hcontrol : name ∈ controls.keys
        · rw [if_pos (hdelete.mpr (mem_k8sSvcProvApps.mpr ⟨happ, hcontrol⟩))]
          rfl
        · rw [if_neg fun h => hcontrol (mem_k8sSvcProvApps.mp (hdelete.mp h)).2, Dict.get?_eq_none_iff.mpr hcontrol]
          rfl
      · rw [if_neg happ, if_neg fun h => happ (mem_k8sSvcProvApps.mp (hdelete.mp h)).1]

/-- The names to delete are of SPAs that are there, and have numbers. -/
theorem mem_apps_of_deleteSet (hthere : DroppedAreThere specs controls) (hnumbered : GoneAreNumbered specs controls) :
    ∀ name ∈ deleteSet specs (k8sSvcProvApps controls),
      name ∈ (k8sSvcProvApps controls).keys ∧ hasSpaId name = true := by
  intro name hdelete
  rcases (mem_deleteSet hspecs).mp hdelete with ⟨happ, hnone⟩ | ⟨spa, hget, hd⟩
  · obtain ⟨hnamed, hmem⟩ := mem_k8sSvcProvApps.mp happ
    exact ⟨happ, hnumbered name hmem hnamed fun spa hget => by rw [hnone] at hget; cases hget⟩
  · have hmem := hthere _ (Dict.mem_of_get?_eq_some hget) hd
    have hnamed := isSvcProvApp_of_get? hspecs hget
    refine ⟨mem_k8sSvcProvApps.mpr ⟨hnamed, hmem⟩, hnumbered name hmem hnamed fun spa' hget' => ?_⟩
    rw [hget, Option.some.injEq] at hget'
    rw [← hget', hd]

/-- **The whole call**, when the names to delete are as they should be. -/
theorem applySvcProvApp_eq (horder : ∀ names, (order names).Perm names) (hthere : DroppedAreThere specs controls)
    (hnumbered : GoneAreNumbered specs controls) : ∃ result, applySvcProvApp order specs controls = some result ∧
      ∀ name, result.get? name = expected specs controls name := by
  have hdelete := mem_apps_of_deleteSet hspecs hthere hnumbered
  obtain ⟨deleted, hdeletes, hdeleted⟩ := deleteLoop_eq
    (fun name hname => hdelete name ((horder _).mem_iff.mp hname)) controls
  have hstored : ∀ name ∈ order (updateSet specs (k8sSvcProvApps controls)),
      deleted.get? name = (k8sSvcProvApps controls).get? name := by
    intro name hname
    obtain ⟨⟨hmem, -⟩, hnot⟩ := mem_updateSet.mp ((horder _).mem_iff.mp hname)
    rw [hdeleted, if_neg fun h => hnot ((horder _).mem_iff.mp h), get?_k8sSvcProvApps,
      if_pos (hspecs.named name hmem)]
  obtain ⟨updated, hupdates, hupdated⟩ := updateLoop_eq
    (fun name hname => (mem_updateSet.mp ((horder _).mem_iff.mp hname)).1) hstored
  have hnew : ∀ name ∈ order (createSet specs (k8sSvcProvApps controls)), name ∈ specs.keys :=
    fun name hname => (mem_createSet.mp ((horder _).mem_iff.mp hname)).1
  obtain ⟨result, hcreates, hresult⟩ := createLoop_eq hnew updated
  refine ⟨result, ?_, fun name => ?_⟩
  · unfold applySvcProvApp
    simp only [hdeletes, hupdates, hcreates, Option.bind_eq_bind, Option.bind_some]
  · rw [hresult, hupdated, hdeleted, ← loops_expected hspecs hthere name]
    simp only [(horder _).mem_iff]

/-- **When the cluster becomes what is asked for.** Each spec that is dropped has to be the one of an SPA that is there:
    a new one is looked up among the SPAs to delete it. -/
theorem applies_iff (horder : ∀ names, (order names).Perm names) :
    Applies order specs controls ↔ DroppedAreThere specs controls ∧ GoneAreNumbered specs controls := by
  constructor
  · rintro ⟨⟨result, hrun, -⟩, -⟩
    obtain ⟨deleted, hdeletes, -⟩ := Option.bind_eq_some_iff.mp hrun
    have hdelete : ∀ name ∈ deleteSet specs (k8sSvcProvApps controls),
        name ∈ (k8sSvcProvApps controls).keys ∧ hasSpaId name = true :=
      fun name hname => of_deleteLoop hdeletes name ((horder _).mem_iff.mpr hname)
    refine ⟨fun e he hd => ?_, fun name hmem hnamed hgone => ?_⟩
    · have hget := Dict.get?_eq_some_of_mem hspecs.nodup he
      exact (mem_k8sSvcProvApps.mp (hdelete e.1 ((mem_deleteSet hspecs).mpr (Or.inr ⟨e.2, hget, hd⟩))).1).2
    · refine (hdelete name ((mem_deleteSet hspecs).mpr ?_)).2
      cases hget : specs.get? name with
      | none => exact Or.inl ⟨mem_k8sSvcProvApps.mpr ⟨hnamed, hmem⟩, rfl⟩
      | some spa => exact Or.inr ⟨spa, rfl, hgone spa hget⟩
  · rintro ⟨hthere, hnumbered⟩
    refine ⟨applySvcProvApp_eq hspecs horder hthere hnumbered, fun name hcreate hdelete => ?_⟩
    exact (mem_createSet.mp hcreate).2 (mem_apps_of_deleteSet hspecs hthere hnumbered name hdelete).1

end

/-- An SPA of a load balance without OLTs. -/
def idleSpa : SpaSpec := ⟨some ⟨false⟩, some 2, none, ""⟩

/-- A single SPA is created, and the idle one, which was there, is deleted. -/
theorem applies_sample : Applies id [("svc-prov-app-2", idleSpa), ("svc-prov-app-1", ⟨none, some 1, none, ""⟩)]
    [("olt-control-1-1-1", none), ("svc-prov-app-2", some idleSpa)] :=
  (applies_iff ⟨by decide, by decide⟩ fun names => List.Perm.refl names).mpr ⟨by unfold DroppedAreThere; decide,
    by unfold GoneAreNumbered; decide⟩

/-- A new SPA without OLTs is looked up among the SPAs that are there. -/
theorem applies_wrong : applySvcProvApp id [("svc-prov-app-2", idleSpa)] [] = none ∧
    ¬ Applies id [("svc-prov-app-2", idleSpa)] [] := by
  have hrun : applySvcProvApp id [("svc-prov-app-2", idleSpa)] [] = none := by decide
  refine ⟨hrun, ?_⟩
  rintro ⟨⟨result, hsome, -⟩, -⟩
  rw [hrun] at hsome
  cases hsome

end Workbench.SvcProvApp
