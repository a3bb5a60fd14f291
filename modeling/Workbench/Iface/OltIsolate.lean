import Workbench.Iface.OltUnique

/-!
# `Iface.OltIsolate` — one OLT that fails, and the others

The assign pass runs in a `try` block for each OLT, the reclaim pass does not. So an OLT that cannot get its values is
put aside and the others do not notice, as long as the reclaim pass returns.

## Main results
* `framed_reclaimUpdate`, `framed_assignEntry` — values that nobody takes have no influence;
* `applyOlts_erase` — the run without an OLT, with the values it has taken used from the start, does the same with the
  others;
* `isolated_iff` — exactly when `apply_olt_control` isolates the OLTs that fail.
-/

namespace Workbench.Olt

open Iface (OltKey)
open Attempt (Framed FramedError Spends)
open Request

variable {inp : Input} {P : Pools} {m : ModuleKey} {value : SrcIp → Value}

/-! ## Values without influence -/

/-- A computation that takes values of the pools, and is without influence of the others. -/
abbrev FramedIn (P : Pools) {α : Type} (c : Step α) : Prop := Framed (fun v => P.has v = true) c

theorem framed_reclaim {α : Type} (v : Value) (x' : Except Error α) (x : α) :
    FramedIn P (Attempt.reclaim (P.has v) v x' x) := by
  apply Framed.reclaim
  exact fun h => h

theorem framed_reclaimTunnel (k8s t : Option Tunnel) : FramedIn P (reclaimTunnel P m value k8s t) := by
  unfold reclaimTunnel
  split
  · apply Framed.bind
    · exact Framed.bind (Framed.lift _) fun _ => framed_reclaim _ _ _
    · intro t'
      exact framed_reclaim _ _ _
  · exact Framed.pure t

theorem framed_reclaimOpenTunnel (update : Option Tunnel → Except Error (Option Tunnel)) (k8s t : Option Tunnel) :
    FramedIn P (reclaimOpenTunnel P m value update k8s t) := by
  unfold reclaimOpenTunnel
  split
  · exact Framed.pure t
  · exact Framed.bind (framed_reclaimTunnel k8s t) fun t' => Framed.lift _

theorem framed_reclaimPonStag (k8s pon : Pon) : FramedIn P (reclaimPonStag P m k8s pon) := by
  unfold reclaimPonStag
  split
  · exact Framed.pure pon
  · apply Framed.bind
    · unfold reclaimStag
      split
      · exact Framed.pure pon
      · exact Framed.bind (Framed.lift _) fun _ => framed_reclaim _ _ _
    · intro pon'
      exact Framed.lift _

theorem framed_reclaimPon (k8s : OltSpec) (pon : Pon) : FramedIn P (reclaimPon inp P m k8s pon) := by
  unfold reclaimPon
  split
  · exact Framed.pure pon
  · apply Framed.bind
    · exact Framed.bind (framed_reclaimOpenTunnel _ _ _) fun t => Framed.pure _
    · intro pon'
      exact framed_reclaimPonStag _ pon'

theorem framed_reclaimUpdate (e : Update) : FramedIn P (reclaimUpdate inp P e) := by
  unfold reclaimUpdate
  split
  · apply Framed.bind
    · exact Framed.bind (framed_reclaimOpenTunnel _ _ _) fun t => Framed.pure _
    · intro spec
      exact Framed.bind (Framed.mapM (framed_reclaimPon e.stored) _) fun pons => Framed.pure _
  · exact Framed.pure e.spec

/-- The same whether the computation returns or raises. -/
structure Quiet (P : Pools) {α : Type} (c : Step α) : Prop where
  framed : FramedIn P c
  error : FramedError c

namespace Quiet

variable {α β : Type}

theorem pure (a : α) : Quiet P (pure a : Step α) := ⟨Framed.pure a, FramedError.pure a⟩

theorem lift (x : Except Error α) : Quiet P (Attempt.lift x : Step α) := ⟨Framed.lift x, FramedError.lift x⟩

theorem bind {c : Step α} {k : α → Step β} (hc : Quiet P c) (hk : ∀ a, Quiet P (k a)) : Quiet P (c >>= k) where
  framed := hc.framed.bind fun a => (hk a).framed
  error := FramedError.bind hc.framed hc.error (fun a => (hk a).framed) fun a => (hk a).error

theorem mapM {f : α → Step β} (h : ∀ x, Quiet P (f x)) (xs : List α) : Quiet P (xs.mapM f) where
  framed := Framed.mapM (fun x => (h x).framed) xs
  error := FramedError.mapM (fun x => (h x).framed) (fun x => (h x).error) xs

end Quiet

theorem quiet_draw_setVxlan {β : Type} {value : β → Value} {pool : List β}
    (hpool : ∀ b ∈ pool, P.has (value b) = true) (t : Option Tunnel) (set : β → Vxlan → Vxlan) (exhausted : Error) :
    Quiet P (Attempt.draw value pool (fun b => setVxlan t (set b)) exhausted) where
  framed := Framed.draw hpool _ _
  error := by
    apply FramedError.draw
    intro b b' a hset
    exact setVxlan_isOk.mpr (setVxlan_isOk.mp ⟨a, hset⟩)

theorem quiet_assignVniFromPool (t : Option Tunnel) : Quiet P (assignVniFromPool P m t) := by
  unfold assignVniFromPool
  cases hpool : P.vniPool m with
  | error e => exact Quiet.lift (.error e)
  | ok pool =>
      have hin : ∀ n ∈ pool, P.has (.vni m n) = true := fun n hn => has_of_mem_vniPool hpool hn
      exact quiet_draw_setVxlan hin _ _ _

theorem quiet_assignStagFromPool (pon : Pon) : Quiet P (assignStagFromPool P m pon) := by
  unfold assignStagFromPool
  cases hpool : P.stagPool m with
  | error e => exact Quiet.lift (.error e)
  | ok pool =>
      have hin : ∀ n ∈ pool, P.has (.stag m n) = true := fun n hn => has_of_mem_stagPool hpool hn
      show Quiet P (Attempt.draw (.stag m) pool (fun n => .ok { pon with sTag := some n }) _)
      refine ⟨Framed.draw hin _ _, FramedError.draw ?_⟩
      intro n n' pon' _
      exact ⟨_, rfl⟩

theorem quiet_assignTunnel {pool : List SrcIp} (hpool : ∀ ip ∈ pool, P.has (value ip) = true) (t : Option Tunnel) :
    Quiet P (assignTunnel P m value pool t) := by
  unfold assignTunnel
  split
  · exact Quiet.lift _
  · apply Quiet.bind
    · unfold assignMissingVni
      split
      · exact quiet_assignVniFromPool t
      · exact Quiet.pure t
    · intro t'
      unfold assignMissingSrcIp
      split
      · exact quiet_draw_setVxlan hpool _ _ _
      · exact Quiet.pure t'

theorem quiet_assignOpenTunnel {pool : List SrcIp} (hpool : ∀ ip ∈ pool, P.has (value ip) = true)
    (update : Option Tunnel → Except Error (Option Tunnel)) (t : Option Tunnel) :
    Quiet P (assignOpenTunnel P m value pool update t) := by
  unfold assignOpenTunnel
  split
  · exact Quiet.pure t
  · exact Quiet.bind (quiet_assignTunnel hpool t) fun t' => Quiet.lift _

theorem quiet_assignPonStag (pon : Pon) : Quiet P (assignPonStag P m pon) := by
  unfold assignPonStag
  split
  · exact Quiet.bind (quiet_assignStagFromPool pon) fun pon' => Quiet.lift _
  · exact Quiet.pure pon

theorem has_of_mem_mgmtIps : ∀ ip ∈ P.mgmtIps, P.has (.mgmtIp ip) = true := by
  intro ip hip
  simpa [Pools.has] using hip

theorem has_of_mem_dataIps : ∀ ip ∈ P.dataIps, P.has (.dataIp ip) = true := by
  intro ip hip
  simpa [Pools.has] using hip

theorem quiet_assignPon (pon : Pon) : Quiet P (assignPon inp P m pon) := by
  unfold assignPon
  apply Quiet.bind
  · apply Quiet.bind
    · unfold assignData
      split
      · exact Quiet.pure _
      · exact quiet_assignOpenTunnel has_of_mem_dataIps _ _
    · intro t
      exact Quiet.pure _
  · exact quiet_assignPonStag

theorem quiet_assignOlt (spec : OltSpec) : Quiet P (assignOlt inp P spec) := by
  unfold assignOlt
  split
  · apply Quiet.bind (quiet_assignOpenTunnel has_of_mem_mgmtIps _ _)
    intro t
    exact Quiet.bind (Quiet.mapM quiet_assignPon _) fun pons => Quiet.pure _
  · exact Quiet.pure spec

theorem framed_assignEntry (reclaimed : Dict OltKey OltSpec) (e : OltKey × OltSpec) :
    FramedIn P (assignEntry inp P reclaimed e) := by
  have hquiet : Quiet P (assignOlt inp P (currentSpec reclaimed e)) := quiet_assignOlt _
  exact Framed.bind (Framed.attempt hquiet.framed hquiet.error) fun spec => Framed.pure _

/-! ## The run without an OLT -/

/-- The input without the OLT `x`. -/
def Input.erase (inp : Input) (x : OltKey) : Input where
  specs := inp.specs.erase x
  stored := inp.stored
  moduleMgmt := inp.moduleMgmt
  oltControl := inp.oltControl
  bngData := inp.bngData
  specs_nodup := inp.specs_nodup.sublist (List.filter_sublist.map Prod.fst)

theorem updates_erase (x : OltKey) :
    updates (inp.erase x) = (updates inp).filter fun e => decide (e.name ≠ x) := by
  show (inp.specs.filter fun e => decide (e.1 ≠ x)).filterMap
    (fun e => (inp.stored.get? e.1).map fun stored => (⟨e.1, stored, e.2⟩ : Update)) = _
  unfold updates
  induction inp.specs with
  | nil => rfl
  | cons e specs ih =>
      rw [List.filterMap_cons, List.filter_cons]
      cases hstored : inp.stored.get? e.1 with
      | none =>
          by_cases hx : e.1 = x
          · simpa [hx] using ih
          · simpa [hx, hstored] using ih
      | some stored =>
          by_cases hx : e.1 = x
          · simpa [hx] using ih
          · simpa [hx, hstored] using ih

theorem creates_erase (x : OltKey) :
    creates (inp.erase x) = (creates inp).filter fun name => decide (name ≠ x) := by
  show ((inp.specs.filter fun e => decide (e.1 ≠ x)).map Prod.fst).filter _ =
    ((inp.specs.map Prod.fst).filter _).filter _
  rw [List.filter_filter, List.filter_map, List.filter_map, List.filter_filter]
  congr 2
  funext e
  exact Bool.and_comm _ _

/-- The same orders, without the OLT `x`. -/
def Orders.erase (orders : Orders inp) (x : OltKey) : Orders (inp.erase x) where
  update := orders.update.filter fun e => decide (e.name ≠ x)
  create := orders.create.filter fun name => decide (name ≠ x)
  all := Dict.erase orders.all x
  update_perm := by
    rw [updates_erase]
    exact orders.update_perm.filter _
  create_perm := by
    rw [creates_erase]
    exact orders.create_perm.filter _
  all_perm := orders.all_perm.filter _

/-- The updated specs by name, without the OLT `x`. -/
theorem zip_erase {order : List Update} {specs : List OltSpec} (hlen : order.length = specs.length) (x : OltKey) :
    ((order.filter fun e => decide (e.name ≠ x)).map Update.name).zip
        (((order.zip specs).filter fun q => decide (q.1.name ≠ x)).map Prod.snd) =
      Dict.erase ((order.map Update.name).zip specs) x := by
  induction order generalizing specs with
  | nil => rfl
  | cons e order ih =>
      cases specs with
      | nil => cases hlen
      | cons spec specs =>
          have ih := @ih specs (by simpa using hlen)
          rw [List.zip_cons_cons, List.map_cons, List.zip_cons_cons, List.filter_cons, List.filter_cons]
          unfold Dict.erase at ih ⊢
          rw [List.filter_cons]
          by_cases hx : e.name = x
          · simpa [hx] using ih
          · simpa [hx] using ih

theorem snd_zip_erase {es : List (OltKey × OltSpec)} {rs : Dict OltKey (Option OltSpec)}
    (h : List.Forall₂ (fun e r => r.1 = e.1) es rs) (x : OltKey) :
    ((es.zip rs).filter fun q => decide (q.1.1 ≠ x)).map Prod.snd = Dict.erase rs x := by
  induction h with
  | nil => rfl
  | @cons e r es rs hname _ ih =>
      rw [List.zip_cons_cons, List.filter_cons]
      unfold Dict.erase at ih ⊢
      rw [List.filter_cons]
      by_cases hx : e.1 = x
      · simpa [hx, hname] using ih
      · simpa [hx, hname] using ih

theorem currentSpec_erase (reclaimed : Dict OltKey OltSpec) {x : OltKey} {e : OltKey × OltSpec} (hx : e.1 ≠ x) :
    currentSpec (reclaimed.erase x) e = currentSpec reclaimed e := by
  unfold currentSpec
  rw [Dict.get?_erase_ne (Ne.symm hx)]

theorem mapM_congr {α β : Type} {f g : α → Step β} {xs : List α} (h : ∀ x ∈ xs, f x = g x) :
    xs.mapM f = xs.mapM g := by
  induction xs with
  | nil => rfl
  | cons x xs ih =>
      rw [List.mapM_cons, List.mapM_cons, h x List.mem_cons_self, ih fun x' hx' => h x' (List.mem_cons_of_mem x hx')]

/-- **The run without an OLT**: when the values that were taken for `x` are used from the start, the others get the
    same. -/
theorem applyOlts_erase {orders : Orders inp} {u u' : Marks Value} {r : Result}
    (h : applyOlts inp P orders u = .ok r u') (x : OltKey) :
    ∃ ts : List Value, (∀ t ∈ ts, P.has t = true) ∧ ∃ r',
      applyOlts (inp.erase x) P (orders.erase x) (u.addAll ts) = .ok r' u' ∧ r'.specs = Dict.erase r.specs x := by
  obtain ⟨specs, u₁, rs, hreclaim, hassign, rfl⟩ := applyOlts_eq_ok.mp h
  have hlen : orders.update.length = specs.length := by
    have hframed (e : Update) : FramedIn P (reclaimUpdate inp P e) := framed_reclaimUpdate e
    obtain ⟨ts, -, -, -, hcollects⟩ := (Spends.mapM fun e _ => (hframed e).spends).of_ok hreclaim
    exact (hcollects.forall₂ (R := fun _ _ => True) fun _ _ _ _ => trivial).length_eq
  have hnames : List.Forall₂ (fun e r => r.1 = e.1) orders.all rs := by
    obtain ⟨ts, -, -, -, hcollects⟩ := (Spends.mapM fun _ _ => spends_assignEntry).of_ok hassign
    exact hcollects.forall₂ fun _ _ _ hdone => hdone.1
  obtain ⟨ts, hnd, hfree, hrun⟩ :=
    Framed.mapM_filter framed_reclaimUpdate (fun e => decide (e.name ≠ x)) hreclaim
  obtain ⟨ts', hnd', hfree', hrun'⟩ :=
    Framed.mapM_filter (framed_assignEntry _) (fun e => decide (e.1 ≠ x)) hassign
  refine ⟨ts ++ ts', ?_, ?_⟩
  · intro t ht
    rcases List.mem_append.mp ht with ht | ht
    · exact (hfree t ht).1
    · exact (hfree' t ht).1
  · -- what the assign pass takes for `x` is not used by the reclaim pass
    have hframed : FramedIn P ((orders.erase x).update.mapM (reclaimUpdate (inp.erase x) P)) :=
      Framed.mapM framed_reclaimUpdate _
    have hfirst := hframed.frame_addAll hrun hnd' fun t ht => (hfree' t ht).2
    rw [Marks.addAll_addAll] at hfirst
    refine ⟨⟨Dict.erase rs x, _⟩, applyOlts_eq_ok.mpr ⟨_, _, Dict.erase rs x, hfirst, ?_, rfl⟩, rfl⟩
    rw [snd_zip_erase hnames x] at hrun'
    refine Eq.trans ?_ hrun'
    show (Dict.erase orders.all x).mapM (assignEntry inp P _) _ = _
    rw [show ((orders.erase x).update.map Update.name).zip _ = _ from zip_erase hlen x]
    apply congrFun
    apply mapM_congr
    intro e he
    have hx : e.1 ≠ x := by simpa using (List.mem_filter.mp he).2
    unfold assignEntry
    rw [show ((Dict.erase _ x).get? e.1).getD e.2 = _ from currentSpec_erase _ hx]
    rfl

/-! ## What is done in k8s -/

/-- What is done for the OLTs other than `x`. -/
def opsWithout (x : OltKey) (ops : List Op) : List Op := ops.filter fun op => decide (op.name ≠ x)

theorem opsWithout_append (x : OltKey) (ops ops' : List Op) :
    opsWithout x (ops ++ ops') = opsWithout x ops ++ opsWithout x ops' := List.filter_append ..

/-- Two loops do the same without `x` if they do the same for every other OLT. -/
theorem opsWithout_filterMap {α : Type} {name : α → OltKey} {f g : α → Option Op} {x : OltKey} {es : List α}
    (hname : ∀ e op, f e = some op → op.name = name e) (hsame : ∀ e ∈ es, name e ≠ x → f e = g e) :
    opsWithout x (es.filterMap f) = opsWithout x ((es.filter fun e => decide (name e ≠ x)).filterMap g) := by
  induction es with
  | nil => rfl
  | cons e es ih =>
      have ih := ih fun e' he' => hsame e' (List.mem_cons_of_mem e he')
      unfold opsWithout at ih ⊢
      by_cases hx : name e = x
      · -- an operation for `x` is filtered out
        rw [List.filter_cons_of_neg (by simpa using hx), ← ih, List.filterMap_cons]
        cases hf : f e with
        | none => rfl
        | some op => exact List.filter_cons_of_neg (by simp [hname e op hf, hx])
      · rw [List.filter_cons_of_pos (by simpa using hx), List.filterMap_cons, List.filterMap_cons,
          hsame e List.mem_cons_self hx]
        cases hg : g e with
        | none => exact ih
        | some op =>
            show List.filter _ (op :: _) = List.filter _ (op :: _)
            rw [List.filter_cons, List.filter_cons, ih]

theorem name_updateOp {specs : Dict OltKey (Option OltSpec)} (e : Update) (op : Op)
    (h : updateOp specs e = some op) : op.name = e.name := by
  unfold updateOp at h
  split at h
  · split at h
    · cases h
    · cases h
      rfl
  · cases h
    rfl

theorem name_createOp {specs : Dict OltKey (Option OltSpec)} (name : OltKey) (op : Op)
    (h : createOp specs name = some op) : op.name = name := by
  unfold createOp at h
  split at h
  · cases h
    rfl
  · cases h

theorem mem_deletions {op : Op} (h : op ∈ deletions inp) :
    inp.specs.hasKey op.name = false ∧ op = .delete op.name := by
  obtain ⟨e, -, hop⟩ := List.mem_filterMap.mp h
  split at hop
  · cases hop
  · next hgone =>
    cases hop
    refine ⟨?_, rfl⟩
    cases hkey : inp.specs.hasKey e.1 with
    | false => exact hkey
    | true => exact absurd (by rw [hkey]; rfl) hgone

theorem hasKey_erase_ne {α : Type} {d : Dict OltKey α} {x name : OltKey} (hx : name ≠ x) :
    (d.erase x).hasKey name = d.hasKey name := by
  unfold Dict.hasKey
  rw [Dict.get?_erase_ne (Ne.symm hx)]

/-- The OLT of an entry is deleted if it is gone and not protected. -/
theorem name_deletion {inp : Input} (e : OltKey × OltSpec) (op : Op)
    (h : (if inp.specs.hasKey e.1 || e.2.protectedFromDeletion == some true then none
      else some (Op.delete e.1)) = some op) : op.name = e.1 := by
  split at h
  · cases h
  · cases h
    rfl

theorem opsWithout_deletions (x : OltKey) :
    opsWithout x (deletions inp) = opsWithout x (deletions (inp.erase x)) := by
  have hthere : opsWithout x (deletions inp) = opsWithout x _ :=
    opsWithout_filterMap (g := fun e =>
      if (inp.erase x).specs.hasKey e.1 || e.2.protectedFromDeletion == some true then none
      else some (Op.delete e.1)) name_deletion fun e _ hx => by
        rw [show (inp.erase x).specs.hasKey e.1 = _ from hasKey_erase_ne hx]
  rw [hthere]
  exact (opsWithout_filterMap name_deletion fun _ _ _ => rfl).symm

/-- What the run without `x` does in k8s is what the run does for the others. -/
theorem opsWithout_erase {orders : Orders inp} {rs : Dict OltKey (Option OltSpec)} (x : OltKey) :
    opsWithout x (deletions inp ++ orders.update.filterMap (updateOp rs) ++ orders.create.filterMap (createOp rs)) =
      opsWithout x (deletions (inp.erase x) ++ (orders.erase x).update.filterMap (updateOp (Dict.erase rs x)) ++
        (orders.erase x).create.filterMap (createOp (Dict.erase rs x))) := by
  have hget {name : OltKey} (hx : name ≠ x) : Dict.get? (Dict.erase rs x) name = Dict.get? rs name :=
    Dict.get?_erase_ne (Ne.symm hx) rs
  simp only [opsWithout_append]
  congr 1
  · congr 1
    · exact opsWithout_deletions x
    · apply opsWithout_filterMap name_updateOp
      intro e _ hx
      unfold updateOp
      rw [hget hx]
  · apply opsWithout_filterMap name_createOp
    intro name _ hx
    unfold createOp
    rw [hget hx]

/-! ## Isolation -/

/-- The run isolates the OLTs that fail. -/
structure Isolates (inp : Input) (P : Pools) (orders : Orders inp) (r : Result) (u' : Marks Value) : Prop where
  /-- Every OLT is among the results. -/
  covered : Dict.keys r.specs = Dict.keys orders.all
  /-- A managable OLT that lacks a value is among those that failed. -/
  filled : ∀ name spec, r.specs.get? name = some (some spec) → isOltSpecManagable spec inp.moduleMgmt = true →
    Filled spec
  /-- An OLT that does not fail is created if it is new. -/
  created : ∀ name spec, r.specs.get? name = some (some spec) → inp.stored.get? name = none →
    .create name spec ∈ r.ops
  /-- An OLT that does not fail is updated if its spec is another one. -/
  updated : ∀ name spec stored, r.specs.get? name = some (some spec) → inp.stored.get? name = some stored →
    spec ≠ stored → .update name spec ∈ r.ops
  /-- An OLT that does not fail is left as it is if its spec is the same. -/
  left : ∀ name spec, r.specs.get? name = some (some spec) → inp.stored.get? name = some spec →
    ∀ op ∈ r.ops, op.name ≠ name
  /-- An OLT that fails is deleted, or nothing is done. -/
  removed : ∀ x ∈ r.failed, ∀ op ∈ r.ops, op.name = x → op = .delete x
  /-- The others are as they are without it, when the values that were taken for it are used. -/
  others : ∀ x ∈ r.failed, ∃ ts : List Value, (∀ t ∈ ts, P.has t = true) ∧ ∃ r',
    applyOlts (inp.erase x) P (orders.erase x) (Marks.none.addAll ts) = .ok r' u' ∧
      r'.specs = Dict.erase r.specs x ∧ opsWithout x r'.ops = opsWithout x r.ops

section

variable {orders : Orders inp} {rs : Dict OltKey (Option OltSpec)} {reclaimed : Dict OltKey OltSpec}
  {u u' : Marks Value} {name : OltKey}

theorem collects_assigned (hassign : orders.all.mapM (assignEntry inp P reclaimed) u = .ok rs u') :
    ∃ ts, Attempt.Collects (EntryDone inp reclaimed) orders.all rs ts := by
  obtain ⟨ts, -, -, -, hcollects⟩ := (Spends.mapM fun _ _ => spends_assignEntry).of_ok hassign
  exact ⟨ts, hcollects⟩

theorem keys_of_forall₂ {es : List (OltKey × OltSpec)}
    (h : List.Forall₂ (fun e r => r.1 = e.1) es rs) : Dict.keys rs = Dict.keys es := by
  unfold Dict.keys
  induction h with
  | nil => rfl
  | cons hname _ ih => rw [List.map_cons, List.map_cons, hname, ih]

theorem keys_assigned (hassign : orders.all.mapM (assignEntry inp P reclaimed) u = .ok rs u') :
    Dict.keys rs = Dict.keys orders.all := by
  obtain ⟨ts, hcollects⟩ := collects_assigned hassign
  exact keys_of_forall₂ (hcollects.forall₂ fun _ _ _ hdone => hdone.1)

/-- The operations, by the loop that makes them. -/
theorem mem_ops {op : Op} :
    op ∈ deletions inp ++ orders.update.filterMap (updateOp rs) ++ orders.create.filterMap (createOp rs) ↔
      op ∈ deletions inp ∨ (∃ e ∈ orders.update, updateOp rs e = some op) ∨
        ∃ name ∈ orders.create, createOp rs name = some op := by
  rw [List.mem_append, List.mem_append, List.mem_filterMap, List.mem_filterMap, or_assoc]

theorem mem_creates : name ∈ creates inp ↔ inp.specs.hasKey name = true ∧ inp.stored.get? name = none := by
  unfold creates
  rw [List.mem_filter, Dict.hasKey_iff_mem_keys, Dict.hasKey]
  simp

theorem mem_keys_specs (hkeys : Dict.keys rs = Dict.keys orders.all) {spec : OltSpec}
    (hspec : Dict.get? rs name = some (some spec)) : name ∈ inp.specs.keys := by
  have hmem : name ∈ Dict.keys rs := by
    rw [← Dict.hasKey_iff_mem_keys, Dict.hasKey, hspec]
    rfl
  rw [hkeys] at hmem
  exact (orders.all_perm.map Prod.fst).mem_iff.mp hmem

theorem created_ops (hkeys : Dict.keys rs = Dict.keys orders.all) {spec : OltSpec}
    (hspec : Dict.get? rs name = some (some spec)) (hstored : inp.stored.get? name = none) :
    Op.create name spec ∈
      deletions inp ++ orders.update.filterMap (updateOp rs) ++ orders.create.filterMap (createOp rs) := by
  have hnew := Dict.hasKey_iff_mem_keys.mpr (mem_keys_specs hkeys hspec)
  apply mem_ops.mpr
  refine Or.inr (Or.inr ⟨name, ?_, ?_⟩)
  · exact orders.create_perm.mem_iff.mpr (mem_creates.mpr ⟨hnew, hstored⟩)
  · rw [createOp, hspec]

theorem updated_ops (hkeys : Dict.keys rs = Dict.keys orders.all) {spec stored : OltSpec}
    (hspec : Dict.get? rs name = some (some spec)) (hstored : inp.stored.get? name = some stored)
    (hne : spec ≠ stored) :
    Op.update name spec ∈
      deletions inp ++ orders.update.filterMap (updateOp rs) ++ orders.create.filterMap (createOp rs) := by
  obtain ⟨e, he, rfl⟩ := List.mem_map.mp (mem_keys_specs hkeys hspec)
  have hmem : ⟨e.1, stored, e.2⟩ ∈ orders.update :=
    orders.update_perm.mem_iff.mpr (mem_updates.mpr ⟨he, hstored⟩)
  apply mem_ops.mpr
  refine Or.inr (Or.inl ⟨_, hmem, ?_⟩)
  unfold updateOp
  rw [hspec]
  exact if_neg hne

theorem left_ops (hkeys : Dict.keys rs = Dict.keys orders.all) {spec : OltSpec}
    (hspec : Dict.get? rs name = some (some spec)) (hstored : inp.stored.get? name = some spec) {op : Op}
    (hop : op ∈ deletions inp ++ orders.update.filterMap (updateOp rs) ++ orders.create.filterMap (createOp rs)) :
    op.name ≠ name := by
  intro hname
  rcases mem_ops.mp hop with hop | ⟨e, he, hop⟩ | ⟨name', hname', hop⟩
  · have hgone := (mem_deletions hop).1
    rw [hname, Dict.hasKey_iff_mem_keys.mpr (mem_keys_specs hkeys hspec)] at hgone
    cases hgone
  · have hname' := (name_updateOp e op hop).symm.trans hname
    have hstored' := (mem_updates.mp (orders.update_perm.mem_iff.mp he)).2
    rw [hname', hstored] at hstored'
    obtain rfl := Option.some.inj hstored'
    unfold updateOp at hop
    rw [hname', hspec] at hop
    simp at hop
  · have hold := (mem_creates.mp (orders.create_perm.mem_iff.mp hname')).2
    rw [← name_createOp name' op hop, hname, hstored] at hold
    cases hold

/-- An OLT that fails. -/
theorem removed_ops (hnd : (Dict.keys rs).Nodup) (hfailed : (name, none) ∈ rs) {op : Op}
    (hop : op ∈ deletions inp ++ orders.update.filterMap (updateOp rs) ++ orders.create.filterMap (createOp rs))
    (hname : op.name = name) : op = .delete name := by
  have hget : Dict.get? rs name = some none := Dict.get?_eq_some_of_mem hnd hfailed
  rcases mem_ops.mp hop with hop | ⟨e, -, hop⟩ | ⟨name', -, hop⟩
  · rw [← hname]
    exact (mem_deletions hop).2
  · have hname' := (name_updateOp e op hop).symm.trans hname
    unfold updateOp at hop
    rw [hname', hget] at hop
    cases hop
    rfl
  · have hname' := (name_createOp name' op hop).symm.trans hname
    unfold createOp at hop
    rw [hname', hget] at hop
    cases hop

end

theorem mem_failed {r : Result} {x : OltKey} : x ∈ r.failed ↔ (x, none) ∈ r.specs := by
  unfold Result.failed
  rw [List.mem_filterMap]
  constructor
  · rintro ⟨⟨name, spec⟩, he, hx⟩
    cases spec with
    | none =>
        cases hx
        exact he
    | some spec => cases hx
  · intro he
    exact ⟨_, he, rfl⟩

/-- The assign pass always returns: each OLT has a `try` block of its own. -/
theorem assignPass_returns (es : List (OltKey × OltSpec)) (reclaimed : Dict OltKey OltSpec) (u : Marks Value) :
    ∃ rs u', es.mapM (assignEntry inp P reclaimed) u = .ok rs u' := by
  induction es generalizing u with
  | nil => exact ⟨[], u, rfl⟩
  | cons e es ih =>
      obtain ⟨spec, u₁, hfirst⟩ : ∃ spec u₁, assignEntry inp P reclaimed e u = .ok spec u₁ := by
        obtain ⟨spec, u₁, hattempt⟩ := Attempt.attempt_returns (assignOlt inp P (currentSpec reclaimed e)) u
        exact ⟨(e.1, spec), u₁, Attempt.bind_ok hattempt⟩
      obtain ⟨rs, u', hrest⟩ := ih u₁
      refine ⟨spec :: rs, u', ?_⟩
      rw [List.mapM_cons, Attempt.bind_ok hfirst, Attempt.bind_ok hrest]
      rfl

/-- A run that returns isolates the OLTs that fail. -/
theorem isolates_of_run {orders : Orders inp} {u' : Marks Value} {r : Result}
    (h : applyOlts inp P orders Marks.none = .ok r u') : Isolates inp P orders r u' := by
  obtain ⟨specs, u₁, rs, -, hassign, rfl⟩ := applyOlts_eq_ok.mp h
  have hkeys := keys_assigned hassign
  have hnd : (Dict.keys rs).Nodup := by
    rw [hkeys]
    exact ((orders.all_perm.map Prod.fst).nodup_iff).mpr inp.specs_nodup
  obtain ⟨ts, hcollects⟩ := collects_assigned hassign
  refine ⟨hkeys, ?_, fun _ _ hspec => created_ops hkeys hspec, fun _ _ _ hspec => updated_ops hkeys hspec,
    fun _ _ hspec hstored _ => left_ops hkeys hspec hstored, ?_, ?_⟩
  · intro name spec hspec hman
    obtain ⟨e, _, _, -, hdone⟩ := hcollects.exists_of_mem (Dict.mem_of_get?_eq_some hspec)
    have hdone := hdone spec rfl
    apply hdone.filled
    unfold isOltSpecManagable at hman ⊢
    rwa [hdone.gains.moduleKey, hdone.gains.key] at hman
  · intro x hx op hop hname
    exact removed_ops hnd (mem_failed.mp hx) hop hname
  · intro x _
    obtain ⟨ts, hts, r', hrun, hspecs⟩ := applyOlts_erase h x
    refine ⟨ts, hts, r', hrun, hspecs, ?_⟩
    obtain ⟨_, _, rs', -, -, rfl⟩ := applyOlts_eq_ok.mp hrun
    cases hspecs
    exact (opsWithout_erase x).symm

/-- `apply_olt_control` isolates failures: no managable OLT makes it raise, and the run isolates the OLTs that fail. If
    the set-up raises, it does so without any managable OLT too. -/
def Isolated (inp : Input) (orders : Orders inp) : Prop :=
  match setup inp with
  | .error _ => ∀ x spec, inp.specs.get? x = some spec → isOltSpecManagable spec inp.moduleMgmt = true →
      ∃ e, setup (inp.erase x) = .error e
  | .ok P => ∃ r u', applyOlts inp P orders Marks.none = .ok r u' ∧ Isolates inp P orders r u'

/-! ## When failures are isolated -/

theorem createIpPool_isOk {f : Family} {startIp : Nat} {network : CreGw} {limitSize : Option Nat}
    (reserved reserved' : List Ip) :
    (createIpPool f startIp network reserved limitSize).toBool =
      (createIpPool f startIp network reserved' limitSize).toBool := by
  unfold createIpPool
  simp only
  split
  · rfl
  · split
    · rfl
    · split
      · rfl
      · rfl

/-- Whether a global pool is made does not depend on the addresses that are reserved. -/
theorem initGlobalPool_isOk {cfg : Option GlobalVxlanCfg} (reserved reserved' : List Ip) :
    (initGlobalPool cfg reserved).toBool = (initGlobalPool cfg reserved').toBool := by
  cases cfg with
  | none => rfl
  | some cfg =>
      unfold initGlobalPool initTunnelVxlanSrcIpPool
      simp only
      split
      · exact createIpPool_isOk reserved reserved'
      · split
        · exact createIpPool_isOk reserved reserved'
        · rfl

theorem toBool_eq_true {ε α : Type} {x : Except ε α} : x.toBool = true ↔ ∃ a, x = .ok a := by
  cases x with
  | ok a => simp [Except.toBool]
  | error e => simp [Except.toBool]

/-- The set-up succeeds if the OLTs that are not managable are configured and the global pools are made. -/
theorem setup_isOk :
    (∃ P, setup inp = .ok P) ↔ inp.specs.forM (checkSpec inp.moduleMgmt) = .ok () ∧
      (initGlobalPool inp.oltControl (mgmtReserved inp)).toBool = true ∧
      (initGlobalPool inp.bngData (dataReserved inp)).toBool = true := by
  constructor
  · rintro ⟨P, h⟩
    obtain ⟨hcheck, hmgmt, hdata, -⟩ := setup_eq_ok h
    exact ⟨hcheck, toBool_eq_true.mpr ⟨_, hmgmt⟩, toBool_eq_true.mpr ⟨_, hdata⟩⟩
  · rintro ⟨hcheck, hmgmt, hdata⟩
    obtain ⟨mgmtIps, hmgmt⟩ := toBool_eq_true.mp hmgmt
    obtain ⟨dataIps, hdata⟩ := toBool_eq_true.mp hdata
    unfold setup
    rw [hcheck, hmgmt, hdata]
    exact ⟨_, rfl⟩

/-- A managable OLT has no influence on whether the set-up raises. -/
theorem setup_erase_isOk {x : OltKey} {spec : OltSpec} (hspec : inp.specs.get? x = some spec)
    (hman : isOltSpecManagable spec inp.moduleMgmt = true) (h : ∃ P, setup (inp.erase x) = .ok P) :
    ∃ P, setup inp = .ok P := by
  obtain ⟨hcheck, hmgmt, hdata⟩ := setup_isOk.mp h
  apply setup_isOk.mpr
  refine ⟨?_, ?_, ?_⟩
  · rw [forM_eq_ok] at hcheck ⊢
    rintro ⟨name, spec'⟩ he
    by_cases hx : name = x
    · -- the OLT itself is not checked
      subst hx
      rw [Dict.get?_eq_some_of_mem inp.specs_nodup he] at hspec
      cases hspec
      apply checkSpec_eq_ok.mpr
      intro hun
      rw [hman] at hun
      cases hun
    · exact hcheck (name, spec') (List.mem_filter.mpr ⟨he, by simpa using hx⟩)
  · exact (initGlobalPool_isOk _ _).trans hmgmt
  · exact (initGlobalPool_isOk _ _).trans hdata

/-- **Isolation of failures** in `apply_olt_control`. The assign pass isolates every failure, but the reclaim pass is
    not in a `try` block. So failures are isolated exactly if the set-up raises, or every OLT that is updated has what
    the reclaim pass needs: its open tunnels can be updated, and no value of k8s is granted to a tunnel without a
    `vxlan`. -/
theorem isolated_iff (orders : Orders inp) :
    Isolated inp orders ↔ ∀ P, setup inp = .ok P →
      (∀ e ∈ orders.update, ReadyUpdate inp e) ∧
        EachFirst P.has Marks.none (requests inp orders.update) (fun req => req.fits = true) := by
  unfold Isolated
  cases hsetup : setup inp with
  | error e =>
      constructor
      · intro _ P h
        cases h
      · intro _ x spec hspec hman
        cases herase : setup (inp.erase x) with
        | error e' => exact ⟨e', rfl⟩
        | ok P =>
            obtain ⟨P', hP'⟩ := setup_erase_isOk hspec hman ⟨P, herase⟩
            rw [hsetup] at hP'
            cases hP'
  | ok P =>
      have hserves := serves_of_setup hsetup orders False.elim
      constructor
      · rintro ⟨r, u', hrun, -⟩ P' hP'
        cases hP'
        obtain ⟨specs, u₁, rs, hreclaim, -, -⟩ := applyOlts_eq_ok.mp hrun
        obtain ⟨hready, hfits, -⟩ := hserves.sound _ _ _ hreclaim
        exact ⟨hready, hfits⟩
      · intro h
        obtain ⟨hready, hfits⟩ := h P rfl
        obtain ⟨specs, u₁, hreclaim⟩ := hserves.returns _ hready hfits
        obtain ⟨rs, u', hassign⟩ := assignPass_returns orders.all ((orders.update.map Update.name).zip specs) u₁
        have hrun := applyOlts_eq_ok.mpr ⟨specs, u₁, rs, hreclaim, hassign, rfl⟩
        exact ⟨_, u', hrun, isolates_of_run hrun⟩

/-- An OLT in an external mode, whose PON has no data tunnel any more, and a new OLT. -/
def sampleExternal : Input where
  specs := [
    (⟨1, 1, 0⟩, ⟨sampleModule, ⟨1, 1, 0⟩, emptyTunnel, [⟨1, some 1, some 1, none, none, ""⟩], none, ""⟩),
    (⟨1, 1, 1⟩, ⟨sampleModule, ⟨1, 1, 1⟩, emptyTunnel, [], none, ""⟩)]
  stored := [(⟨1, 1, 0⟩, ⟨sampleModule, ⟨1, 1, 0⟩, configuredTunnel 167772164 11005,
    [⟨1, some 1, some 1, configuredTunnel 167772165 11006, some 150, ""⟩], none, ""⟩)]
  moduleMgmt := [⟨[sampleModule], [⟨1, 1, 0⟩, ⟨1, 1, 1⟩], none, none⟩]
  oltControl := some sampleGlobal
  bngData := some sampleGlobal
  specs_nodup := by decide

theorem isolated_returns {orders : Orders inp} (hsetup : setup inp = .ok P) (h : Isolated inp orders) :
    ∃ r, applyOltControl inp orders = .ok r := by
  unfold Isolated at h
  rw [hsetup] at h
  obtain ⟨r, u', hrun, -⟩ := h
  refine ⟨r, ?_⟩
  unfold applyOltControl
  rw [hsetup]
  simp only [hrun]

/-- The reclaim pass puts a VNI into a tunnel that is null, and nothing is done for the new OLT, which alone would be
    created. -/
theorem not_isolated : ¬ Isolated sampleExternal (Orders.inOrder sampleExternal) ∧
    ∃ r, applyOltControl (sampleExternal.erase ⟨1, 1, 0⟩) (Orders.inOrder _) = .ok r ∧
      (r.ops.any fun op => op.name = ⟨1, 1, 1⟩) = true := by
  refine ⟨?_, ok_of_any (by decide)⟩
  intro h
  obtain ⟨P, hsetup, -⟩ := ok_of_any (x := setup sampleExternal) (p := fun _ => true) (by decide)
  obtain ⟨r, hr⟩ := isolated_returns hsetup h
  have herror : (applyOltControl sampleExternal (Orders.inOrder sampleExternal)).toBool = false := by decide
  rw [hr] at herror
  cases herror

end Workbench.Olt
