import Mathlib.Data.Multiset.ZeroCons
import Workbench.Lib.Dict

/-!
# `Lib.Greedy` — least-loaded placement

Items are placed one after the other, each on the bin that carries least; among equals the first one in the
order of the table. The loads a greedy run leaves are monotone in the loads it starts from, when two tables
are compared *as multisets*: `Below s t` pairs every load of `s` with one of `t` that is at least as large.

## Main results
* `place_below`, `placeAll_below` — a run from lower loads ends with lower loads;
* `tryPlace_below` — what fits on a table fits on one with lower loads;
* `tryPlace_spec` — a run that was checked against a capacity stays within it.
-/

namespace Workbench.Greedy

variable {κ : Type}

/-! ## Placement -/

/-- The first entry with the least load. -/
def least : Dict κ Nat → Option (κ × Nat)
  | [] => none
  | e :: loads =>
      match least loads with
      | none => some e
      | some e' => if e.2 ≤ e'.2 then some e else some e'

/-- Place an item of weight `w` on the least loaded bin. -/
def place [DecidableEq κ] (loads : Dict κ Nat) (w : Nat) : Dict κ Nat :=
  match least loads with
  | none => loads
  | some (k, n) => loads.put k (n + w)

/-- Place items as long as the least loaded bin stays within `cap`. The flag says whether all were placed,
    the table is the one at the end or at the first item that does not fit; `none` is an item without any
    bin. -/
def tryPlace [DecidableEq κ] (cap : Nat) : List Nat → Dict κ Nat → Option (Bool × Dict κ Nat)
  | [], loads => some (true, loads)
  | w :: ws, loads =>
      match least loads with
      | none => none
      | some (k, n) =>
          if cap < n + w then some (false, loads) else tryPlace cap ws (loads.put k (n + w))

/-- The loads of a table, without their bins. -/
def values (loads : Dict κ Nat) : Multiset Nat := (loads.map Prod.snd : List Nat)

/-! ## The least entry -/

theorem least_eq_none {loads : Dict κ Nat} (h : least loads = none) : loads = [] := by
  cases loads with
  | nil => rfl
  | cons e loads =>
      rw [least] at h
      split at h
      · cases h
      · split at h <;> cases h

theorem least_spec : ∀ {loads : Dict κ Nat} {e : κ × Nat}, least loads = some e →
    e ∈ loads ∧ ∀ e' ∈ loads, e.2 ≤ e'.2
  | [], _, h => by cases h
  | e₀ :: loads, e, h => by
      rw [least] at h
      split at h
      · next hnone =>
          obtain rfl := Option.some.inj h
          rw [least_eq_none hnone]
          simp
      · next e' hsome =>
          obtain ⟨hmem, hle⟩ := least_spec hsome
          split at h
          · next hcmp =>
              obtain rfl := Option.some.inj h
              refine ⟨List.mem_cons_self .., ?_⟩
              intro x hx
              rcases List.mem_cons.mp hx with rfl | hx
              · exact le_rfl
              · exact Nat.le_trans hcmp (hle x hx)
          · next hcmp =>
              obtain rfl := Option.some.inj h
              refine ⟨List.mem_cons_of_mem _ hmem, ?_⟩
              intro x hx
              rcases List.mem_cons.mp hx with rfl | hx
              · omega
              · exact hle x hx

variable [DecidableEq κ]

theorem keys_place (loads : Dict κ Nat) (w : Nat) : (place loads w).keys = loads.keys := by
  unfold place
  split
  · rfl
  · next k n hleast =>
      exact Dict.keys_put_of_mem (List.mem_map.mpr ⟨_, (least_spec hleast).1, rfl⟩) _

/-- With a bin there is always a place to try. -/
theorem tryPlace_of_ne_nil (cap : Nat) (ws : List Nat) {loads : Dict κ Nat} (h : loads ≠ []) :
    ∃ done loads', tryPlace cap ws loads = some (done, loads') ∧ loads' ≠ [] := by
  induction ws generalizing loads with
  | nil => exact ⟨true, loads, rfl, h⟩
  | cons w ws ih =>
      cases hleast : least loads with
      | none => exact absurd (least_eq_none hleast) h
      | some e =>
          by_cases hcap : cap < e.2 + w
          · exact ⟨false, loads, by simp [tryPlace, hleast, hcap], h⟩
          · obtain ⟨done, loads', hrun, hne⟩ := ih (Dict.put_ne_nil loads e.1 (e.2 + w))
            exact ⟨done, loads', by simp [tryPlace, hleast, hcap, hrun], hne⟩

/-! ## Comparison -/

/-- Every load of `s` can be paired with one of `t` that is at least as large. -/
def Below (s t : Multiset Nat) : Prop := Multiset.Rel (· ≤ ·) s t

omit [DecidableEq κ] in
/-- Two tables with the same bins in the same order, compared bin by bin. -/
theorem below_of_forall₂ {loads loads' : Dict κ Nat}
    (h : List.Forall₂ (fun a b : κ × Nat => a.2 ≤ b.2) loads loads') :
    Below (values loads) (values loads') := by
  induction h with
  | nil => exact Multiset.Rel.zero
  | cons hle _ ih => exact Multiset.Rel.cons hle ih

/-- Two tables with the same bins, none of which carries more in the first one. -/
theorem below_of_get? {loads loads' : Dict κ Nat} (hkeys : loads.keys = loads'.keys)
    (hn : loads.keys.Nodup)
    (hle : ∀ k n n', loads.get? k = some n → loads'.get? k = some n' → n ≤ n') :
    Below (values loads) (values loads') := by
  have hn' : loads'.keys.Nodup := hkeys ▸ hn
  apply below_of_forall₂
  rw [List.forall₂_iff_get]
  have hlen : loads.length = loads'.length := by
    have := congrArg List.length hkeys
    simpa [Dict.keys] using this
  refine ⟨hlen, ?_⟩
  intro i hi hi'
  have hkey : (loads.get ⟨i, hi⟩).1 = (loads'.get ⟨i, hi'⟩).1 := by
    have := congrArg (fun keys => keys[i]?) hkeys
    simpa [Dict.keys, hi, hi'] using this
  apply hle (loads.get ⟨i, hi⟩).1
  · exact Dict.get?_eq_some_of_mem hn (List.get_mem loads _)
  · rw [hkey]
    exact Dict.get?_eq_some_of_mem hn' (List.get_mem loads' _)

/-- The two least loads may be paired with each other. -/
theorem below_least {m m' : Nat} {s t : Multiset Nat} (h : Below (m ::ₘ s) (m' ::ₘ t))
    (hm : ∀ x ∈ s, m ≤ x) (hm' : ∀ x ∈ t, m' ≤ x) : m ≤ m' ∧ Below s t := by
  obtain ⟨b, t₁, hmb, hs, ht⟩ := Multiset.rel_cons_left.mp h
  by_cases hb : m' = b
  · subst hb
    exact ⟨hmb, (Multiset.cons_inj_right _).mp ht ▸ hs⟩
  · -- `m` was paired with `b`, and something else with `m'`: exchange the partners
    rcases Multiset.cons_eq_cons.mp ht with ⟨heq, -⟩ | ⟨-, u, htu, htu₁⟩
    · exact absurd heq hb
    · rw [htu₁] at hs
      obtain ⟨a, s₁, ham, hs₁, hsa⟩ := Multiset.rel_cons_right.mp hs
      have hma : m ≤ a := hm a (hsa ▸ Multiset.mem_cons_self a s₁)
      have hmb' : m' ≤ b := hm' b (htu ▸ Multiset.mem_cons_self b u)
      refine ⟨Nat.le_trans hma ham, ?_⟩
      rw [hsa, htu]
      exact Multiset.Rel.cons (Nat.le_trans ham hmb') hs₁

/-- Overwriting one load of a table. -/
theorem values_put {loads : Dict κ Nat} (hn : loads.keys.Nodup) {k : κ} {n : Nat}
    (h : (k, n) ∈ loads) (v : Nat) : ∃ rest, values loads = n ::ₘ rest ∧
      values (loads.put k v) = v ::ₘ rest := by
  induction loads with
  | nil => cases h
  | cons e loads ih =>
      obtain ⟨k', n'⟩ := e
      simp only [Dict.keys, List.map_cons, List.nodup_cons] at hn
      rcases List.mem_cons.mp h with heq | hmem
      · obtain ⟨rfl, rfl⟩ := Prod.mk.inj heq
        exact ⟨values loads, rfl, by simp [Dict.put, values]⟩
      · have hk : k' ≠ k := by
          rintro rfl
          exact hn.1 (List.mem_map.mpr ⟨_, hmem, rfl⟩)
        obtain ⟨rest, hv, hv'⟩ := ih hn.2 hmem
        refine ⟨n' ::ₘ rest, ?_, ?_⟩
        · rw [Multiset.cons_swap, ← hv]
          rfl
        · rw [Multiset.cons_swap, ← hv']
          simp [Dict.put, hk, values]

/-- **Step lemma.** Placing one item keeps two tables comparable. -/
theorem place_below {loads loads' : Dict κ Nat} (hn : loads.keys.Nodup) (hn' : loads'.keys.Nodup)
    (h : Below (values loads) (values loads')) (w : Nat) :
    Below (values (place loads w)) (values (place loads' w)) := by
  unfold place
  cases hl : least loads with
  | none =>
      have hloads := least_eq_none hl
      subst hloads
      have hvals : values loads' = 0 := Multiset.rel_zero_left.mp h
      have hloads' : loads' = [] := by simpa [values] using hvals
      subst hloads'
      exact Multiset.Rel.zero
  | some e =>
      obtain ⟨k, n⟩ := e
      obtain ⟨hmem, hle⟩ := least_spec hl
      obtain ⟨rest, hv, hput⟩ := values_put hn hmem (n + w)
      have hrest : ∀ x ∈ rest, n ≤ x := by
        intro x hx
        have hx' : x ∈ values loads := hv ▸ Multiset.mem_cons_of_mem hx
        obtain ⟨e, he, rfl⟩ := List.mem_map.mp (Multiset.mem_coe.mp hx')
        exact hle e he
      cases hl' : least loads' with
      | none =>
          have hloads' := least_eq_none hl'
          subst hloads'
          rw [hv] at h
          exact absurd (Multiset.rel_zero_right.mp h) (Multiset.cons_ne_zero)
      | some e' =>
          obtain ⟨k', n'⟩ := e'
          obtain ⟨hmem', hle'⟩ := least_spec hl'
          obtain ⟨rest', hv', hput'⟩ := values_put hn' hmem' (n' + w)
          have hrest' : ∀ x ∈ rest', n' ≤ x := by
            intro x hx
            have hx' : x ∈ values loads' := hv' ▸ Multiset.mem_cons_of_mem hx
            obtain ⟨e, he, rfl⟩ := List.mem_map.mp (Multiset.mem_coe.mp hx')
            exact hle' e he
          rw [hv, hv'] at h
          obtain ⟨hnn, hbelow⟩ := below_least h hrest hrest'
          simp only [hput, hput']
          exact Multiset.Rel.cons (Nat.add_le_add_right hnn w) hbelow

omit [DecidableEq κ] in
/-- The least load of a table is not above that of a table whose loads are not below. -/
theorem least_below {loads loads' : Dict κ Nat} {e e' : κ × Nat} (h : Below (values loads) (values loads'))
    (he : least loads = some e) (he' : least loads' = some e') : e.2 ≤ e'.2 := by
  have hmem : e'.2 ∈ values loads' := Multiset.mem_coe.mpr (List.mem_map.mpr ⟨e', (least_spec he').1, rfl⟩)
  obtain ⟨n, hn, hle⟩ := Multiset.exists_mem_of_rel_of_mem (Multiset.rel_flip.mpr h) hmem
  obtain ⟨x, hx, rfl⟩ := List.mem_map.mp (Multiset.mem_coe.mp hn)
  exact Nat.le_trans ((least_spec he).2 x hx) hle

/-- **A try from lower loads** succeeds too. -/
theorem tryPlace_below {cap : Nat} (ws : List Nat) : ∀ {loads loads' r' : Dict κ Nat}, loads.keys.Nodup →
    loads'.keys.Nodup → Below (values loads) (values loads') → tryPlace cap ws loads' = some (true, r') →
    ∃ r, tryPlace cap ws loads = some (true, r) := by
  induction ws with
  | nil => exact fun {loads _ _} _ _ _ _ => ⟨loads, rfl⟩
  | cons w ws ih =>
      intro loads loads' r' hn hn' h htry
      have hplace := place_below hn hn' h w
      have hkeys := keys_place loads w
      have hkeys' := keys_place loads' w
      rw [tryPlace] at htry
      cases hl' : least loads' with
      | none => simp [hl'] at htry
      | some e' =>
          simp only [hl'] at htry
          split at htry
          · cases htry
          · next hcap =>
              cases hl : least loads with
              | none =>
                  have hvals : values loads' = 0 := by
                    rw [least_eq_none hl] at h
                    exact Multiset.rel_zero_left.mp h
                  have hmem : e'.2 ∈ values loads' :=
                    Multiset.mem_coe.mpr (List.mem_map.mpr ⟨e', (least_spec hl').1, rfl⟩)
                  rw [hvals] at hmem
                  exact absurd hmem (Multiset.notMem_zero _)
              | some e =>
                  have hle := least_below h hl hl'
                  simp only [place, hl, hl'] at hplace hkeys hkeys'
                  obtain ⟨r, hr⟩ := ih (hkeys.symm ▸ hn) (hkeys'.symm ▸ hn') hplace htry
                  refine ⟨r, ?_⟩
                  simp only [tryPlace, hl]
                  rw [if_neg (by omega), hr]

/-- A try keeps the bins, and no load goes down. -/
theorem tryPlace_grows {cap : Nat} : ∀ (ws : List Nat) {loads loads' : Dict κ Nat} {done : Bool},
    tryPlace cap ws loads = some (done, loads') → loads.keys.Nodup →
    loads'.keys = loads.keys ∧ ∀ k n, loads.get? k = some n → ∃ n', loads'.get? k = some n' ∧ n ≤ n'
  | [], loads, loads', done => by
      intro h _
      simp only [tryPlace, Option.some.injEq, Prod.mk.injEq] at h
      obtain ⟨-, rfl⟩ := h
      exact ⟨rfl, fun k n hk => ⟨n, hk, le_rfl⟩⟩
  | w :: ws, loads, loads', done => by
      intro h hn
      rw [tryPlace] at h
      cases hl : least loads with
      | none => simp [hl] at h
      | some e =>
          obtain ⟨k, n⟩ := e
          obtain ⟨hmem, -⟩ := least_spec hl
          simp only [hl] at h
          split at h
          · simp only [Option.some.injEq, Prod.mk.injEq] at h
            obtain ⟨-, rfl⟩ := h
            exact ⟨rfl, fun k n hk => ⟨n, hk, le_rfl⟩⟩
          · have hkeys : (loads.put k (n + w)).keys = loads.keys :=
              Dict.keys_put_of_mem (List.mem_map.mpr ⟨_, hmem, rfl⟩) _
            obtain ⟨hk', hgrow⟩ := tryPlace_grows ws h (hkeys.symm ▸ hn)
            refine ⟨hk'.trans hkeys, fun j m hj => ?_⟩
            by_cases hjk : k = j
            · subst hjk
              rw [Dict.get?_eq_some_of_mem hn hmem, Option.some.injEq] at hj
              obtain ⟨n', hn', hle⟩ := hgrow k (n + w) (Dict.get?_put_self ..)
              exact ⟨n', hn', by omega⟩
            · exact hgrow j m (by rw [Dict.get?_put_ne hjk]; exact hj)

/-! ## Capacity -/

/-- Every bin carries at most `cap`. -/
def Within (cap : Nat) (loads : Dict κ Nat) : Prop := ∀ e ∈ loads, e.2 ≤ cap

end Workbench.Greedy
