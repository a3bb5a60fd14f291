import Mathlib.Data.List.Nodup
import Workbench.Lib.Dict

/-!
# `Lib.Pool` — values handed out from a free list

A pool has a list of free values, and remembers who holds which value. Values leave the free list in three ways:
a *fixed* value is given to its holder whether it is free or not (`reserve`), a value somebody had before is
given back if it is free (`reclaim`), and a holder without a value takes the last free one (`draw`).

## Main results
* `Sound` — the invariant: what is held is fixed, or comes from the range and is held by nobody else;
* `sound_reserve`, `sound_reclaim`, `sound_draw` — every operation keeps it;
* `registered_reserve` — as long as values are only reserved, what is not fixed stays free;
* `get?_held_reclaim_ne`, `get?_held_draw` — nobody loses the value that is held.
-/

namespace Workbench

/-- The free values, and the values that are held. -/
structure Pool (κ α : Type) where
  free : List α
  held : Dict κ α

namespace Pool

variable {κ α : Type} [DecidableEq κ] [DecidableEq α]

/-! ## Operations -/

/-- `k` gets the value `a`, free or not. -/
def reserve (p : Pool κ α) (k : κ) (a : α) : Pool κ α := ⟨p.free.erase a, p.held.put k a⟩

/-- `k` gets the value `a`, if it is free. -/
def reclaim (p : Pool κ α) (k : κ) (a : α) : Pool κ α :=
  if a ∈ p.free then ⟨p.free.erase a, p.held.put k a⟩ else p

/-- The value `k` holds, else the last free value, which `k` holds from then on; `none` when there is none. -/
def draw (p : Pool κ α) (k : κ) : Option (α × Pool κ α) :=
  match p.held.get? k with
  | some a => some (a, p)
  | none =>
      match p.free.getLast? with
      | some a => some (a, ⟨p.free.dropLast, p.held.put k a⟩)
      | none => none

/-! ## The invariant -/

/-- The free values are values of the range, none of them twice and none of them fixed. A value that is held is
    fixed, or it is a value of the range that is neither free nor fixed, and nobody else holds it. -/
structure Sound (range : List α) (fixed : List (κ × α)) (p : Pool κ α) : Prop where
  nodup : p.free.Nodup
  free : ∀ a ∈ p.free, a ∈ range ∧ ∀ k, (k, a) ∉ fixed
  held : ∀ k a, p.held.get? k = some a →
    (k, a) ∈ fixed ∨ (a ∈ range ∧ a ∉ p.free ∧ ∀ k', (k', a) ∉ fixed)
  distinct : ∀ k k' a, p.held.get? k = some a → p.held.get? k' = some a →
    k = k' ∨ ∃ k'', (k'', a) ∈ fixed

variable {range : List α} {fixed : List (κ × α)} {p : Pool κ α}

omit [DecidableEq α] in
theorem sound_init (h : range.Nodup) : Sound range [] (⟨range, []⟩ : Pool κ α) where
  nodup := h
  free := by
    intro a ha
    exact ⟨ha, fun k hk => by cases hk⟩
  held := by
    intro k a hk
    cases hk
  distinct := by
    intro k k' a hk
    cases hk

/-- While only fixed values are held, another one can be reserved. -/
theorem sound_reserve (h : Sound range fixed p) (hfixed : ∀ k a, p.held.get? k = some a → (k, a) ∈ fixed)
    (k : κ) (a : α) : Sound range (fixed ++ [(k, a)]) (p.reserve k a) ∧
      ∀ k' a', (p.reserve k a).held.get? k' = some a' → (k', a') ∈ fixed ++ [(k, a)] := by
  have hheld : ∀ k' a', (p.reserve k a).held.get? k' = some a' → (k', a') ∈ fixed ++ [(k, a)] := by
    intro k' a' hk'
    rw [List.mem_append, List.mem_singleton]
    by_cases hk : k = k'
    · subst hk
      right
      rw [reserve, Dict.get?_put_self, Option.some.injEq] at hk'
      rw [hk']
    · left
      rw [reserve, Dict.get?_put_ne hk] at hk'
      exact hfixed k' a' hk'
  refine ⟨⟨?_, ?_, ?_, ?_⟩, hheld⟩
  · exact h.nodup.erase a
  · intro a' ha'
    obtain ⟨hne, hmem⟩ := (List.Nodup.mem_erase_iff h.nodup).mp ha'
    obtain ⟨hrange, hfree⟩ := h.free a' hmem
    refine ⟨hrange, ?_⟩
    intro k' hk'
    rcases List.mem_append.mp hk' with hk' | hk'
    · exact hfree k' hk'
    · exact hne (Prod.mk.inj (List.mem_singleton.mp hk')).2
  · intro k' a' hk'
    exact Or.inl (hheld k' a' hk')
  · intro k' k'' a' hk' _
    exact Or.inr ⟨k', hheld k' a' hk'⟩

omit [DecidableEq α] in
/-- A free value is given to `k`. -/
theorem sound_take (h : Sound range fixed p) {k : κ} {a : α} {free : List α} (ha : a ∈ p.free)
    (hsub : ∀ b ∈ free, b ∈ p.free ∧ b ≠ a) (hnd : free.Nodup) :
    Sound range fixed ⟨free, p.held.put k a⟩ := by
  obtain ⟨hrange, hfixed⟩ := h.free a ha
  -- what another one holds is not the value that was free
  have hother : ∀ k', p.held.get? k' = some a → False := by
    intro k' hk'
    rcases h.held k' a hk' with hfix | ⟨-, hnot, -⟩
    · exact hfixed k' hfix
    · exact hnot ha
  refine ⟨hnd, fun b hb => h.free b (hsub b hb).1, ?_, ?_⟩
  · intro k' b hk'
    by_cases hk : k = k'
    · subst hk
      rw [Dict.get?_put_self, Option.some.injEq] at hk'
      subst hk'
      exact Or.inr ⟨hrange, fun hmem => (hsub a hmem).2 rfl, hfixed⟩
    · rw [Dict.get?_put_ne hk] at hk'
      rcases h.held k' b hk' with hfix | ⟨hb, hnot, hfix⟩
      · exact Or.inl hfix
      · exact Or.inr ⟨hb, fun hmem => hnot (hsub b hmem).1, hfix⟩
  · intro k₁ k₂ b h₁ h₂
    by_cases hk₁ : k = k₁
    · by_cases hk₂ : k = k₂
      · exact Or.inl (hk₁.symm.trans hk₂)
      · subst hk₁
        rw [Dict.get?_put_self, Option.some.injEq] at h₁
        rw [Dict.get?_put_ne hk₂, ← h₁] at h₂
        exact absurd h₂ (hother k₂)
    · rw [Dict.get?_put_ne hk₁] at h₁
      by_cases hk₂ : k = k₂
      · subst hk₂
        rw [Dict.get?_put_self, Option.some.injEq] at h₂
        rw [← h₂] at h₁
        exact absurd h₁ (hother k₁)
      · rw [Dict.get?_put_ne hk₂] at h₂
        exact h.distinct k₁ k₂ b h₁ h₂

theorem sound_reclaim (h : Sound range fixed p) (k : κ) (a : α) : Sound range fixed (p.reclaim k a) := by
  unfold reclaim
  split
  · next ha =>
      apply sound_take h ha ?_ (h.nodup.erase a)
      intro b hb
      obtain ⟨hne, hmem⟩ := (List.Nodup.mem_erase_iff h.nodup).mp hb
      exact ⟨hmem, hne⟩
  · exact h

omit [DecidableEq α] in
theorem sound_draw (h : Sound range fixed p) {k : κ} {a : α} {p' : Pool κ α} (hd : p.draw k = some (a, p')) :
    Sound range fixed p' := by
  unfold draw at hd
  split at hd
  · obtain ⟨-, rfl⟩ := Prod.mk.inj (Option.some.inj hd)
    exact h
  · split at hd
    · next b hlast =>
        obtain ⟨rfl, rfl⟩ := Prod.mk.inj (Option.some.inj hd)
        obtain ⟨front, hfront⟩ := List.getLast?_eq_some_iff.mp hlast
        have hnd := h.nodup
        rw [hfront] at hnd
        have hdrop : p.free.dropLast = front := by rw [hfront, List.dropLast_concat]
        apply sound_take h (List.mem_of_getLast? hlast)
        · intro c hc
          rw [hdrop] at hc
          refine ⟨hfront ▸ List.mem_append_left _ hc, ?_⟩
          rintro rfl
          exact (List.nodup_append.mp hnd).2.2 c hc c (List.mem_singleton_self c) rfl
        · rw [hdrop]
          exact (List.nodup_append.mp hnd).1
    · cases hd

/-! ## Pools with fixed values only -/

/-- After reserving the fixed values and nothing else: they are held, and all other values of the range are
    free. -/
structure Registered (range : List α) (fixed : List (κ × α)) (p : Pool κ α) : Prop where
  sound : p.Sound range fixed
  held : ∀ k a, p.held.get? k = some a → (k, a) ∈ fixed
  hasKey : ∀ k a, (k, a) ∈ fixed → p.held.hasKey k = true
  free : ∀ a ∈ range, (∀ k, (k, a) ∉ fixed) → a ∈ p.free

omit [DecidableEq α] in
theorem registered_init (h : range.Nodup) : Registered range [] (⟨range, []⟩ : Pool κ α) where
  sound := sound_init h
  held := by
    intro k a hk
    cases hk
  hasKey := by
    intro k a hk
    cases hk
  free := fun _ ha _ => ha

theorem registered_reserve (h : Registered range fixed p) (k : κ) (a : α) :
    Registered range (fixed ++ [(k, a)]) (p.reserve k a) := by
  obtain ⟨hsound, hheld⟩ := sound_reserve h.sound h.held k a
  refine ⟨hsound, hheld, ?_, ?_⟩
  · intro k' a' hk'
    rcases List.mem_append.mp hk' with hk' | hk'
    · exact Dict.hasKey_put_of_hasKey (h.hasKey k' a' hk')
    · obtain ⟨rfl, rfl⟩ := Prod.mk.inj (List.mem_singleton.mp hk')
      exact Dict.hasKey_put_self ..
  · intro b hb hfixed
    have hne : b ≠ a := by
      rintro rfl
      exact hfixed k (List.mem_append_right _ (List.mem_singleton_self _))
    refine (List.mem_erase_of_ne hne).mpr (h.free b hb ?_)
    intro k' hk'
    exact hfixed k' (List.mem_append_left _ hk')

/-! ## Holders keep their values -/

omit [DecidableEq α] in
/-- What `draw` hands out is held afterwards. -/
theorem get?_held_draw_self {k : κ} {a : α} {p' : Pool κ α} (hd : p.draw k = some (a, p')) :
    p'.held.get? k = some a := by
  unfold draw at hd
  split at hd
  · next b hb =>
      obtain ⟨rfl, rfl⟩ := Prod.mk.inj (Option.some.inj hd)
      exact hb
  · split at hd
    · obtain ⟨rfl, rfl⟩ := Prod.mk.inj (Option.some.inj hd)
      exact Dict.get?_put_self ..
    · cases hd

omit [DecidableEq α] in
/-- A value that is held stays with its holder when somebody draws. -/
theorem get?_held_draw {k k' : κ} {a b : α} {p' : Pool κ α} (hd : p.draw k' = some (b, p'))
    (h : p.held.get? k = some a) : p'.held.get? k = some a := by
  unfold draw at hd
  split at hd
  · obtain ⟨-, rfl⟩ := Prod.mk.inj (Option.some.inj hd)
    exact h
  · next hnone =>
      split at hd
      · obtain ⟨-, rfl⟩ := Prod.mk.inj (Option.some.inj hd)
        have hne : k' ≠ k := by
          rintro rfl
          rw [h] at hnone
          cases hnone
        rw [Dict.get?_put_ne hne]
        exact h
      · cases hd

omit [DecidableEq α] in
/-- Who holds a value draws this value. -/
theorem draw_of_held {k : κ} {a : α} (h : p.held.get? k = some a) : p.draw k = some (a, p) := by
  simp [draw, h]

theorem get?_held_reclaim_ne {k k' : κ} (hne : k ≠ k') (a : α) :
    (p.reclaim k a).held.get? k' = p.held.get? k' := by
  unfold reclaim
  split
  · exact Dict.get?_put_ne hne ..
  · rfl

theorem get?_held_reclaim_self {k : κ} {a : α} (h : a ∈ p.free) :
    (p.reclaim k a).held.get? k = some a := by
  simp [reclaim, h]

/-- A value stays free as long as it is not the one that is reclaimed. -/
theorem mem_free_reclaim {k : κ} {a b : α} (h : b ∈ p.free) (hne : b ≠ a) : b ∈ (p.reclaim k a).free := by
  unfold reclaim
  split
  · exact (List.mem_erase_of_ne hne).mpr h
  · exact h

end Pool
end Workbench
