import Mathlib.Logic.Function.Basic

/-!
# `Lib.Owned` — things with exactly one owner

Each owner has at most one thing. A set of things is owned when each thing of it has an owner, no two owners have the
same thing, and nothing else is owned.

## Main results
* `Owned.congr`, `Owned.ne` — owners that go on with what they have, and have different things;
* `Owned.take`, `Owned.drop` — a thing that gets an owner, and one that loses it.
-/

namespace Workbench

variable {ι κ : Type} {has has' : ι → Option κ} {things things' : κ → Prop} {i j : ι} {k l : κ}

/-- Exactly the `things` have an owner, and only one. -/
structure Owned (has : ι → Option κ) (things : κ → Prop) : Prop where
  owner : ∀ k, things k → ∃ i, has i = some k
  unique : ∀ {i j k}, has i = some k → has j = some k → i = j
  sound : ∀ {i k}, has i = some k → things k

namespace Owned

theorem none (hhas : ∀ i, has i = .none) (hthings : ∀ k, ¬ things k) : Owned has things where
  owner k h := absurd h (hthings k)
  unique {i _ _} h _ := by
    rw [hhas i] at h
    cases h
  sound {i _} h := by
    rw [hhas i] at h
    cases h

theorem congr (h : Owned has things) (hhas : ∀ i, has' i = has i) (hthings : ∀ k, things' k ↔ things k) :
    Owned has' things' where
  owner k hk := by
    obtain ⟨i, hi⟩ := h.owner k ((hthings k).mp hk)
    exact ⟨i, (hhas i).trans hi⟩
  unique {i j _} hi hj := h.unique ((hhas i).symm.trans hi) ((hhas j).symm.trans hj)
  sound {i k} hi := (hthings k).mpr (h.sound ((hhas i).symm.trans hi))

/-- Two owners have two things. -/
theorem ne (h : Owned has things) (hi : has i = some k) (hj : has j = some l) (hne : j ≠ i) : l ≠ k := by
  rintro rfl
  exact hne (h.unique hj hi)

/-- Somebody who has nothing becomes the owner of `k`. -/
theorem take (h : Owned has things) (hnew : ¬ things k) (hidle : has i = .none) (hi : has' i = some k)
    (hothers : ∀ j ≠ i, has' j = has j) (hthings : ∀ l, things' l ↔ l = k ∨ things l) : Owned has' things' where
  owner l hl := by
    rcases (hthings l).mp hl with rfl | hold
    · exact ⟨i, hi⟩
    · obtain ⟨j, hj⟩ := h.owner l hold
      have hne : j ≠ i := by
        rintro rfl
        rw [hidle] at hj
        cases hj
      exact ⟨j, (hothers j hne).trans hj⟩
  unique {a b l} ha hb := by
    by_cases hai : a = i <;> by_cases hbi : b = i
    · exact hai.trans hbi.symm
    · -- the thing of `b` was owned before, `k` was not
      subst hai
      rw [hothers b hbi] at hb
      rw [hi] at ha
      cases ha
      exact absurd (h.sound hb) hnew
    · subst hbi
      rw [hothers a hai] at ha
      rw [hi] at hb
      cases hb
      exact absurd (h.sound ha) hnew
    · rw [hothers a hai] at ha
      rw [hothers b hbi] at hb
      exact h.unique ha hb
  sound {j l} hj := by
    rw [hthings]
    by_cases hji : j = i
    · subst hji
      rw [hi] at hj
      cases hj
      exact .inl rfl
    · rw [hothers j hji] at hj
      exact .inr (h.sound hj)

/-- The owner of `k` gives it up. -/
theorem drop (h : Owned has things) (hi : has i = some k) (hdone : has' i = .none)
    (hothers : ∀ j ≠ i, has' j = has j) (hthings : ∀ l, things' l ↔ l ≠ k ∧ things l) : Owned has' things' where
  owner l hl := by
    obtain ⟨hne, hold⟩ := (hthings l).mp hl
    obtain ⟨j, hj⟩ := h.owner l hold
    have hji : j ≠ i := by
      rintro rfl
      exact hne (Option.some.inj (hj.symm.trans hi))
    exact ⟨j, (hothers j hji).trans hj⟩
  unique {a b l} ha hb := by
    have hai : a ≠ i := by
      rintro rfl
      rw [hdone] at ha
      cases ha
    have hbi : b ≠ i := by
      rintro rfl
      rw [hdone] at hb
      cases hb
    rw [hothers a hai] at ha
    rw [hothers b hbi] at hb
    exact h.unique ha hb
  sound {j l} hj := by
    have hji : j ≠ i := by
      rintro rfl
      rw [hdone] at hj
      cases hj
    rw [hothers j hji] at hj
    refine (hthings l).mpr ⟨?_, h.sound hj⟩
    rintro rfl
    exact hji (h.unique hj hi)

end Owned

end Workbench
