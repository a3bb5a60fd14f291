import Mathlib.Tactic.Common

/-!
# `Lib.While` — loops

A loop has a state, a condition and a body that may both fail, and fuel for a number of turns. It fails with them, and
where the fuel does not last.

## Main results
* `whileDo_ends` — the rule for a loop with an invariant and a measure;
* `whileDo_keeps` — the rule for a loop that is known to end;
* `whileDo_upTo`, `whileDo_until` — the rules for a loop with a counter;
* `whileDo_stuck` — the rule for a loop that fails or does not end.
-/

namespace Workbench

variable {σ : Type}

def whileDo (cond : σ → Option Bool) (body : σ → Option σ) : Nat → σ → Option σ
  | 0, _ => none
  | fuel + 1, s => do
      if ← cond s then
        let s ← body s
        whileDo cond body fuel s
      else return s

variable {cond : σ → Option Bool} {body : σ → Option σ} {fuel : Nat} {s s' : σ}

theorem whileDo_false (hcond : cond s = some false) : whileDo cond body (fuel + 1) s = some s := by
  rw [whileDo, hcond]
  rfl

theorem whileDo_true (hcond : cond s = some true) (hbody : body s = some s') :
    whileDo cond body (fuel + 1) s = whileDo cond body fuel s' := by
  rw [whileDo, hcond]
  show (body s).bind (whileDo cond body fuel) = _
  rw [hbody]
  rfl

/-- **A loop ends** with its invariant and without its condition, if each turn keeps the invariant and makes the measure
    smaller. -/
theorem whileDo_ends (cond : σ → Option Bool) (body : σ → Option σ) (inv : σ → Prop) (measure : σ → Nat)
    (hturn : ∀ s, inv s → cond s = some false ∨
      cond s = some true ∧ ∃ s', body s = some s' ∧ inv s' ∧ measure s' < measure s)
    (hinv : inv s) (hfuel : measure s < fuel) :
    ∃ s', whileDo cond body fuel s = some s' ∧ inv s' ∧ cond s' = some false := by
  induction fuel generalizing s with
  | zero => exact absurd hfuel (Nat.not_lt_zero _)
  | succ fuel ih =>
      rcases hturn s hinv with hcond | ⟨hcond, s', hbody, hinv', hlt⟩
      · exact ⟨s, whileDo_false hcond, hinv, hcond⟩
      · rw [whileDo_true hcond hbody]
        exact ih hinv' (Nat.lt_of_lt_of_le hlt (Nat.le_of_lt_succ hfuel))

/-- **What a loop leaves**, if it ends: its invariant, without its condition. -/
theorem whileDo_keeps (inv : σ → Prop)
    (hturn : ∀ s s', inv s → cond s = some true → body s = some s' → inv s') (hinv : inv s)
    (hloop : whileDo cond body fuel s = some s') : inv s' ∧ cond s' = some false := by
  induction fuel generalizing s with
  | zero => cases hloop
  | succ fuel ih =>
      cases hcond : cond s with
      | none =>
          rw [whileDo, hcond] at hloop
          cases hloop
      | some goes =>
          cases goes with
          | false =>
              rw [whileDo_false hcond] at hloop
              obtain rfl := Option.some.inj hloop
              exact ⟨hinv, hcond⟩
          | true =>
              cases hbody : body s with
              | none =>
                  rw [whileDo, hcond] at hloop
                  have hnone : (body s).bind (whileDo cond body fuel) = some s' := hloop
                  rw [hbody] at hnone
                  cases hnone
              | some s₁ =>
                  rw [whileDo_true hcond hbody] at hloop
                  exact ih (hturn s s₁ hinv hcond hbody) hloop

/-- **A loop with a counter** ends at the bound, if each turn keeps the invariant and counts. -/
theorem whileDo_upTo (body : σ → Option σ) (inv : σ → Prop) (counter : σ → Nat) (bound : Nat)
    (hturn : ∀ s, inv s → counter s < bound → ∃ s', body s = some s' ∧ inv s' ∧ counter s' = counter s + 1)
    (hinv : inv s) (hle : counter s ≤ bound) (hfuel : bound - counter s < fuel) :
    ∃ s', whileDo (fun s => some (decide (counter s < bound))) body fuel s = some s' ∧ inv s' ∧ counter s' = bound := by
  have hends : ∀ s, inv s ∧ counter s ≤ bound → some (decide (counter s < bound)) = some false ∨
      some (decide (counter s < bound)) = some true ∧
        ∃ s', body s = some s' ∧ (inv s' ∧ counter s' ≤ bound) ∧ bound - counter s' < bound - counter s := by
    rintro s ⟨hinv, hle⟩
    by_cases hlt : counter s < bound
    · obtain ⟨s', hbody, hinv', hcount⟩ := hturn s hinv hlt
      exact .inr ⟨by rw [decide_eq_true hlt], s', hbody, ⟨hinv', by omega⟩, by omega⟩
    · exact .inl (by rw [decide_eq_false hlt])
  obtain ⟨s', hloop, ⟨hinv', hle'⟩, hend⟩ := whileDo_ends _ body _ _ hends ⟨hinv, hle⟩ hfuel
  have hnot : ¬ counter s' < bound := of_decide_eq_false (Option.some.inj hend)
  exact ⟨s', hloop, hinv', by omega⟩

/-- The same with a condition that the counter is not at the bound. -/
theorem whileDo_until (body : σ → Option σ) (inv : σ → Prop) (counter : σ → Nat) (bound : Nat)
    (hturn : ∀ s, inv s → counter s < bound → ∃ s', body s = some s' ∧ inv s' ∧ counter s' = counter s + 1)
    (hinv : inv s) (hle : counter s ≤ bound) (hfuel : bound - counter s < fuel) :
    ∃ s', whileDo (fun s => some (decide (counter s ≠ bound))) body fuel s = some s' ∧ inv s' ∧ counter s' = bound := by
  have hends : ∀ s, inv s ∧ counter s ≤ bound → some (decide (counter s ≠ bound)) = some false ∨
      some (decide (counter s ≠ bound)) = some true ∧
        ∃ s', body s = some s' ∧ (inv s' ∧ counter s' ≤ bound) ∧ bound - counter s' < bound - counter s := by
    rintro s ⟨hinv, hle⟩
    by_cases heq : counter s = bound
    · exact .inl (by rw [decide_eq_false (not_not_intro heq)])
    · obtain ⟨s', hbody, hinv', hcount⟩ := hturn s hinv (by omega)
      exact .inr ⟨by rw [decide_eq_true heq], s', hbody, ⟨hinv', by omega⟩, by omega⟩
  obtain ⟨s', hloop, ⟨hinv', -⟩, hend⟩ := whileDo_ends _ body _ _ hends ⟨hinv, hle⟩ hfuel
  exact ⟨s', hloop, hinv', not_not.mp (of_decide_eq_false (Option.some.inj hend))⟩

/-- **A loop fails or does not end**, if each turn fails or keeps it where it is stuck. -/
theorem whileDo_stuck (stuck : σ → Prop)
    (hturn : ∀ s, stuck s → cond s = none ∨ cond s = some true ∧ ∀ s', body s = some s' → stuck s')
    (hstuck : stuck s) : whileDo cond body fuel s = none := by
  induction fuel generalizing s with
  | zero => rfl
  | succ fuel ih =>
      rcases hturn s hstuck with hcond | ⟨hcond, hbody⟩
      · rw [whileDo, hcond]
        rfl
      · cases hs' : body s with
        | none =>
            rw [whileDo, hcond]
            show (body s).bind (whileDo cond body fuel) = _
            rw [hs']
            rfl
        | some s' =>
            rw [whileDo_true hcond hs']
            exact ih (hbody s' hs')

end Workbench
