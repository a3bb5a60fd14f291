import Mathlib.Tactic.Common

/-!
# `Lib.System` — states, steps and runs

A system has states in which it may start and steps with labels. A run may be restricted to steps that meet a
condition on the state before the step.

## Main results
* `System.invariant` — what holds at the start and is kept by each step holds in every state of a run;
* `System.Reachable.mono` — runs under a stronger condition are runs under a weaker one;
* `System.exists_end` — a run goes on to its end, if there is a step that makes a measure smaller.
-/

namespace Workbench

/-- States of type `σ`, and steps with labels of type `α`. -/
structure System (σ α : Type) where
  init : σ → Prop
  step : σ → α → σ → Prop

namespace System

variable {σ α : Type} {S : System σ α} {ok ok' : σ → α → Prop} {s s' : σ} {a : α}

/-- The states of the runs whose steps all meet the condition `ok`. -/
inductive Reachable (S : System σ α) (ok : σ → α → Prop) : σ → Prop
  | init {s : σ} : S.init s → Reachable S ok s
  | step {s s' : σ} {a : α} : Reachable S ok s → ok s a → S.step s a s' → Reachable S ok s'

/-- No condition. -/
abbrev Any : σ → α → Prop := fun _ _ => True

/-- **The rule for invariants.** -/
theorem invariant {Inv : σ → Prop} (hinit : ∀ s, S.init s → Inv s)
    (hstep : ∀ s a s', Inv s → ok s a → S.step s a s' → Inv s') (h : S.Reachable ok s) : Inv s := by
  induction h with
  | init h => exact hinit _ h
  | step _ hok hs ih => exact hstep _ _ _ ih hok hs

theorem Reachable.mono (hok : ∀ s a, ok s a → ok' s a) (h : S.Reachable ok s) : S.Reachable ok' s := by
  induction h with
  | init h => exact .init h
  | step _ h hs ih => exact .step ih (hok _ _ h) hs

/-- **The rule for ends.** -/
theorem exists_end {done : σ → Prop} (measure : σ → Nat)
    (hstep : ∀ s, S.Reachable ok s → ¬ done s → ∃ a s', ok s a ∧ S.step s a s' ∧ measure s' < measure s)
    (h : S.Reachable ok s) : ∃ s', S.Reachable ok s' ∧ done s' := by
  induction hn : measure s using Nat.strongRecOn generalizing s with
  | _ n ih =>
      subst hn
      by_cases hdone : done s
      · exact ⟨s, h, hdone⟩
      · obtain ⟨a, s', hok, hs, hlt⟩ := hstep s h hdone
        exact ih _ hlt (.step h hok hs) rfl

end System

end Workbench
