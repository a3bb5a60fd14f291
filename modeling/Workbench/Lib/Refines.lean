import Workbench.Lib.System

/-!
# `Lib.Refines` — a component that answers as its model does

A component gets calls and answers them. The model gets the same calls. A call may be restricted by what the caller
promises, which may depend on both states.

## Main results
* `Refines` — in every run the component returns, with the answer of the model;
* `refines_of_simulation` — a relation between the states that each call keeps is enough.
-/

namespace Workbench

/-- A component: its states, its calls, and its answers. -/
structure Component (σ γ ρ : Type) where
  init : σ → Prop
  exec : σ → γ → Option (σ × ρ)

/-- A model: it always answers. -/
structure Model (τ γ ρ : Type) where
  init : τ
  answer : τ → γ → τ × ρ

variable {σ τ γ ρ : Type} (C : Component σ γ ρ) (M : Model τ γ ρ) (allowed : σ → τ → γ → Prop)

/-- The component and the model side by side. -/
def sideBySide : System (σ × τ) γ where
  init s := C.init s.1 ∧ s.2 = M.init
  step s call s' := allowed s.1 s.2 call ∧ (∃ answer, C.exec s.1 call = some (s'.1, answer)) ∧
    s'.2 = (M.answer s.2 call).1

/-- **The component answers as the model does**, after any calls. -/
def Refines : Prop :=
  ∀ s, (sideBySide C M allowed).Reachable System.Any s → ∀ call, allowed s.1 s.2 call →
    ∃ s', C.exec s.1 call = some (s', (M.answer s.2 call).2)

variable {C M allowed}

/-- The two states are related. -/
def Related (R : σ → τ → Prop) (s : σ × τ) : Prop := R s.1 s.2

/-- **What each call keeps** holds in every state of a run. -/
theorem keeps_of_simulation {R : σ → τ → Prop} (hinit : ∀ s, C.init s → R s M.init)
    (hstep : ∀ s t call, R s t → allowed s t call →
      ∃ s', C.exec s call = some (s', (M.answer t call).2) ∧ R s' (M.answer t call).1)
    {s : σ × τ} (h : (sideBySide C M allowed).Reachable System.Any s) : R s.1 s.2 := by
  have hrun : Related R s := by
    refine System.invariant ?_ ?_ h
    · rintro s ⟨hs, ht⟩
      show R s.1 s.2
      rw [ht]
      exact hinit s.1 hs
    · rintro s call s' hR - ⟨hallowed, ⟨answer, hexec⟩, ht⟩
      obtain ⟨s'', hexec', hR'⟩ := hstep s.1 s.2 call hR hallowed
      obtain ⟨rfl, -⟩ := Prod.mk.inj (Option.some.inj (hexec.symm.trans hexec'))
      show R s'.1 s'.2
      rw [ht]
      exact hR'
  exact hrun

theorem refines_of_simulation {R : σ → τ → Prop} (hinit : ∀ s, C.init s → R s M.init)
    (hstep : ∀ s t call, R s t → allowed s t call →
      ∃ s', C.exec s call = some (s', (M.answer t call).2) ∧ R s' (M.answer t call).1) : Refines C M allowed := by
  intro s h call hallowed
  obtain ⟨s', hexec, -⟩ := hstep s.1 s.2 call (keeps_of_simulation hinit hstep h) hallowed
  exact ⟨s', hexec⟩

end Workbench
