import Mathlib.Tactic.Common

/-!
# `Lib.Fair` — runs in which everybody has a turn again and again

An infinite run has a turn of somebody at each time. Who helps at a time may help until the turn comes, and then
the run gets on.

## Main results
* `Fair.eventually` — a run comes to its end, if somebody helps at each time before.
-/

namespace Workbench

variable {σ ι : Type}

/-- Everybody has a turn at some time from each time on. -/
def Fair (turn : Nat → ι) : Prop := ∀ i t, ∃ t', t ≤ t' ∧ turn t' = i

namespace Fair

variable {turn : Nat → ι} {run : Nat → σ} {rank : σ → Nat} {helps : σ → ι → Prop} {i : ι} {t : Nat}

/-- Who helps has a turn, or the rank grows before it. -/
theorem gets_on (hfair : Fair turn) (hmono : ∀ t, rank (run t) ≤ rank (run (t + 1)))
    (hturn : ∀ t i, helps (run t) i →
      rank (run t) < rank (run (t + 1)) ∨ turn t ≠ i ∧ helps (run (t + 1)) i) (hhelps : helps (run t) i) :
    ∃ t', rank (run t) < rank (run t') := by
  obtain ⟨t', hle, ht'⟩ := hfair i t
  induction hn : t' - t generalizing t with
  | zero =>
      obtain rfl : t = t' := by omega
      exact ⟨t + 1, (hturn t i hhelps).resolve_right fun h => h.1 ht'⟩
  | succ n ih =>
      rcases hturn t i hhelps with hgrows | ⟨-, hstill⟩
      · exact ⟨t + 1, hgrows⟩
      · obtain ⟨t'', hgrows⟩ := ih hstill (by omega) (by omega)
        exact ⟨t'', Nat.lt_of_le_of_lt (hmono t) hgrows⟩

/-- **The rule for fair runs**: the rank has a bound, and grows again and again until the end. -/
theorem eventually (hfair : Fair turn) (run : Nat → σ) (rank : σ → Nat) (helps : σ → ι → Prop) (done : σ → Prop)
    {bound : Nat} (hbound : ∀ t, rank (run t) ≤ bound)
    (hmono : ∀ t, rank (run t) ≤ rank (run (t + 1))) (hhelps : ∀ t, done (run t) ∨ ∃ i, helps (run t) i)
    (hturn : ∀ t i, helps (run t) i →
      rank (run t) < rank (run (t + 1)) ∨ turn t ≠ i ∧ helps (run (t + 1)) i) : ∃ t, done (run t) := by
  suffices h : ∀ n t, bound - rank (run t) = n → ∃ t', done (run t') from h _ 0 rfl
  intro n
  induction n using Nat.strongRecOn with
  | _ n ih =>
      rintro t rfl
      rcases hhelps t with hdone | ⟨i, hi⟩
      · exact ⟨t, hdone⟩
      · obtain ⟨t', hgrows⟩ := hfair.gets_on hmono hturn hi
        have hle := hbound t'
        exact ih _ (by omega) t' rfl

end Fair

end Workbench
