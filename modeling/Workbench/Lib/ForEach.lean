import Mathlib.Data.List.Basic

/-!
# `Lib.ForEach` — an action on each element, until one fails

An action takes an element and a parameter, and gives a status and a new parameter. A status that is not 0 ends the
walk.

## Main results
* `forEach_append` — one walk after the other;
* `forEach_logged` — a walk that writes down what it is applied to;
* `applied_eq` — a walk that does not fail is applied to each element, in order, once.
-/

namespace Workbench

variable {δ σ : Type} {action : δ → σ → Int × σ} {d : δ} {ds : List δ} {param : σ}

/-- The status of the last application, or 0, and the parameter after it. -/
def forEach (action : δ → σ → Int × σ) : List δ → σ → Int × σ
  | [], param => (0, param)
  | d :: ds, param => if (action d param).1 = 0 then forEach action ds (action d param).2 else action d param

/-- What the action is applied to. -/
def applied (action : δ → σ → Int × σ) : List δ → σ → List δ
  | [], _ => []
  | d :: ds, param => d :: if (action d param).1 = 0 then applied action ds (action d param).2 else []

/-- One walk after the other, if the first one does not fail. -/
theorem forEach_append (action : δ → σ → Int × σ) (ds es : List δ) (param : σ) :
    forEach action (ds ++ es) param =
      if (forEach action ds param).1 = 0 then forEach action es (forEach action ds param).2
      else forEach action ds param := by
  induction ds generalizing param with
  | nil => simp only [List.nil_append, forEach, if_true]
  | cons d ds ih =>
      by_cases hstatus : (action d param).1 = 0
      · simp only [List.cons_append, forEach, hstatus, if_true]
        exact ih _
      · simp only [List.cons_append, forEach, hstatus, if_false]

/-- The action, which writes down what it is applied to. -/
def logged (action : δ → σ → Int × σ) (d : δ) (param : σ × List δ) : Int × σ × List δ :=
  ((action d param.1).1, (action d param.1).2, param.2 ++ [d])

/-- **What is written down.** -/
theorem forEach_logged (action : δ → σ → Int × σ) (ds : List δ) (param : σ) (log : List δ) :
    forEach (logged action) ds (param, log) =
      ((forEach action ds param).1, (forEach action ds param).2, log ++ applied action ds param) := by
  induction ds generalizing param log with
  | nil => simp only [forEach, applied, List.append_nil]
  | cons d ds ih =>
      by_cases hstatus : (action d param).1 = 0
      · simp only [forEach, applied, logged, hstatus, if_true]
        rw [ih, List.append_assoc, List.singleton_append]
      · simp only [forEach, applied, logged, hstatus, if_false]

/-- What the action is applied to is in front. -/
theorem applied_isPrefix (action : δ → σ → Int × σ) (ds : List δ) (param : σ) : applied action ds param <+: ds := by
  induction ds generalizing param with
  | nil => exact List.prefix_rfl
  | cons d ds ih =>
      rw [applied, List.prefix_cons_inj]
      split
      · exact ih _
      · exact List.nil_prefix

/-- **A walk that does not fail** gets to the end. -/
theorem applied_eq (h : (forEach action ds param).1 = 0) : applied action ds param = ds := by
  induction ds generalizing param with
  | nil => rfl
  | cons d ds ih =>
      by_cases hstatus : (action d param).1 = 0
      · rw [forEach, if_pos hstatus] at h
        rw [applied, if_pos hstatus, ih h]
      · rw [forEach, if_neg hstatus] at h
        exact absurd h hstatus

end Workbench
