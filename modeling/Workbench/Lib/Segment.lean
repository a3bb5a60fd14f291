import Mathlib.Data.List.Basic
import Mathlib.Logic.Relation

/-!
# `Lib.Segment` — lists that are linked one way

The cells of a list from its start up to an end, which is not a part of it. What a cell has and where it leads is a
relation, so that a write to one cell changes the relation at that cell only.

## Main results
* `segment_append` — a segment in two parts;
* `Segment.congr` — cells that stay as they are;
* `Segment.reaches` — the start leads to the end.
-/

namespace Workbench

variable {π δ : Type} {points points' : π → δ → π → Prop} {xs ys : List (π × δ)} {last : π}

/-- The first cell, or the end. -/
def start : List (π × δ) → π → π
  | [], last => last
  | e :: _, _ => e.1

@[simp] theorem start_nil (last : π) : start ([] : List (π × δ)) last = last := rfl

@[simp] theorem start_cons (e : π × δ) (xs : List (π × δ)) (last : π) : start (e :: xs) last = e.1 := rfl

theorem start_append (xs ys : List (π × δ)) (last : π) : start (xs ++ ys) last = start xs (start ys last) := by
  cases xs with
  | nil => rfl
  | cons e xs => rfl

/-- Each cell has its element and leads to the next one, and the last one leads to the end. -/
def Segment (points : π → δ → π → Prop) : List (π × δ) → π → Prop
  | [], _ => True
  | e :: xs, last => points e.1 e.2 (start xs last) ∧ Segment points xs last

/-- **A segment in two parts.** -/
theorem segment_append :
    Segment points (xs ++ ys) last ↔ Segment points xs (start ys last) ∧ Segment points ys last := by
  induction xs with
  | nil => exact (and_iff_right trivial).symm
  | cons e xs ih =>
      show points e.1 e.2 (start (xs ++ ys) last) ∧ Segment points (xs ++ ys) last ↔
        (points e.1 e.2 (start xs (start ys last)) ∧ Segment points xs (start ys last)) ∧ Segment points ys last
      rw [ih, start_append, and_assoc]

/-- **Cells that stay as they are.** -/
theorem Segment.congr (h : Segment points xs last)
    (hsame : ∀ e ∈ xs, ∀ q, points e.1 e.2 q → points' e.1 e.2 q) : Segment points' xs last := by
  induction xs with
  | nil => trivial
  | cons e xs ih =>
      obtain ⟨he, hxs⟩ := h
      exact ⟨hsame e List.mem_cons_self _ he, ih hxs fun e' he' => hsame e' (List.mem_cons_of_mem e he')⟩

/-- The start leads to the end. -/
theorem Segment.reaches (h : Segment points xs last) :
    Relation.ReflTransGen (fun p q => ∃ d, points p d q) (start xs last) last := by
  induction xs with
  | nil => exact .refl
  | cons e xs ih =>
      obtain ⟨he, hxs⟩ := h
      exact .head ⟨e.2, he⟩ (ih hxs)

end Workbench
