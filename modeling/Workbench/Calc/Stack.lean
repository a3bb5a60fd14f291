import Mathlib.Tactic.Common

/-!
# `Calc.Stack` — the stack of pointers

A stack is its elements, the last one pushed first, with the capacity they were allocated with. An assertion that
fails and a read outside of an array end the program.

## Contents
* `stackCreate`, `stackPush`, `stackPop`, `stackPeek`;
* `stackPush_cases`, `stackPush_full`, `stackPush_room`, `stackPop_cons`, `stackPeek_cons` — what each of them does;
* `stackPush_capacity`, `stackPop_capacity` — the capacity stays.
-/

namespace Workbench.Calculator

/-- How the program ends before it returns. -/
inductive Abort
  /-- The assertion of `StackPush`. -/
  | full
  /-- The assertion of `StackPop`, or a read in front of the elements. -/
  | empty
  /-- A read in front of a table. -/
  | index
  /-- The call of an entry that is `NULL`. -/
  | null
  deriving DecidableEq

structure Stack (α : Type) where
  stackElements : List α
  stackCapacity : Nat
  within : stackElements.length ≤ stackCapacity

variable {α : Type} {stack : Stack α} {e : α} {rest : List α}

def stackCreate (capacity : Nat) : Stack α := ⟨[], capacity, Nat.zero_le capacity⟩

def stackPush (stack : Stack α) (element : α) : Except Abort (Stack α) :=
  if h : stack.stackCapacity = stack.stackElements.length then
    .error .full
  else
    .ok ⟨element :: stack.stackElements, stack.stackCapacity, Nat.lt_of_le_of_ne stack.within (Ne.symm h)⟩

def stackPop : Stack α → Except Abort (Stack α)
  | ⟨[], _, _⟩ => .error .empty
  | ⟨_ :: rest, capacity, h⟩ => .ok ⟨rest, capacity, Nat.le_of_succ_le h⟩

def stackPeek (stack : Stack α) : Except Abort α :=
  match stack.stackElements with
  | [] => .error .empty
  | element :: _ => .ok element

theorem stackPush_cases (stack : Stack α) (e : α) :
    stackPush stack e = .error .full ∨
      ∃ stack', stackPush stack e = .ok stack' ∧ stack'.stackElements = e :: stack.stackElements := by
  unfold stackPush
  by_cases h : stack.stackCapacity = stack.stackElements.length
  · rw [dif_pos h]
    exact .inl rfl
  · rw [dif_neg h]
    exact .inr ⟨_, rfl, rfl⟩

theorem stackPush_full : stackPush stack e = .error .full ↔ stack.stackCapacity = stack.stackElements.length := by
  unfold stackPush
  by_cases h : stack.stackCapacity = stack.stackElements.length
  · rw [dif_pos h]
    exact ⟨fun _ => h, fun _ => rfl⟩
  · rw [dif_neg h]
    constructor
    · intro heq
      cases heq
    · intro heq
      exact absurd heq h

theorem stackPush_room (h : stack.stackElements.length < stack.stackCapacity) (e : α) :
    ∃ stack', stackPush stack e = .ok stack' ∧ stack'.stackElements = e :: stack.stackElements := by
  unfold stackPush
  rw [dif_neg (Nat.ne_of_gt h)]
  exact ⟨_, rfl, rfl⟩

theorem bind_eq_ok {β : Type} {x : Except Abort α} {f : α → Except Abort β} {b : β} :
    x >>= f = .ok b ↔ ∃ a, x = .ok a ∧ f a = .ok b := by
  cases x with
  | error abort =>
      constructor
      · intro h
        cases h
      · rintro ⟨a, h, -⟩
        cases h
  | ok a =>
      constructor
      · exact fun h => ⟨a, rfl, h⟩
      · rintro ⟨a', h, hf⟩
        cases h
        exact hf

theorem stackPush_capacity {stack' : Stack α} (h : stackPush stack e = .ok stack') :
    stack'.stackCapacity = stack.stackCapacity := by
  unfold stackPush at h
  split at h
  · cases h
  · cases h
    rfl

theorem stackPop_capacity {stack' : Stack α} (h : stackPop stack = .ok stack') :
    stack'.stackCapacity = stack.stackCapacity := by
  obtain ⟨elements, capacity, _⟩ := stack
  cases elements with
  | nil => cases h
  | cons e rest =>
      cases h
      rfl

theorem stackPop_cons (h : stack.stackElements = e :: rest) :
    ∃ stack', stackPop stack = .ok stack' ∧ stack'.stackElements = rest ∧
      stack'.stackCapacity = stack.stackCapacity := by
  obtain ⟨_, capacity, _⟩ := stack
  obtain rfl := h
  exact ⟨_, rfl, rfl, rfl⟩

theorem stackPeek_cons (h : stack.stackElements = e :: rest) : stackPeek stack = .ok e := by
  unfold stackPeek
  rw [h]

end Workbench.Calculator
