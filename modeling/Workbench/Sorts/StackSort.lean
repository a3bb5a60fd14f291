import Mathlib.Data.List.Sort
import Workbench.Calc.Stack

/-!
# `Sorts.StackSort` — `SortStack`

The elements that are popped are on the call stack only. A call that fails, or that runs out of fuel, is `none`. The
elements are compared as pointers, in any linear order.

## Main results
* `sortElemnt_eq` — an element is put in its place;
* `sortStack_sorts` — the same elements in order, from the bottom to the top.
-/

namespace Workbench.Sorts

open Calculator (Stack stackPush stackPop stackPeek stackPush_room stackPush_capacity stackPop_cons stackPeek_cons)

variable {α : Type}

/-! ## The functions -/

def stackIsEmpty (stack : Stack α) : Bool := stack.stackElements.isEmpty

section Order

variable [LinearOrder α]

/-- `1 == StackIsEmpty(stack) || element >= StackPeek(stack)`. -/
def belongsHere (stack : Stack α) (element : α) : Option Bool :=
  if stackIsEmpty stack then some true else (stackPeek stack).toOption.map fun top => decide (element ≥ top)

def sortElemnt : Nat → Stack α → α → Option (Stack α)
  | 0, _, _ => none
  | fuel + 1, stack, element => do
      if ← belongsHere stack element then
        (stackPush stack element).toOption
      else do
        let elementContainer ← (stackPeek stack).toOption
        let stack ← (stackPop stack).toOption
        let stack ← sortElemnt fuel stack element
        (stackPush stack elementContainer).toOption

def sortStack : Nat → Stack α → Option (Stack α)
  | 0, _ => none
  | fuel + 1, stack =>
      if stackIsEmpty stack then some stack else do
        let element ← (stackPeek stack).toOption
        let stack ← (stackPop stack).toOption
        let stack ← sortStack fuel stack
        sortElemnt (fuel + 1) stack element

end Order

/-! ## The calls of the stack -/

variable {stack : Stack α} {element top : α} {rest : List α} {fuel : Nat}

theorem stackIsEmpty_nil (h : stack.stackElements = []) : stackIsEmpty stack = true := by
  rw [stackIsEmpty, h]
  rfl

theorem stackIsEmpty_cons (h : stack.stackElements = top :: rest) : stackIsEmpty stack = false := by
  rw [stackIsEmpty, h]
  rfl

theorem peek_eq (h : stack.stackElements = top :: rest) : (stackPeek stack).toOption = some top := by
  rw [stackPeek_cons h]
  rfl

theorem pop_eq (h : stack.stackElements = top :: rest) :
    ∃ stack', (stackPop stack).toOption = some stack' ∧ stack'.stackElements = rest ∧
      stack'.stackCapacity = stack.stackCapacity := by
  obtain ⟨stack', hpop, helements, hcapacity⟩ := stackPop_cons h
  exact ⟨stack', by rw [hpop]; rfl, helements, hcapacity⟩

theorem push_eq (h : stack.stackElements.length < stack.stackCapacity) (element : α) :
    ∃ stack', (stackPush stack element).toOption = some stack' ∧
      stack'.stackElements = element :: stack.stackElements ∧ stack'.stackCapacity = stack.stackCapacity := by
  obtain ⟨stack', hpush, helements⟩ := stackPush_room h element
  exact ⟨stack', by rw [hpush]; rfl, helements, stackPush_capacity hpush⟩

/-! ## The order -/

variable [LinearOrder α]

theorem belongsHere_nil (h : stack.stackElements = []) (element : α) : belongsHere stack element = some true := by
  rw [belongsHere, if_pos (stackIsEmpty_nil h)]

theorem belongsHere_cons (h : stack.stackElements = top :: rest) (element : α) :
    belongsHere stack element = some (decide (element ≥ top)) := by
  rw [belongsHere, stackIsEmpty_cons h, if_neg Bool.false_ne_true, peek_eq h]
  rfl

theorem sortElemnt_stops (h : belongsHere stack element = some true) :
    sortElemnt (fuel + 1) stack element = (stackPush stack element).toOption := by
  rw [sortElemnt, h]
  rfl

/-- **An element is put in its place**, if there is room for it. -/
theorem sortElemnt_eq (element : α) (hroom : stack.stackElements.length < stack.stackCapacity)
    (hfuel : stack.stackElements.length < fuel) :
    ∃ stack', sortElemnt fuel stack element = some stack' ∧
      stack'.stackElements = stack.stackElements.orderedInsert (· ≥ ·) element ∧
      stack'.stackCapacity = stack.stackCapacity := by
  induction fuel generalizing stack with
  | zero => exact absurd hfuel (Nat.not_lt_zero _)
  | succ fuel ih =>
      obtain ⟨pushed, hpush, helements, hcapacity⟩ := push_eq hroom element
      cases hstack : stack.stackElements with
      | nil =>
          refine ⟨pushed, ?_, by rw [helements, hstack]; rfl, hcapacity⟩
          rw [sortElemnt_stops (belongsHere_nil hstack element), hpush]
      | cons top rest =>
          have hhere := belongsHere_cons hstack element
          by_cases hle : element ≥ top
          · rw [List.orderedInsert_cons_of_le (· ≥ ·) rest hle]
            refine ⟨pushed, ?_, by rw [helements, hstack], hcapacity⟩
            rw [sortElemnt_stops (by rw [hhere, decide_eq_true hle]), hpush]
          · -- the top waits on the call stack, so there is room for it
            obtain ⟨popped, hpop, hrest, hcapacity₁⟩ := pop_eq hstack
            rw [hstack, List.length_cons] at hroom hfuel
            have hroom₁ : popped.stackElements.length < popped.stackCapacity := by
              rw [hrest, hcapacity₁]
              exact Nat.lt_of_succ_lt hroom
            have hfuel₁ : popped.stackElements.length < fuel := by
              rw [hrest]
              exact Nat.lt_of_succ_lt_succ hfuel
            obtain ⟨below, hbelow, helements₂, hcapacity₂⟩ := ih hroom₁ hfuel₁
            have hroom₂ : below.stackElements.length < below.stackCapacity := by
              rw [helements₂, hrest, hcapacity₂, hcapacity₁, List.orderedInsert_length]
              exact hroom
            obtain ⟨stack', hpush', helements', hcapacity'⟩ := push_eq hroom₂ top
            rw [List.orderedInsert_of_not_le (· ≥ ·) rest hle]
            refine ⟨stack', ?_, by rw [helements', helements₂, hrest], by rw [hcapacity', hcapacity₂, hcapacity₁]⟩
            rw [sortElemnt, hhere, decide_eq_false hle, peek_eq hstack, hpop]
            show (sortElemnt fuel popped element).bind _ = _
            rw [hbelow]
            exact hpush'

theorem sortStack_eq (hfuel : stack.stackElements.length < fuel) :
    ∃ stack', sortStack fuel stack = some stack' ∧
      stack'.stackElements = stack.stackElements.insertionSort (· ≥ ·) ∧
      stack'.stackCapacity = stack.stackCapacity := by
  induction fuel generalizing stack with
  | zero => exact absurd hfuel (Nat.not_lt_zero _)
  | succ fuel ih =>
      rw [sortStack]
      cases hstack : stack.stackElements with
      | nil =>
          rw [if_pos (stackIsEmpty_nil hstack)]
          exact ⟨stack, rfl, hstack, rfl⟩
      | cons element rest =>
          obtain ⟨popped, hpop, hrest, hcapacity₁⟩ := pop_eq hstack
          have hwithin := stack.within
          rw [hstack, List.length_cons] at hfuel hwithin
          have hfuel₁ : popped.stackElements.length < fuel := by
            rw [hrest]
            exact Nat.lt_of_succ_lt_succ hfuel
          obtain ⟨sorted, hsort, helements₂, hcapacity₂⟩ := ih hfuel₁
          have hlength : sorted.stackElements.length = rest.length := by
            rw [helements₂, List.length_insertionSort, hrest]
          have hroom : sorted.stackElements.length < sorted.stackCapacity := by
            rw [hlength, hcapacity₂, hcapacity₁]
            exact hwithin
          have hfuel₂ : sorted.stackElements.length < fuel + 1 := by
            rw [hlength]
            exact Nat.lt_of_succ_lt hfuel
          obtain ⟨stack', hput, helements', hcapacity'⟩ := sortElemnt_eq element hroom hfuel₂
          refine ⟨stack', ?_, by rw [helements', helements₂, hrest]; rfl, by rw [hcapacity', hcapacity₂, hcapacity₁]⟩
          rw [stackIsEmpty_cons hstack, if_neg Bool.false_ne_true, peek_eq hstack, hpop]
          show (sortStack fuel popped).bind _ = _
          rw [hsort]
          exact hput

/-- **The same elements in order**, from the bottom to the top. -/
theorem sortStack_sorts (stack : Stack α) (fuel : Nat) (hfuel : stack.stackElements.length < fuel) :
    ∃ stack', sortStack fuel stack = some stack' ∧ stack'.stackElements.Perm stack.stackElements ∧
      stack'.stackElements.reverse.Pairwise (· ≤ ·) ∧ stack'.stackCapacity = stack.stackCapacity := by
  obtain ⟨stack', hsort, helements, hcapacity⟩ := sortStack_eq hfuel
  refine ⟨stack', hsort, ?_, ?_, hcapacity⟩
  · rw [helements]
    exact List.perm_insertionSort (· ≥ ·) _
  · rw [helements, List.pairwise_reverse]
    exact List.pairwise_insertionSort (· ≥ ·) _

theorem sortStack_sorts_two :
    ∃ stack', sortStack 3 (⟨[1, 2], 2, by decide⟩ : Stack Nat) = some stack' ∧ stack'.stackElements.Perm [1, 2] ∧
      stack'.stackElements.reverse.Pairwise (· ≤ ·) ∧ stack'.stackCapacity = 2 :=
  sortStack_sorts ⟨[1, 2], 2, by decide⟩ 3 (by decide)

end Workbench.Sorts
