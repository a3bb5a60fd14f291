import Workbench.Calc.Calculate
import Workbench.Lib.Bracketed

/-!
# `Calc.Stacked` — what the two stacks hold

Above the `#` that `CalcInit` pushes, there are operators and opening brackets; for each operator a number is pending.
`calcOperation` then finds its two numbers and its operator.

## Main results
* `calcOperation_eq` — the numbers and the operator that are taken, for any operators;
* `Good.calcOperation`, `Good.reduceWhile` — operators that do not fail keep the invariant.
-/

namespace Workbench.Calculator

open Bracketed

variable {V : Type} {arith : Arith V} {cal : Calc V} {exitStatus : CalcStatus}

/-! ## The tokens -/

def IsOperator (c : Char) : Prop := c ∈ ['+', '-', '*', '/', '^']

instance : DecidablePred IsOperator := fun c => inferInstanceAs (Decidable (c ∈ ['+', '-', '*', '/', '^']))

def closing : Char → Option Char
  | '(' => some ')'
  | '[' => some ']'
  | '{' => some '}'
  | _ => none

theorem closing_eq_some {o c : Char} :
    closing o = some c ↔ o = '(' ∧ c = ')' ∨ o = '[' ∧ c = ']' ∨ o = '{' ∧ c = '}' := by
  unfold closing
  constructor
  · intro h
    split at h
    · exact .inl ⟨rfl, (Option.some.inj h).symm⟩
    · exact .inr (.inl ⟨rfl, (Option.some.inj h).symm⟩)
    · exact .inr (.inr ⟨rfl, (Option.some.inj h).symm⟩)
    · simp at h
  · rintro (⟨rfl, rfl⟩ | ⟨rfl, rfl⟩ | ⟨rfl, rfl⟩) <;> rfl

theorem not_isOperator_of_closing {o c : Char} (h : closing o = some c) : ¬ IsOperator o ∧ ¬ IsOperator c := by
  rcases closing_eq_some.mp h with ⟨rfl, rfl⟩ | ⟨rfl, rfl⟩ | ⟨rfl, rfl⟩ <;> decide

/-- The tokens of the calculator: numbers are what `strtod` reads. -/
def lexicon (strtod : Strtod V) : Lexicon Char where
  number s := (strtod.scan s).1
  isOperator := IsOperator
  closing := closing
  number_le := strtod.scan_le
  number_opening s h := strtod.scan_opening s (by
    rcases closing_eq_some.mp h with ⟨rfl, -⟩ | ⟨rfl, -⟩ | ⟨rfl, -⟩ <;> decide)
  operator_closing h := (not_isOperator_of_closing h).2

/-! ## The operator stack -/

/-- The operator stack, with the closing brackets that are to come and how many operators it holds. -/
inductive Stacked : List Char → List Char → Nat → Prop
  | bottom : Stacked ['#'] [] 0
  | operator {o : Char} {ops β : List Char} {n : Nat} : IsOperator o → Stacked ops β n → Stacked (o :: ops) β (n + 1)
  | bracket {o c : Char} {ops β : List Char} {n : Nat} : closing o = some c → Stacked ops β n →
      Stacked (o :: ops) (c :: β) n

variable {o : Char} {ops β : List Char} {n : Nat}

theorem Stacked.of_operator (h : Stacked (o :: ops) β n) (ho : IsOperator o) :
    ∃ m, n = m + 1 ∧ Stacked ops β m := by
  cases h with
  | bottom => exact absurd ho (by decide)
  | operator _ hrest => exact ⟨_, rfl, hrest⟩
  | bracket hclosing _ => exact absurd ho (not_isOperator_of_closing hclosing).1

theorem Stacked.of_bracket {c : Char} (h : Stacked (o :: ops) β n) (hclosing : closing o = some c) :
    ∃ β', β = c :: β' ∧ Stacked ops β' n := by
  cases h with
  | bottom => cases hclosing
  | operator ho _ => exact absurd ho (not_isOperator_of_closing hclosing).1
  | bracket hclosing' hrest =>
      obtain rfl := Option.some.inj (hclosing'.symm.trans hclosing)
      exact ⟨_, rfl, hrest⟩

theorem Stacked.of_bottom (h : Stacked ('#' :: ops) β n) : β = [] := by
  cases h with
  | bottom => rfl
  | operator ho _ => exact absurd ho (by decide)
  | bracket hclosing _ => cases hclosing

theorem Stacked.eq_cons (h : Stacked ops β n) : ∃ o rest, ops = o :: rest := by
  cases h with
  | bottom => exact ⟨_, _, rfl⟩
  | operator _ _ => exact ⟨_, _, rfl⟩
  | bracket _ _ => exact ⟨_, _, rfl⟩

theorem Stacked.closers {strtod : Strtod V} (h : Stacked ops β n) : Closers (lexicon strtod) β := by
  induction h with
  | bottom => exact fun c hc => absurd hc List.not_mem_nil
  | operator _ _ ih => exact ih
  | bracket hclosing _ ih =>
      intro c hc
      rcases List.mem_cons.mp hc with rfl | hc
      · exact ⟨_, hclosing⟩
      · exact ih c hc

/-- Without brackets, there are operators above the bottom. -/
theorem Stacked.operators (h : Stacked ops β n) (hβ : β = []) : ∀ o ∈ ops, o ≠ '#' → IsOperator o := by
  induction h with
  | bottom => exact fun o ho hne => absurd (List.mem_singleton.mp ho) hne
  | operator hoperator _ ih =>
      intro o ho hne
      rcases List.mem_cons.mp ho with rfl | ho
      · exact hoperator
      · exact ih hβ o ho hne
  | bracket _ _ _ => exact absurd hβ (List.cons_ne_nil _ _)

theorem Stacked.mem_cases (h : Stacked ops β n) : ∀ o ∈ ops, o = '#' ∨ IsOperator o ∨ ∃ c, closing o = some c := by
  induction h with
  | bottom => exact fun o ho => .inl (List.mem_singleton.mp ho)
  | operator hoperator _ ih =>
      intro o ho
      rcases List.mem_cons.mp ho with rfl | ho
      · exact .inr (.inl hoperator)
      · exact ih o ho
  | bracket hclosing _ ih =>
      intro o ho
      rcases List.mem_cons.mp ho with rfl | ho
      · exact .inr (.inr ⟨_, hclosing⟩)
      · exact ih o ho

/-! ## Operators that are applied -/

theorem funcLut_operator (arith : Arith V) (ho : IsOperator o) : ∃ func, funcLut arith o = .ok func := by
  simp only [IsOperator, List.mem_cons, List.not_mem_nil, or_false] at ho
  rcases ho with rfl | rfl | rfl | rfl | rfl <;> exact ⟨_, rfl⟩

variable [Zero V]

/-- **Two numbers and an operator** are taken, and the value is a number. -/
theorem calcOperation_eq {num1 num2 : V} {nums : List V} {func : V → V → Option V} (exitStatus : CalcStatus)
    (hnums : cal.numStack.stackElements = num2 :: num1 :: nums) (hops : cal.opStack.stackElements = o :: ops)
    (hfunc : funcLut arith o = .ok func) :
    ∃ numStack opStack,
      calcOperation arith cal exitStatus = .ok ((applyFunc func num1 num2 exitStatus).1,
        { cal with numStack, opStack }, (applyFunc func num1 num2 exitStatus).2) ∧
      numStack.stackElements = (applyFunc func num1 num2 exitStatus).1 :: nums ∧ opStack.stackElements = ops := by
  obtain ⟨numStack₁, hpop₁, hrest₁, hcapacity₁⟩ := stackPop_cons hnums
  obtain ⟨numStack₂, hpop₂, hrest₂, hcapacity₂⟩ := stackPop_cons hrest₁
  -- two numbers are gone, so there is room for one
  have hroom : numStack₂.stackElements.length < numStack₂.stackCapacity := by
    have hwithin := cal.numStack.within
    rw [hnums, List.length_cons, List.length_cons] at hwithin
    rw [hrest₂, hcapacity₂, hcapacity₁]
    omega
  obtain ⟨numStack₃, hpush, helements⟩ := stackPush_room hroom (applyFunc func num1 num2 exitStatus).1
  obtain ⟨opStack, hpop, hops', -⟩ := stackPop_cons hops
  refine ⟨numStack₃, opStack, ?_, by rw [helements, hrest₂], hops'⟩
  simp only [calcOperation, stackPeek_cons hnums, hpop₁, stackPeek_cons hrest₁, hpop₂, stackPeek_cons hops, hfunc,
    hpush, hpop, bind, Except.bind, pure, Except.pure]

/-! ## The invariant -/

/-- How many numbers are pending when `n` operators are. -/
def State.pending (n : Nat) : State → Nat
  | .waitForNum => n
  | .waitForOp => n + 1

/-- What holds between the turns of the loop: `β` are the closing brackets that are to come. -/
structure Good (cal : Calc V) (β : List Char) (n : Nat) : Prop where
  stacked : Stacked cal.opStack.stackElements β n
  numbers : cal.numStack.stackElements.length = cal.currenState.pending n
  counter : cal.paranthesesCounter = β.length

/-- The operators always give a value. -/
structure Arith.NeverFails (arith : Arith V) : Prop where
  plus (a b : V) : (arith.plus a b).isSome
  minus (a b : V) : (arith.minus a b).isSome
  multiply (a b : V) : (arith.multiply a b).isSome
  divide (a b : V) : (arith.divide a b).isSome
  power (a b : V) : (arith.power a b).isSome

omit [Zero V] in
theorem Arith.NeverFails.isSome (hnever : arith.NeverFails) {func : V → V → Option V} (ho : IsOperator o)
    (hfunc : funcLut arith o = .ok func) (a b : V) : (func a b).isSome := by
  simp only [IsOperator, List.mem_cons, List.not_mem_nil, or_false] at ho
  rcases ho with rfl | rfl | rfl | rfl | rfl <;> obtain rfl := Except.ok.inj hfunc
  · exact hnever.plus a b
  · exact hnever.minus a b
  · exact hnever.multiply a b
  · exact hnever.divide a b
  · exact hnever.power a b

/-- `cal'` is `cal` with operators applied, and `ops` left on the stack. -/
structure Applied (cal cal' : Calc V) (β : List Char) (ops : List Char) : Prop where
  good : ∃ n, Good cal' β n
  elements : cal'.opStack.stackElements = ops
  currenState : cal'.currenState = .waitForOp
  mathExp : cal'.mathExp = cal.mathExp

/-- **An operator on top is applied.** -/
theorem Good.calcOperation (h : Good cal β n) (exitStatus : CalcStatus) (hstate : cal.currenState = .waitForOp)
    (hnever : arith.NeverFails) (hops : cal.opStack.stackElements = o :: ops) (ho : IsOperator o) :
    ∃ operand cal', calcOperation arith cal exitStatus = .ok (operand, cal', exitStatus) ∧
      Applied cal cal' β ops := by
  obtain ⟨m, rfl, hstacked⟩ := (hops ▸ h.stacked).of_operator ho
  -- two numbers, as there is an operator
  obtain ⟨num2, num1, nums, hnums⟩ : ∃ num2 num1 nums, cal.numStack.stackElements = num2 :: num1 :: nums := by
    have hlength := h.numbers
    rw [hstate] at hlength
    rcases hnum : cal.numStack.stackElements with _ | ⟨num2, _ | ⟨num1, nums⟩⟩
    · rw [hnum] at hlength
      cases hlength
    · rw [hnum] at hlength
      cases hlength
    · exact ⟨num2, num1, nums, rfl⟩
  obtain ⟨func, hfunc⟩ := funcLut_operator arith ho
  obtain ⟨value, hvalue⟩ := Option.isSome_iff_exists.mp (hnever.isSome ho hfunc num1 num2)
  obtain ⟨numStack, opStack, heq, hnums', hops'⟩ := calcOperation_eq exitStatus hnums hops hfunc
  have happly : applyFunc func num1 num2 exitStatus = (value, exitStatus) := by
    unfold applyFunc
    rw [hvalue]
  rw [happly] at heq hnums'
  refine ⟨value, _, heq, ⟨m, ?_, ?_, h.counter⟩, hops', hstate, rfl⟩
  · rw [hops']
    exact hstacked
  · have hlength := h.numbers
    rw [hnums, hstate] at hlength
    show numStack.stackElements.length = cal.currenState.pending m
    rw [hnums', hstate]
    exact Nat.succ.inj hlength

/-- **The loop applies operators**, and ends at the first entry at which it does not stay. -/
theorem Good.reduceWhile (exitStatus : CalcStatus) (hnever : arith.NeverFails) {stays : Char → Bool} {turns : Nat} :
    ∀ {cal : Calc V} {n : Nat} (res : V), Good cal β n → cal.currenState = .waitForOp →
      (∀ o ∈ cal.opStack.stackElements, stays o = true → IsOperator o) →
      cal.opStack.stackElements.length ≤ turns →
      ∃ res' cal' top ops, reduceWhile arith stays turns res cal exitStatus = .ok (res', cal', exitStatus) ∧
        Applied cal cal' β (top :: ops) ∧ stays top = false ∧ top :: ops <:+ cal.opStack.stackElements := by
  induction turns with
  | zero =>
      intro cal n res h hstate hstays hturns
      obtain ⟨top, ops, hops⟩ := h.stacked.eq_cons
      rw [hops] at hturns
      exact absurd hturns (Nat.not_succ_le_zero _)
  | succ turns ih =>
      intro cal n res h hstate hstays hturns
      obtain ⟨top, ops, hops⟩ := h.stacked.eq_cons
      by_cases htop : stays top = true
      · -- an operator: the stack is lower by one, as the turns are
        have ho := hstays top (hops ▸ List.mem_cons_self) htop
        obtain ⟨operand, cal₁, heq, happlied⟩ := h.calcOperation exitStatus hstate hnever hops ho
        obtain ⟨m, hgood⟩ := happlied.good
        obtain ⟨res', cal₂, top', ops', heq', happlied', htop', hsuffix⟩ :=
          ih operand hgood happlied.currenState
            (fun o ho => hstays o (by rw [hops]; exact List.mem_cons_of_mem top (happlied.elements ▸ ho)))
            (by rw [happlied.elements]; rw [hops] at hturns; exact Nat.le_of_succ_le_succ hturns)
        refine ⟨res', cal₂, top', ops', ?_, ?_, htop', ?_⟩
        · simp only [Calculator.reduceWhile, stackPeek_cons hops, htop, heq, heq', bind, Except.bind, if_true]
        · exact ⟨happlied'.good, happlied'.elements, happlied'.currenState,
            happlied'.mathExp.trans happlied.mathExp⟩
        · rw [hops]
          rw [happlied.elements] at hsuffix
          exact hsuffix.trans (List.suffix_cons top ops)
      · have hstop : stays top = false := Bool.eq_false_iff.mpr htop
        refine ⟨res, cal, top, ops, ?_, ⟨⟨n, h⟩, hops, hstate, rfl⟩, hstop, hops ▸ List.suffix_refl _⟩
        simp only [Calculator.reduceWhile, stackPeek_cons hops, hstop, bind, Except.bind, pure, Except.pure,
          Bool.false_eq_true, if_false]

end Workbench.Calculator
