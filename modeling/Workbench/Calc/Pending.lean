import Workbench.Calc.Turns
import Workbench.Lib.System

/-!
# `Calc.Pending` — what is pending while a text is read

The reading of a text with lists that have no bound: numbers that wait for an operator, and operators and brackets that
wait for their second operand or their closing bracket. A reading goes on, meets an operator that fails, meets a byte
from 128 on where an operator is expected, or is stuck.

## Main results
* `Step.balanced`, `Step.accepted_iff` — a step keeps the numbers and the operators balanced, and what is accepted;
* `readings_pending` — no more is pending than was read;
* `Reading.progress` — what a reading may do;
* `readings_stuck` — a text is in error where a reading of it is stuck.
-/

namespace Workbench.Calculator

open Bracketed

/-- What is expected, the text that is left, and the numbers and operators that are pending. -/
structure Reading (V : Type) where
  state : State
  rest : List Char
  nums : List V
  ops : List Char

variable {V : Type} {strtod : Strtod V} {arith : Arith V} {L L' : Reading V} {str s : List Char}
  {nums : List V} {ops β : List Char} {c o : Char} {n : Nat}

/-! ## Steps -/

/-- One step: a number or an opening bracket is read, an operator is pushed, the one on top of it is applied, or a
    bracket is closed, with what waits above it. -/
inductive Step (strtod : Strtod V) (arith : Arith V) : Reading V → Reading V → Prop
  | opening {o c : Char} {s : List Char} {nums : List V} {ops : List Char} : closing o = some c →
      Step strtod arith ⟨.waitForNum, o :: s, nums, ops⟩ ⟨.waitForNum, s, nums, o :: ops⟩
  | number {c : Char} {s : List Char} {nums : List V} {ops : List Char} : 0 < (strtod.scan (c :: s)).1 →
      Step strtod arith ⟨.waitForNum, c :: s, nums, ops⟩
        ⟨.waitForOp, (c :: s).drop (strtod.scan (c :: s)).1, (strtod.scan (c :: s)).2 :: nums, ops⟩
  | push {o top : Char} {s : List Char} {nums : List V} {ops : List Char} : IsOperator o → Pushes top o →
      Step strtod arith ⟨.waitForOp, o :: s, nums, top :: ops⟩ ⟨.waitForNum, s, nums, o :: top :: ops⟩
  | apply {o top : Char} {s : List Char} {num1 num2 v : V} {nums : List V} {ops : List Char} : IsOperator o →
      IsOperator top → ¬ Pushes top o → operatorFunc arith top num1 num2 = some v →
      Step strtod arith ⟨.waitForOp, o :: s, num2 :: num1 :: nums, top :: ops⟩ ⟨.waitForOp, o :: s, v :: nums, ops⟩
  | closing {o c : Char} {s : List Char} {v v' : V} {waiting : List (V × Char)} {nums : List V} {ops : List Char} :
      closing o = some c → (∀ w ∈ waiting, IsOperator w.2) → collapse (operatorFunc arith) waiting v = some v' →
      Step strtod arith
        ⟨.waitForOp, c :: s, v :: waiting.map Prod.fst ++ nums, waiting.map Prod.snd ++ o :: ops⟩
        ⟨.waitForOp, s, v' :: nums, ops⟩

/-- An operator that is due fails: the one on top, or one of those above the bracket that is closed. -/
inductive Fails (arith : Arith V) : Reading V → Prop
  | apply {o top : Char} {s : List Char} {num1 num2 : V} {nums : List V} {ops : List Char} : IsOperator o →
      IsOperator top → ¬ Pushes top o → operatorFunc arith top num1 num2 = none →
      Fails arith ⟨.waitForOp, o :: s, num2 :: num1 :: nums, top :: ops⟩
  | closing {o c : Char} {s : List Char} {v : V} {waiting : List (V × Char)} {nums : List V} {ops : List Char} :
      closing o = some c → (∀ w ∈ waiting, IsOperator w.2) → collapse (operatorFunc arith) waiting v = none →
      Fails arith ⟨.waitForOp, c :: s, v :: waiting.map Prod.fst ++ nums, waiting.map Prod.snd ++ o :: ops⟩

/-- No number where one is expected, a bracket that closes no open one of its kind, or a byte that is no token. -/
inductive Stuck (strtod : Strtod V) : Reading V → Prop
  | number {c : Char} {s : List Char} {nums : List V} {ops : List Char} : closing c = none →
      (strtod.scan (c :: s)).1 = 0 → Stuck strtod ⟨.waitForNum, c :: s, nums, ops⟩
  | closing {o b c : Char} {s : List Char} {v : V} {waiting : List (V × Char)} {nums : List V} {ops : List Char} :
      closing b = some c → (o = '#' ∨ ∃ d, closing o = some d ∧ d ≠ c) → (∀ w ∈ waiting, IsOperator w.2) →
      Stuck strtod ⟨.waitForOp, c :: s, v :: waiting.map Prod.fst ++ nums, waiting.map Prod.snd ++ o :: ops⟩
  | other {c : Char} {s : List Char} {nums : List V} {ops : List Char} : c ≠ '\x00' → c.toNat ≤ 127 →
      ¬ IsOperator c → (∀ o, closing o ≠ some c) → Stuck strtod ⟨.waitForOp, c :: s, nums, ops⟩

/-- There is text at each step. -/
theorem Step.rest (h : Step strtod arith L L') : ∃ c s, L.rest = c :: s := by
  cases h <;> exact ⟨_, _, rfl⟩

theorem Fails.rest (h : Fails arith L) : ∃ c s, L.rest = c :: s := by
  cases h <;> exact ⟨_, _, rfl⟩

/-- The readings of a text. -/
def readings (strtod : Strtod V) (arith : Arith V) (str : List Char) : System (Reading V) Unit where
  init L := L = ⟨.waitForNum, str, [], ['#']⟩
  step L _ L' := Step strtod arith L L'

/-! ## The brackets that are to come -/

theorem filterMap_operators {waiting : List (V × Char)} (hwaiting : ∀ w ∈ waiting, IsOperator w.2) :
    (waiting.map Prod.snd ++ ops).filterMap closing = ops.filterMap closing := by
  induction waiting with
  | nil => rfl
  | cons w waiting ih =>
      have hnone : closing w.2 = none := by
        cases hclosing : closing w.2 with
        | none => rfl
        | some d => exact absurd (hwaiting w List.mem_cons_self) (not_isOperator_of_closing hclosing).1
      show (w.2 :: (waiting.map Prod.snd ++ ops)).filterMap closing = _
      rw [List.filterMap_cons_none hnone]
      exact ih (fun w hw => hwaiting w (List.mem_cons_of_mem _ hw))

theorem filterMap_operator (ho : IsOperator o) : (o :: ops).filterMap closing = ops.filterMap closing := by
  have hwaiting : ∀ w ∈ [((), o)], IsOperator w.2 := fun w hw => List.mem_singleton.mp hw ▸ ho
  exact filterMap_operators hwaiting

/-- The brackets on the stack tell which ones are to come. -/
theorem Stacked.filterMap_closing (h : Stacked ops β n) : ops.filterMap closing = β := by
  induction h with
  | bottom => rfl
  | operator ho _ ih => rw [filterMap_operator ho, ih]
  | bracket hclosing _ ih => rw [List.filterMap_cons_some hclosing, ih]

/-! ## The invariant -/

/-- For each operator a number is pending. -/
def Reading.Balanced (L : Reading V) : Prop :=
  ∃ n, Stacked L.ops (L.ops.filterMap closing) n ∧ L.nums.length = L.state.pending n

/-- The rest of the text is accepted. -/
def Reading.Accepted (strtod : Strtod V) (L : Reading V) : Prop :=
  Accepts (lexicon strtod) L.state.expects (L.ops.filterMap closing) L.rest

/-- What waits is on top, down to the innermost bracket or to the bottom. -/
theorem Stacked.split (h : Stacked ops β n) : ∀ {nums : List V}, nums.length = n + 1 →
    ∃ (v : V) (waiting : List (V × Char)) (nums' : List V) (o : Char) (ops' : List Char) (m : Nat),
      nums = v :: waiting.map Prod.fst ++ nums' ∧ ops = waiting.map Prod.snd ++ o :: ops' ∧
      (∀ w ∈ waiting, IsOperator w.2) ∧ (o = '#' ∨ ∃ d, closing o = some d) ∧ Stacked (o :: ops') β m ∧
      nums'.length = m := by
  induction h with
  | bottom =>
      intro nums hlength
      obtain ⟨v, rfl⟩ := List.length_eq_one_iff.mp hlength
      exact ⟨v, [], [], '#', [], 0, rfl, rfl, fun w hw => absurd hw List.not_mem_nil, .inl rfl, .bottom, rfl⟩
  | operator ho _ ih =>
      intro nums hlength
      obtain ⟨v, nums, rfl⟩ := List.exists_cons_of_length_eq_add_one hlength
      obtain ⟨num1, waiting, nums', o', ops', m, rfl, rfl, hwaiting, hrest⟩ := ih (Nat.succ.inj hlength)
      refine ⟨v, (num1, _) :: waiting, nums', o', ops', m, rfl, rfl, ?_, hrest⟩
      intro w hw
      rcases List.mem_cons.mp hw with rfl | hw
      · exact ho
      · exact hwaiting w hw
  | bracket hclosing hstacked _ =>
      intro nums hlength
      obtain ⟨v, nums, rfl⟩ := List.exists_cons_of_length_eq_add_one hlength
      exact ⟨v, [], nums, _, _, _, rfl, rfl, fun w hw => absurd hw List.not_mem_nil, .inr ⟨_, hclosing⟩,
        .bracket hclosing hstacked, Nat.succ.inj hlength⟩

theorem Stacked.at_bottom (h : Stacked ('#' :: ops) β n) : ops = [] ∧ n = 0 := by
  cases h with
  | bottom => exact ⟨rfl, rfl⟩
  | operator ho _ => exact absurd ho (by decide)
  | bracket hclosing _ => cases hclosing

/-- Without brackets, everything waits. -/
theorem Stacked.split_end (h : Stacked ops β n) (hlength : nums.length = n + 1) (hβ : β = []) :
    ∃ (v : V) (waiting : List (V × Char)), nums = v :: waiting.map Prod.fst ∧ ops = waiting.map Prod.snd ++ ['#'] ∧
      ∀ w ∈ waiting, IsOperator w.2 := by
  obtain ⟨v, waiting, nums', o, ops', m, rfl, rfl, hwaiting, hbracket, hbelow, hlength'⟩ := h.split hlength
  rcases hbracket with rfl | ⟨d, hd⟩
  · obtain ⟨rfl, rfl⟩ := hbelow.at_bottom
    obtain rfl := List.length_eq_zero_iff.mp hlength'
    exact ⟨v, waiting, by rw [List.append_nil], rfl, hwaiting⟩
  · obtain ⟨β', rfl, -⟩ := hbelow.of_bracket hd
    cases hβ

/-- What waits is taken off, with as many numbers. -/
theorem Stacked.of_waiting {waiting : List (V × Char)} (hwaiting : ∀ w ∈ waiting, IsOperator w.2) :
    ∀ {n : Nat}, Stacked (waiting.map Prod.snd ++ ops) β n →
      ∃ m, n = waiting.length + m ∧ Stacked ops β m := by
  induction waiting with
  | nil => exact fun {n} h => ⟨n, (Nat.zero_add n).symm, h⟩
  | cons w waiting ih =>
      intro n h
      obtain ⟨m, rfl, hrest⟩ := Stacked.of_operator h (hwaiting w List.mem_cons_self)
      obtain ⟨m', rfl, hrest'⟩ := ih (fun w hw => hwaiting w (List.mem_cons_of_mem _ hw)) hrest
      exact ⟨m', by rw [List.length_cons]; omega, hrest'⟩

/-- **A step keeps the balance.** -/
theorem Step.balanced (h : Step strtod arith L L') (hL : L.Balanced) : L'.Balanced := by
  obtain ⟨n, hstacked, hlength⟩ := hL
  cases h with
  | opening hclosing =>
      refine ⟨n, ?_, hlength⟩
      show Stacked (_ :: _) _ n
      rw [List.filterMap_cons_some hclosing]
      exact .bracket hclosing hstacked
  | number hnumber =>
      refine ⟨n, hstacked, ?_⟩
      show (_ :: _ : List V).length = n + 1
      rw [List.length_cons]
      exact congrArg (· + 1) hlength
  | push ho hpushes =>
      refine ⟨n + 1, ?_, hlength⟩
      show Stacked (_ :: _) _ (n + 1)
      rw [filterMap_operator ho]
      exact .operator ho hstacked
  | apply ho htop hpushes hvalue =>
      obtain ⟨m, rfl, hrest⟩ := hstacked.of_operator htop
      rw [filterMap_operator htop] at hrest
      exact ⟨m, hrest, Nat.succ.inj hlength⟩
  | closing hclosing hwaiting hvalue =>
      obtain ⟨m, rfl, hrest⟩ := hstacked.of_waiting hwaiting
      obtain ⟨β', hβ, hrest'⟩ := hrest.of_bracket hclosing
      rw [← hrest'.filterMap_closing] at hrest'
      refine ⟨m, hrest', ?_⟩
      -- as many numbers are taken off as operators are applied
      have hlength' : _ = _ := hlength
      simp only [State.pending, List.cons_append, List.length_cons, List.length_append, List.length_map] at hlength' ⊢
      omega

/-- **A step keeps what is accepted.** -/
theorem Step.accepted_iff (h : Step strtod arith L L') (hL : L.Balanced) :
    L'.Accepted strtod ↔ L.Accepted strtod := by
  obtain ⟨n, hstacked, -⟩ := hL
  unfold Reading.Accepted
  cases h with
  | opening hclosing =>
      rw [List.filterMap_cons_some hclosing]
      exact (accepts_operand_opening hclosing).symm
  | number hnumber => exact (accepts_operand_of_number hnumber).symm
  | push ho hpushes =>
      rw [filterMap_operator ho]
      exact (accepts_operator_operator hstacked.closers ho).symm
  | apply ho htop hpushes hvalue => rw [filterMap_operator htop]
  | closing hclosing hwaiting hvalue =>
      rw [filterMap_operators hwaiting, List.filterMap_cons_some hclosing]
      refine Iff.trans ?_ (accepts_operator_other (not_isOperator_of_closing hclosing).2).symm
      constructor
      · exact fun haccepts => ⟨_, rfl, haccepts⟩
      · rintro ⟨β', heq, haccepts⟩
        obtain rfl := (List.cons.inj heq).2
        exact haccepts

theorem readings_balanced (h : (readings strtod arith str).Reachable System.Any L) : L.Balanced := by
  refine System.invariant ?_ ?_ h
  · rintro L rfl
    exact ⟨0, .bottom, rfl⟩
  · exact fun _ _ _ hL _ hstep => Step.balanced hstep hL

/-- **What is accepted** is accepted from the start: the text is in the language. -/
theorem readings_accepted (h : (readings strtod arith str).Reachable System.Any L) :
    L.Accepted strtod ↔ Language (lexicon strtod) str := by
  induction h with
  | init hinit =>
      obtain rfl := hinit
      exact accepts_iff_language
  | step hreach _ hstep ih => exact (Step.accepted_iff hstep (readings_balanced hreach)).trans ih

/-- **No more is pending than was read.** -/
theorem readings_pending (h : (readings strtod arith str).Reachable System.Any L) :
    L.rest <:+ str ∧ L.nums.length + L.rest.length ≤ str.length ∧ L.ops.length + L.rest.length ≤ str.length + 1 := by
  induction h with
  | init hinit =>
      obtain rfl := hinit
      exact ⟨List.suffix_refl _, Nat.le_of_eq (Nat.zero_add _), Nat.le_of_eq (Nat.add_comm _ _)⟩
  | step _ _ hstep ih =>
      obtain ⟨hsuffix, hnums, hops⟩ := ih
      cases hstep with
      | opening _ =>
          simp only [List.length_cons] at hnums hops ⊢
          exact ⟨(List.suffix_cons _ _).trans hsuffix, by omega, by omega⟩
      | number hnumber =>
          simp only [List.length_drop, List.length_cons] at hnums hops ⊢
          exact ⟨(List.drop_suffix _ _).trans hsuffix, by omega, by omega⟩
      | push _ _ =>
          simp only [List.length_cons] at hnums hops ⊢
          exact ⟨(List.suffix_cons _ _).trans hsuffix, by omega, by omega⟩
      | apply _ _ _ _ =>
          simp only [List.length_cons] at hnums hops ⊢
          exact ⟨hsuffix, by omega, by omega⟩
      | closing _ _ _ =>
          simp only [List.cons_append, List.length_cons, List.length_append, List.length_map] at hnums hops ⊢
          exact ⟨(List.suffix_cons _ _).trans hsuffix, by omega, by omega⟩

/-! ## What a reading may do -/

/-- **A reading that is stuck is not accepted.** -/
theorem Stuck.not_accepted (h : Stuck strtod L) (hL : L.Balanced) : ¬ L.Accepted strtod := by
  obtain ⟨n, hstacked, -⟩ := hL
  unfold Reading.Accepted
  intro haccepts
  cases h with
  | number hclosing hzero =>
      have hpos : 0 < (strtod.scan _).1 := ((accepts_operand_number hclosing).mp haccepts).1
      exact absurd hzero (Nat.ne_of_gt hpos)
  | closing hclosing hbracket hwaiting =>
      rw [filterMap_operators hwaiting] at haccepts
      obtain ⟨β', heq, -⟩ := (accepts_operator_other (not_isOperator_of_closing hclosing).2).mp haccepts
      rcases hbracket with rfl | ⟨d, hd, hne⟩
      · -- no bracket is below the bottom
        obtain ⟨m, -, hrest⟩ := hstacked.of_waiting hwaiting
        have hnil := hrest.of_bottom
        rw [filterMap_operators hwaiting, heq] at hnil
        cases hnil
      · rw [List.filterMap_cons_some hd] at heq
        exact hne (List.cons.inj heq).1
  | other hnul hlt hoperator hclosing =>
      obtain ⟨β', heq, -⟩ := (accepts_operator_other hoperator).mp haccepts
      have hclosers : Closers (lexicon strtod) _ := hstacked.closers
      rw [heq] at hclosers
      obtain ⟨o, hsome⟩ := hclosers _ List.mem_cons_self
      exact hclosing o hsome

/-- **The text is in error** where a reading of it is stuck. -/
theorem readings_stuck (hreach : (readings strtod arith str).Reachable System.Any L) (h : Stuck strtod L) :
    ¬ Language (lexicon strtod) str := by
  rw [← readings_accepted hreach]
  exact h.not_accepted (readings_balanced hreach)

theorem Stacked.progress_operator (strtod : Strtod V) (arith : Arith V) (s : List Char) (h : Stacked ops β n)
    (hlength : nums.length = n + 1) (ho : IsOperator c) :
    (∃ L', Step strtod arith ⟨.waitForOp, c :: s, nums, ops⟩ L') ∨ Fails arith ⟨.waitForOp, c :: s, nums, ops⟩ := by
  obtain ⟨top, ops, rfl⟩ := h.eq_cons
  by_cases hpushes : Pushes top c
  · exact .inl ⟨_, .push ho hpushes⟩
  · -- the one on top is due, and two numbers are pending
    have htop := isOperator_top h ho (not_or.mp hpushes).2
    obtain ⟨m, rfl, -⟩ := h.of_operator htop
    obtain ⟨num2, nums, rfl⟩ := List.exists_cons_of_length_eq_add_one hlength
    obtain ⟨num1, nums, rfl⟩ := List.exists_cons_of_length_eq_add_one (Nat.succ.inj hlength)
    cases hvalue : operatorFunc arith top num1 num2 with
    | none => exact .inr (.apply ho htop hpushes hvalue)
    | some v => exact .inl ⟨_, .apply ho htop hpushes hvalue⟩

theorem Stacked.progress_closing (strtod : Strtod V) (arith : Arith V) (s : List Char) (h : Stacked ops β n)
    (hlength : nums.length = n + 1) (hclosing : closing o = some c) :
    (∃ L', Step strtod arith ⟨.waitForOp, c :: s, nums, ops⟩ L') ∨ Fails arith ⟨.waitForOp, c :: s, nums, ops⟩ ∨
      Stuck strtod ⟨.waitForOp, c :: s, nums, ops⟩ := by
  obtain ⟨v, waiting, nums, b, ops, m, rfl, rfl, hwaiting, hbracket, -⟩ := h.split hlength
  rcases hbracket with rfl | ⟨d, hd⟩
  · exact .inr (.inr (.closing hclosing (.inl rfl) hwaiting))
  · by_cases hmatch : d = c
    · subst hmatch
      cases hvalue : collapse (operatorFunc arith) waiting v with
      | none => exact .inr (.inl (.closing hd hwaiting hvalue))
      | some v' => exact .inl ⟨_, .closing hd hwaiting hvalue⟩
    · exact .inr (.inr (.closing hclosing (.inr ⟨d, hd, hmatch⟩) hwaiting))

/-- Operators that do not fail give a value. -/
theorem Arith.NeverFails.not_fails (hnever : arith.NeverFails) : ¬ Fails arith L := by
  have hsome : ∀ {o : Char} {a b : V}, IsOperator o → ∃ v, operatorFunc arith o a b = some v :=
    fun ho => Option.isSome_iff_exists.mp (hnever.isSome ho (funcLut_eq arith ho) _ _)
  intro h
  cases h with
  | @apply o top s num1 num2 nums ops _ htop _ hnone =>
      obtain ⟨v, hv⟩ := hsome (a := num1) (b := num2) htop
      rw [hv] at hnone
      cases hnone
  | @closing o c s v waiting nums ops _ hwaiting hnone =>
      -- by the operators that wait
      induction waiting generalizing v with
      | nil => cases hnone
      | cons w waiting ih =>
          obtain ⟨x, hx⟩ := hsome (a := w.1) (b := v) (hwaiting w List.mem_cons_self)
          simp only [collapse, hx, Option.bind_some] at hnone
          exact ih (fun w hw => hwaiting w (List.mem_cons_of_mem _ hw)) hnone

/-- **What a reading may do** when there is text. -/
theorem Reading.progress (strtod : Strtod V) (arith : Arith V) (hL : L.Balanced) (hrest : L.rest = c :: s)
    (hc : c ≠ '\x00') :
    (∃ L', Step strtod arith L L') ∨ Fails arith L ∨ Stuck strtod L ∨ (L.state = .waitForOp ∧ 128 ≤ c.toNat) := by
  obtain ⟨state, rest, nums, ops⟩ := L
  obtain rfl : rest = c :: s := hrest
  obtain ⟨n, hstacked, hlength⟩ := hL
  cases state with
  | waitForNum =>
      cases hclosing : closing c with
      | some b => exact .inl ⟨_, .opening hclosing⟩
      | none =>
          rcases Nat.eq_zero_or_pos (strtod.scan (c :: s)).1 with hzero | hpos
          · exact .inr (.inr (.inl (.number hclosing hzero)))
          · exact .inl ⟨_, .number hpos⟩
  | waitForOp =>
      rcases Nat.lt_or_ge 127 c.toNat with hhigh | hlow
      · exact .inr (.inr (.inr ⟨rfl, hhigh⟩))
      · rcases mainFuncLut_cases hlow hc with ⟨ho, -⟩ | ⟨b, hclosing, -⟩ | ⟨ho, hclosing, -⟩
        · rcases hstacked.progress_operator strtod arith s hlength ho with hstep | hfails
          · exact .inl hstep
          · exact .inr (.inl hfails)
        · rcases hstacked.progress_closing strtod arith s hlength hclosing with hstep | hfails | hstuck
          · exact .inl hstep
          · exact .inr (.inl hfails)
          · exact .inr (.inr (.inl hstuck))
        · exact .inr (.inr (.inl (.other hc hlow ho hclosing)))

end Workbench.Calculator
