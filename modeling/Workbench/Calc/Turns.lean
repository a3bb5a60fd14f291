import Workbench.Calc.Accepts
import Workbench.Lib.Precedence

/-!
# `Calc.Turns` — the turns of the loop, with the values

The operators may fail here. Operators that wait are kept as pairs with their first operand; a turn reads a number or a
bracket, pushes an operator, or applies operators. A failure ends the call, sooner or later.

## Main results
* `reduceWhile_waiting` — the operators that wait are applied, also after one has failed;
* `number_turn`, `opening_turn`, `push_turn`, `apply_turn`, `closing_turn` — what is read;
* `calcLoop_end` — the result at the end of the text.
-/

namespace Workbench.Calculator

open Bracketed

variable {V : Type} {strtod : Strtod V} {arith : Arith V} {cal : Calc V} {str s : List Char} {c o top : Char}

/-! ## The reference -/

/-- `^` is above `*` and `/`, and these are above `+` and `-`; only `^` associates to the right. -/
def calcPrecedence : Precedence Char where
  priority
    | '^' => 3
    | '*' => 2
    | '/' => 2
    | _ => 1
  rightAssoc p := p = 3

def operatorFunc (arith : Arith V) : Char → V → V → Option V
  | '+' => arith.plus
  | '-' => arith.minus
  | '*' => arith.multiply
  | '/' => arith.divide
  | '^' => arith.power
  | _ => fun _ _ => none

theorem funcLut_eq (arith : Arith V) (ho : IsOperator o) : funcLut arith o = .ok (operatorFunc arith o) := by
  simp only [IsOperator, List.mem_cons, List.not_mem_nil, or_false] at ho
  rcases ho with rfl | rfl | rfl | rfl | rfl <;> rfl

/-! ## When an operator is pushed -/

/-- The condition of `CorrectOperator`. -/
def Pushes (top operator : Char) : Prop :=
  twoPowerInRow top operator = true ∨ getOperatorPriority operator > getOperatorPriority top

instance (top operator : Char) : Decidable (Pushes top operator) :=
  inferInstanceAs (Decidable (twoPowerInRow top operator = true ∨
    getOperatorPriority operator > getOperatorPriority top))

/-- Any operator of the level or above is pushed on it. -/
def Admits (p : Nat) (top : Char) : Prop := ∀ o, IsOperator o → p ≤ calcPrecedence.priority o → Pushes top o

theorem Admits.mono {p q : Nat} (h : Admits p top) (hle : p ≤ q) : Admits q top :=
  fun o ho hq => h o ho (Nat.le_trans hle hq)

theorem pushes_iff (ho : IsOperator o) (htop : IsOperator top) :
    Pushes top o ↔ calcPrecedence.priority top < calcPrecedence.priority o ∨ (o = '^' ∧ top = '^') := by
  simp only [IsOperator, List.mem_cons, List.not_mem_nil, or_false] at ho htop
  rcases ho with rfl | rfl | rfl | rfl | rfl <;> rcases htop with rfl | rfl | rfl | rfl | rfl <;> decide

theorem eq_power_of_rightAssoc (ho : IsOperator o) :
    calcPrecedence.rightAssoc (calcPrecedence.priority o) ↔ o = '^' := by
  simp only [IsOperator, List.mem_cons, List.not_mem_nil, or_false] at ho
  rcases ho with rfl | rfl | rfl | rfl | rfl <;> simp [calcPrecedence]

/-- The bottom and the brackets keep no operator off. -/
theorem admits_bracket (h : top = '#' ∨ ∃ c, closing top = some c) : Admits 0 top := by
  have hzero : getOperatorPriority top = 0 := by
    rcases h with rfl | ⟨c, hclosing⟩
    · rfl
    · rcases opening_of_closing hclosing with rfl | rfl | rfl <;> rfl
  intro o ho _
  refine .inr ?_
  rw [hzero]
  simp only [IsOperator, List.mem_cons, List.not_mem_nil, or_false] at ho
  rcases ho with rfl | rfl | rfl | rfl | rfl <;> decide

theorem admits_left (htop : IsOperator top) : Admits (calcPrecedence.priority top + 1) top := by
  intro o ho hle
  exact (pushes_iff ho htop).mpr (.inl hle)

theorem admits_right (htop : IsOperator top) (hright : calcPrecedence.rightAssoc (calcPrecedence.priority top)) :
    Admits (calcPrecedence.priority top) top := by
  intro o ho hle
  rw [pushes_iff ho htop]
  rcases Nat.lt_or_eq_of_le hle with hlt | heq
  · exact .inl hlt
  · exact .inr ⟨(eq_power_of_rightAssoc ho).mp (heq ▸ hright), (eq_power_of_rightAssoc htop).mp hright⟩

/-! ## Operators that wait -/

/-- Where the machine is: the text that is left, what the stacks hold and how many brackets are open. -/
structure At (str : List Char) (cal : Calc V) (state : State) (s : List Char) (nums : List V) (ops : List Char)
    (counter : Int) : Prop where
  state : cal.currenState = state
  drop : str.drop cal.mathExp = s
  nums : cal.numStack.stackElements = nums
  ops : cal.opStack.stackElements = ops
  counter : cal.paranthesesCounter = counter

variable [Zero V] {nums : List V} {ops : List Char} {waiting : List (V × Char)} {counter : Int} {v : V}

/-- The exit status after operators: `MATH_ERROR` once one has failed. -/
def statusAfter (result : Option V) (exitStatus : CalcStatus) : CalcStatus :=
  if result.isSome then exitStatus else .mathError

/-- **An operator on top is applied**, or it fails; the rest of the machine is as before. -/
theorem calcOperation_at (arith : Arith V) {state : State} {num1 num2 : V}
    (h : At str cal state s (num2 :: num1 :: nums) (o :: ops) counter) (ho : IsOperator o) (exitStatus : CalcStatus) :
    ∃ v cal', calcOperation arith cal exitStatus =
        .ok (v, cal', statusAfter (operatorFunc arith o num1 num2) exitStatus) ∧
      At str cal' state s (v :: nums) ops counter ∧ cal'.mathExp = cal.mathExp ∧
      ∀ w, operatorFunc arith o num1 num2 = some w → v = w := by
  obtain ⟨numStack, opStack, heq, hnums, hops⟩ := calcOperation_eq exitStatus h.nums h.ops (funcLut_eq arith ho)
  have hstatus : (applyFunc (operatorFunc arith o) num1 num2 exitStatus).2 =
      statusAfter (operatorFunc arith o num1 num2) exitStatus := by
    unfold applyFunc statusAfter
    cases operatorFunc arith o num1 num2 <;> rfl
  rw [hstatus] at heq
  refine ⟨_, _, heq, ⟨h.state, h.drop, hnums, hops, h.counter⟩, rfl, ?_⟩
  intro w hw
  unfold applyFunc
  rw [hw]

/-- **The loop applies what waits**, and goes on after an operator has failed. -/
theorem reduceWhile_waiting (arith : Arith V) {stays : Char → Bool} {state : State}
    (hstays : ∀ o, IsOperator o → stays o = true) (hstop : stays top = false) {turns : Nat} :
    ∀ {waiting : List (V × Char)} {cal : Calc V} {v : V} (exitStatus : CalcStatus),
      At str cal state s (v :: waiting.map Prod.fst ++ nums) (waiting.map Prod.snd ++ top :: ops) counter →
      (∀ w ∈ waiting, IsOperator w.2) → waiting.length < turns →
      ∃ v' cal', reduceWhile arith stays turns v cal exitStatus =
          .ok (v', cal', statusAfter (collapse (operatorFunc arith) waiting v) exitStatus) ∧
        At str cal' state s (v' :: nums) (top :: ops) counter ∧ cal'.mathExp = cal.mathExp ∧
        ∀ w, collapse (operatorFunc arith) waiting v = some w → v' = w := by
  induction turns with
  | zero => exact fun _ _ _ hturns => absurd hturns (Nat.not_lt_zero _)
  | succ turns ih =>
      intro waiting cal v exitStatus h hwaiting hturns
      cases waiting with
      | nil =>
          refine ⟨v, cal, ?_, h, rfl, fun w hw => Option.some.inj hw⟩
          simp only [reduceWhile, stackPeek_cons h.ops, hstop, bind, Except.bind, pure, Except.pure,
            Bool.false_eq_true, if_false]
          rfl
      | cons w waiting =>
          have ho := hwaiting w List.mem_cons_self
          obtain ⟨v₁, cal₁, heq, hat, hexp, hvalue⟩ := calcOperation_at arith h ho exitStatus
          obtain ⟨v', cal', heq', hat', hexp', hvalue'⟩ :=
            ih (statusAfter (operatorFunc arith w.2 w.1 v) exitStatus) hat
              (fun w hw => hwaiting w (List.mem_cons_of_mem _ hw)) (Nat.lt_of_succ_lt_succ hturns)
          refine ⟨v', cal', ?_, hat', hexp'.trans hexp, ?_⟩
          · have hpeek : stackPeek cal.opStack = .ok w.2 := stackPeek_cons h.ops
            simp only [reduceWhile, hpeek, hstays w.2 ho, heq, heq', bind, Except.bind, if_true]
            -- once an operator has failed, the status stays
            simp only [collapse]
            cases hfunc : operatorFunc arith w.2 w.1 v with
            | none =>
                simp only [statusAfter, Option.isSome_none, Option.bind_none, Bool.false_eq_true, if_false, ite_self]
            | some x =>
                obtain rfl := hvalue x hfunc
                rfl
          · intro x hx
            simp only [collapse] at hx
            cases hfunc : operatorFunc arith w.2 w.1 v with
            | none =>
                rw [hfunc] at hx
                cases hx
            | some y =>
                obtain rfl := hvalue y hfunc
                rw [hfunc] at hx
                exact hvalue' x hx

/-! ## The turns -/

/-- The loop stops at a full stack, stops at an operator that failed, or comes to a state with `after`. -/
def Leads (strtod : Strtod V) (arith : Arith V) (str : List Char) (fuel : Nat) (cal : Calc V) (exitStatus : CalcStatus)
    (result : Option V) (after : Calc V → Prop) : Prop :=
  calcLoop strtod arith str fuel cal exitStatus = some (.error .full) ∨
    result = none ∧ calcLoop strtod arith str fuel cal exitStatus = some (.ok (0, .mathError)) ∨
    ∃ fuel' cal', after cal' ∧ potential str cal' < fuel' ∧
      calcLoop strtod arith str fuel cal exitStatus = calcLoop strtod arith str fuel' cal' .success

variable {fuel : Nat} {exitStatus : CalcStatus} {result result' : Option V} {after after' : Calc V → Prop}

/-- One after the other, where a failure of the first is a failure of the whole. -/
theorem Leads.trans (h : Leads strtod arith str fuel cal exitStatus result after)
    (hfails : result = none → result' = none)
    (hafter : ∀ fuel' cal', after cal' → potential str cal' < fuel' →
      Leads strtod arith str fuel' cal' .success result' after') :
    Leads strtod arith str fuel cal exitStatus result' after' := by
  rcases h with hfull | ⟨hnone, hmath⟩ | ⟨fuel', cal', hcal, hfuel, heq⟩
  · exact .inl hfull
  · exact .inr (.inl ⟨hfails hnone, hmath⟩)
  · have hleads := hafter fuel' cal' hcal hfuel
    unfold Leads at hleads ⊢
    rw [heq]
    exact hleads

/-- The bytes are from 1 to 127, so a byte that is read is not the `NUL`. -/
theorem SevenBit.ne_nul (hseven : SevenBit str) {position : Nat} (hreads : Reads str position c s) : c ≠ '\x00' := by
  obtain ⟨hpos, -⟩ := hseven c hreads.mem
  rintro rfl
  exact absurd hpos (by decide)

/-- A turn that ends the program. -/
theorem calcLoop_error {abort : Abort} (hc : c ≠ '\x00') (hreads : Reads str cal.mathExp c s)
    (hturn : stateLut strtod arith str cal exitStatus = .error abort) :
    calcLoop strtod arith str (fuel + 1) cal exitStatus = some (.error abort) := by
  unfold calcLoop
  rw [hreads.charAt, if_pos hc, hturn]

/-- A turn that fails ends the loop. -/
theorem calcLoop_fails {cal' : Calc V} {exitStatus' : CalcStatus} (hc : c ≠ '\x00')
    (hreads : Reads str cal.mathExp c s) (hturn : stateLut strtod arith str cal exitStatus = .ok (v, cal', exitStatus'))
    (hfails : exitStatus' ≠ .success) :
    calcLoop strtod arith str (fuel + 1) cal exitStatus = some (.ok (0, exitStatus')) := by
  unfold calcLoop
  rw [hreads.charAt, if_pos hc, hturn]
  exact if_pos hfails

/-- Any other turn goes on. -/
theorem calcLoop_goes_on {cal' : Calc V} (hc : c ≠ '\x00') (hreads : Reads str cal.mathExp c s)
    (hturn : stateLut strtod arith str cal exitStatus = .ok (v, cal', .success)) :
    calcLoop strtod arith str (fuel + 1) cal exitStatus = calcLoop strtod arith str fuel cal' .success := by
  conv => lhs; unfold calcLoop
  rw [hreads.charAt, if_pos hc, hturn]
  exact if_neg (not_not.mpr rfl)

omit [Zero V] in
theorem At.reads {state : State} (h : At str cal state (c :: s) nums ops counter) : Reads str cal.mathExp c s := by
  rcases reads_or_end str cal.mathExp with ⟨hnil, -⟩ | ⟨c', s', hreads⟩
  · rw [h.drop] at hnil
    cases hnil
  · have heq := hreads.drop
    rw [h.drop] at heq
    obtain ⟨rfl, rfl⟩ := List.cons.inj heq
    exact hreads

/-! ## What a turn comes to -/

/-- The turn goes on, with something taken off the potential. -/
def GoesOn (strtod : Strtod V) (arith : Arith V) (str : List Char) (cal : Calc V) (exitStatus : CalcStatus)
    (after : Calc V → Prop) : Prop :=
  ∃ v cal', stateLut strtod arith str cal exitStatus = .ok (v, cal', .success) ∧
    potential str cal' < potential str cal ∧ after cal'

/-- The turn finds the stack full that it pushes on, or goes on. -/
def PushTurn {α : Type} (strtod : Strtod V) (arith : Arith V) (str : List Char) (cal : Calc V)
    (exitStatus : CalcStatus) (stack : Stack α) (after : Calc V → Prop) : Prop :=
  stateLut strtod arith str cal exitStatus = .error .full ∧ stack.stackCapacity = stack.stackElements.length ∨
    GoesOn strtod arith str cal exitStatus after

/-- The turn applies operators: one of them fails, or it goes on with the value. -/
def ApplyTurn (strtod : Strtod V) (arith : Arith V) (str : List Char) (cal : Calc V) (exitStatus : CalcStatus)
    (result : Option V) (after : V → Calc V → Prop) : Prop :=
  result = none ∧ (∃ v cal', stateLut strtod arith str cal exitStatus = .ok (v, cal', .mathError)) ∨
    ∃ w, result = some w ∧ GoesOn strtod arith str cal exitStatus (after w)

theorem GoesOn.leads (hc : c ≠ '\x00') (hreads : Reads str cal.mathExp c s)
    (h : GoesOn strtod arith str cal exitStatus after) (hfuel : potential str cal < fuel) :
    Leads strtod arith str fuel cal exitStatus result after := by
  obtain ⟨fuel, rfl⟩ : ∃ n, fuel = n + 1 := ⟨fuel - 1, by omega⟩
  obtain ⟨v, cal', hturn, hpotential, hafter⟩ := h
  exact .inr (.inr ⟨fuel, cal', hafter, by omega, calcLoop_goes_on hc hreads hturn⟩)

theorem PushTurn.leads {α : Type} {stack : Stack α} (hc : c ≠ '\x00') (hreads : Reads str cal.mathExp c s)
    (h : PushTurn strtod arith str cal exitStatus stack after) (hfuel : potential str cal < fuel) :
    Leads strtod arith str fuel cal exitStatus result after := by
  rcases h with ⟨hturn, -⟩ | hgoes
  · obtain ⟨fuel, rfl⟩ : ∃ n, fuel = n + 1 := ⟨fuel - 1, by omega⟩
    exact .inl (calcLoop_error hc hreads hturn)
  · exact hgoes.leads hc hreads hfuel

theorem ApplyTurn.leads {after : V → Calc V → Prop} (hc : c ≠ '\x00') (hreads : Reads str cal.mathExp c s)
    (h : ApplyTurn strtod arith str cal exitStatus result after) (hfuel : potential str cal < fuel) :
    Leads strtod arith str fuel cal exitStatus result (fun cal' => ∃ v, result = some v ∧ after v cal') := by
  rcases h with ⟨hnone, v, cal', hturn⟩ | ⟨w, hsome, v, cal', hturn, hpotential, hafter⟩
  · obtain ⟨fuel, rfl⟩ : ∃ n, fuel = n + 1 := ⟨fuel - 1, by omega⟩
    have hne : CalcStatus.mathError ≠ .success := by decide
    exact .inr (.inl ⟨hnone, calcLoop_fails hc hreads hturn hne⟩)
  · have hgoes : GoesOn strtod arith str cal exitStatus (fun cal' => ∃ v, result = some v ∧ after v cal') :=
      ⟨v, cal', hturn, hpotential, w, hsome, hafter⟩
    exact hgoes.leads hc hreads hfuel

theorem ApplyTurn.goes_on {after : V → Calc V → Prop} (h : ApplyTurn strtod arith str cal exitStatus result after)
    (hvalue : result = some v) : GoesOn strtod arith str cal exitStatus (after v) := by
  rcases h with ⟨hnone, -⟩ | ⟨w, hsome, hgoes⟩
  · rw [hvalue] at hnone
    cases hnone
  · obtain rfl := Option.some.inj (hvalue.symm.trans hsome)
    exact hgoes

theorem ApplyTurn.fails {after : V → Calc V → Prop} (h : ApplyTurn strtod arith str cal exitStatus result after)
    (hnone : result = none) : ∃ v cal', stateLut strtod arith str cal exitStatus = .ok (v, cal', .mathError) := by
  rcases h with ⟨-, hturn⟩ | ⟨w, hsome, -⟩
  · exact hturn
  · rw [hnone] at hsome
    cases hsome

/-! ## The turns before a phrase -/

/-- **A number is read.** -/
theorem number_turn (arith : Arith V) (exitStatus : CalcStatus) (h : At str cal .waitForNum (c :: s) nums ops counter)
    (hc : c ≠ '\x00') (hnumber : 0 < (strtod.scan (c :: s)).1) :
    PushTurn strtod arith str cal exitStatus cal.numStack
      (At str · .waitForOp ((c :: s).drop (strtod.scan (c :: s)).1) ((strtod.scan (c :: s)).2 :: nums) ops
        counter) := by
  -- no bracket is a number
  have hclosing : closing c = none := by
    cases hclosing : closing c with
    | none => rfl
    | some b =>
        have hzero : (strtod.scan (c :: s)).1 = 0 := (lexicon strtod).number_opening s hclosing
        rw [hzero] at hnumber
        exact absurd hnumber (Nat.lt_irrefl 0)
  have hreads := h.reads
  have hlt := hreads.lt
  have hne : ¬ (cal.mathExp + (strtod.scan (c :: s)).1 = cal.mathExp ∨ charAt str cal.mathExp = '\x00') := by
    rw [hreads.charAt]
    rintro (heq | heq)
    · omega
    · exact hc heq
  have hbracket : ¬ ('\x00' = '(' ∨ '\x00' = '[' ∨ '\x00' = '{') := by decide
  have hrest : str.drop (cal.mathExp + (strtod.scan (c :: s)).1) = (c :: s).drop (strtod.scan (c :: s)).1 := by
    rw [← List.drop_drop, hreads.drop]
  have hstate : stateLut strtod arith str cal exitStatus = waitForNum strtod str cal := by
    unfold stateLut
    rw [h.state]
  unfold waitForNum at hstate
  simp only [getNum_number hreads hclosing, if_neg hne, if_neg hbracket] at hstate
  rcases stackPush_cases cal.numStack (strtod.scan (c :: s)).2 with hfull | ⟨numStack, hpush, helements⟩
  · rw [hfull] at hstate
    exact .inl ⟨hstate, stackPush_full.mp hfull⟩
  · rw [hpush] at hstate
    refine .inr ⟨_, _, hstate, ?_, rfl, hrest, ?_, h.ops, h.counter⟩
    · unfold potential
      show 2 * (str.length - (cal.mathExp + (strtod.scan (c :: s)).1)) + cal.opStack.stackElements.length < _
      omega
    · show numStack.stackElements = _
      rw [helements, h.nums]

/-- A number takes a byte. -/
theorem number_leads (result : Option V) (hseven : SevenBit str) (h : At str cal .waitForNum s nums ops counter)
    (hnumber : 0 < (strtod.scan s).1) (hfuel : potential str cal < fuel) :
    Leads strtod arith str fuel cal exitStatus result
      (At str · .waitForOp (s.drop (strtod.scan s).1) ((strtod.scan s).2 :: nums) ops counter) := by
  cases s with
  | nil => exact absurd (strtod.scan_le []) (Nat.not_le_of_lt hnumber)
  | cons c s =>
      have hc := hseven.ne_nul h.reads
      exact (number_turn arith exitStatus h hc hnumber).leads hc h.reads hfuel

/-- **An opening bracket is read.** -/
theorem opening_turn (strtod : Strtod V) (arith : Arith V) (exitStatus : CalcStatus)
    (h : At str cal .waitForNum (o :: s) nums ops counter) (hclosing : closing o = some c) :
    PushTurn strtod arith str cal exitStatus cal.opStack (At str · .waitForNum s nums (o :: ops) (counter + 1)) := by
  have hreads := h.reads
  have hlt := hreads.lt
  have hopening := opening_of_closing hclosing
  have hne : ¬ (cal.mathExp + 1 = cal.mathExp ∨ charAt str cal.mathExp = '\x00') := by
    rw [hreads.charAt]
    rintro (heq | rfl)
    · omega
    · exact absurd hopening (by decide)
  have hstate : stateLut strtod arith str cal exitStatus = waitForNum strtod str cal := by
    unfold stateLut
    rw [h.state]
  unfold waitForNum at hstate
  simp only [getNum_opening hreads hclosing, if_neg hne, if_pos hopening] at hstate
  rcases stackPush_cases cal.opStack o with hfull | ⟨opStack, hpush, helements⟩
  · rw [hfull] at hstate
    exact .inl ⟨hstate, stackPush_full.mp hfull⟩
  · rw [hpush] at hstate
    refine .inr ⟨_, _, hstate, ?_, h.state, hreads.next, h.nums, ?_, ?_⟩
    · unfold potential
      rw [helements, List.length_cons]
      show 2 * (str.length - (cal.mathExp + 1)) + _ < _
      omega
    · show opStack.stackElements = _
      rw [helements, h.ops]
    · show cal.paranthesesCounter + 1 = _
      rw [h.counter]

theorem opening_leads (result : Option V) (hseven : SevenBit str) (h : At str cal .waitForNum (o :: s) nums ops counter)
    (hclosing : closing o = some c) (hfuel : potential str cal < fuel) :
    Leads strtod arith str fuel cal exitStatus result (At str · .waitForNum s nums (o :: ops) (counter + 1)) :=
  (opening_turn strtod arith exitStatus h hclosing).leads (hseven.ne_nul h.reads) h.reads hfuel

/-! ## The turns after a phrase -/

/-- What `WaitForOp` makes of the entry that it calls. -/
theorem stateLut_waitForOp (strtod : Strtod V) {func : MainFunc} {cal' : Calc V} {exitStatus' : CalcStatus}
    (hstate : cal.currenState = .waitForOp) (hlut : mainFuncLut (charAt str cal.mathExp) = .ok func)
    (hcall : func.call arith str { cal with mathExp := cal.mathExp + 1 } exitStatus = .ok (v, cal', exitStatus')) :
    stateLut strtod arith str cal exitStatus = .ok (if exitStatus' ≠ .success then 0 else v, cal', exitStatus') := by
  unfold stateLut
  rw [hstate]
  show waitForOp arith str cal exitStatus = _
  rw [waitForOp_eq hlut]
  simp only [hcall, bind, Except.bind]
  split <;> rfl

theorem mainFuncLut_operator (ho : IsOperator o) : mainFuncLut o = .ok .correctOperator := by
  simp only [IsOperator, List.mem_cons, List.not_mem_nil, or_false] at ho
  rcases ho with rfl | rfl | rfl | rfl | rfl <;> rfl

/-- **An operator is pushed.** -/
theorem push_turn (strtod : Strtod V) (arith : Arith V) (h : At str cal .waitForOp (o :: s) nums (top :: ops) counter)
    (ho : IsOperator o) (hpushes : Pushes top o) :
    PushTurn strtod arith str cal .success cal.opStack (At str · .waitForNum s nums (o :: top :: ops) counter) := by
  have hreads := h.reads
  have hlt := hreads.lt
  have hlut : mainFuncLut (charAt str cal.mathExp) = .ok .correctOperator := by
    rw [hreads.charAt]
    exact mainFuncLut_operator ho
  have hcall : MainFunc.correctOperator.call arith str { cal with mathExp := cal.mathExp + 1 } .success = (do
      let opStack ← stackPush cal.opStack o
      return (0, { cal with mathExp := cal.mathExp + 1, opStack, currenState := .waitForNum }, .success)) := by
    show correctOperator arith str _ _ = _
    unfold correctOperator
    unfold Pushes at hpushes
    simp only [Nat.add_sub_cancel, hreads.charAt, stackPeek_cons h.ops, bind, Except.bind, if_pos hpushes]
  rcases stackPush_cases cal.opStack o with hfull | ⟨opStack, hpush, helements⟩
  · refine .inl ⟨?_, stackPush_full.mp hfull⟩
    unfold stateLut
    rw [h.state]
    show waitForOp arith str cal .success = _
    rw [waitForOp_eq hlut]
    simp only [hcall, hfull, bind, Except.bind]
  · simp only [hpush, bind, Except.bind, pure, Except.pure] at hcall
    refine .inr ⟨_, _, stateLut_waitForOp strtod h.state hlut hcall, ?_, rfl, hreads.next, h.nums, ?_, h.counter⟩
    · unfold potential
      show 2 * (str.length - (cal.mathExp + 1)) + opStack.stackElements.length < _
      rw [helements, List.length_cons]
      omega
    · show opStack.stackElements = _
      rw [helements, h.ops]

theorem push_leads (result : Option V) (hseven : SevenBit str)
    (h : At str cal .waitForOp (o :: s) nums (top :: ops) counter) (ho : IsOperator o)
    (hpushes : Pushes top o) (hfuel : potential str cal < fuel) :
    Leads strtod arith str fuel cal .success result (At str · .waitForNum s nums (o :: top :: ops) counter) :=
  (push_turn strtod arith h ho hpushes).leads (hseven.ne_nul h.reads) h.reads hfuel

/-- **The operator on top is applied** before another one, which is read again. -/
theorem apply_turn (strtod : Strtod V) (arith : Arith V) {num1 num2 : V}
    (h : At str cal .waitForOp (o :: s) (num2 :: num1 :: nums) (top :: ops) counter) (ho : IsOperator o)
    (htop : IsOperator top) (hpushes : ¬ Pushes top o) :
    ApplyTurn strtod arith str cal .success (operatorFunc arith top num1 num2)
      (fun v cal' => At str cal' .waitForOp (o :: s) (v :: nums) ops counter) := by
  have hreads := h.reads
  have hlut : mainFuncLut (charAt str cal.mathExp) = .ok .correctOperator := by
    rw [hreads.charAt]
    exact mainFuncLut_operator ho
  have hnext : At str { cal with mathExp := cal.mathExp + 1 } .waitForOp s (num2 :: num1 :: nums) (top :: ops)
      counter := ⟨h.state, hreads.next, h.nums, h.ops, h.counter⟩
  obtain ⟨v, cal', heq, hat, hexp, hvalue⟩ := calcOperation_at arith hnext htop .success
  have hback : cal'.mathExp - 1 = cal.mathExp := by
    rw [hexp]
    rfl
  have hcall : MainFunc.correctOperator.call arith str { cal with mathExp := cal.mathExp + 1 } .success =
      .ok (0, { cal' with mathExp := cal'.mathExp - 1 },
        statusAfter (operatorFunc arith top num1 num2) .success) := by
    show correctOperator arith str _ _ = _
    unfold correctOperator
    unfold Pushes at hpushes
    simp only [Nat.add_sub_cancel, hreads.charAt, stackPeek_cons h.ops, bind, Except.bind, if_neg hpushes, heq, pure,
      Except.pure]
  have hturn := stateLut_waitForOp strtod h.state hlut hcall
  cases hfunc : operatorFunc arith top num1 num2 with
  | none =>
      rw [hfunc] at hturn
      exact .inl ⟨rfl, _, _, hturn⟩
  | some w =>
      obtain rfl := hvalue w hfunc
      rw [hfunc] at hturn
      refine .inr ⟨v, rfl, _, _, hturn, ?_, hat.state, ?_, hat.nums, hat.ops, hat.counter⟩
      · unfold potential
        show 2 * (str.length - (cal'.mathExp - 1)) + cal'.opStack.stackElements.length < _
        rw [hback, hat.ops, h.ops, List.length_cons]
        omega
      · show str.drop (cal'.mathExp - 1) = _
        rw [hback]
        exact hreads.drop

/-- **All that waits is applied** before an operator of a lower level. -/
theorem waiting_leads (hseven : SevenBit str) (ho : IsOperator o) :
    ∀ {waiting : List (V × Char)} {cal : Calc V} {v : V} {fuel : Nat},
      At str cal .waitForOp (o :: s) (v :: waiting.map Prod.fst ++ nums) (waiting.map Prod.snd ++ ops) counter →
      (∀ w ∈ waiting, IsOperator w.2 ∧ ¬ Pushes w.2 o) → potential str cal < fuel →
      Leads strtod arith str fuel cal .success (collapse (operatorFunc arith) waiting v)
        (fun cal' => ∃ v', collapse (operatorFunc arith) waiting v = some v' ∧
          At str cal' .waitForOp (o :: s) (v' :: nums) ops counter) := by
  intro waiting
  induction waiting with
  | nil => exact fun h _ hfuel => .inr (.inr ⟨_, _, ⟨_, rfl, h⟩, hfuel, rfl⟩)
  | cons w waiting ih =>
      intro cal v fuel h hwaiting hfuel
      obtain ⟨htop, hpushes⟩ := hwaiting w List.mem_cons_self
      simp only [collapse]
      have hturn := apply_turn strtod arith h ho htop hpushes
      refine (hturn.leads (hseven.ne_nul h.reads) h.reads hfuel).trans ?_ ?_
      · intro hnone
        rw [hnone]
        rfl
      · rintro fuel' cal' ⟨v', hvalue, hat⟩ hfuel'
        rw [hvalue]
        exact ih hat (fun w hw => hwaiting w (List.mem_cons_of_mem _ hw)) hfuel'

/-- The operators above a bracket, or above the bottom, are applied; then the bracket is looked at. -/
theorem parantheses_waiting (arith : Arith V)
    (h : At str cal .waitForOp (c :: s) (v :: waiting.map Prod.fst ++ nums) (waiting.map Prod.snd ++ o :: ops) counter)
    (hbracket : o = '#' ∨ ∃ d, closing o = some d) (hwaiting : ∀ w ∈ waiting, IsOperator w.2) :
    ∃ v' cal', parantheses arith str { cal with mathExp := cal.mathExp + 1 } .success =
        (if o = '#' ∨ operatorsLut c ≠ o.toNat then .ok (0, cal', .syntaxError)
        else (do
          let opStack ← stackPop cal'.opStack
          return (v', { cal' with opStack, paranthesesCounter := cal'.paranthesesCounter - 1 },
            statusAfter (collapse (operatorFunc arith) waiting v) .success))) ∧
      At str cal' .waitForOp s (v' :: nums) (o :: ops) counter ∧ cal'.mathExp = cal.mathExp + 1 ∧
      ∀ w, collapse (operatorFunc arith) waiting v = some w → v' = w := by
  have hreads := h.reads
  have hnext : At str { cal with mathExp := cal.mathExp + 1 } .waitForOp s (v :: waiting.map Prod.fst ++ nums)
      (waiting.map Prod.snd ++ o :: ops) counter := ⟨h.state, hreads.next, h.nums, h.ops, h.counter⟩
  have hstop : (o != '[' && o != '{' && o != '(' && o != '#') = false := by
    rcases hbracket with rfl | ⟨d, hd⟩
    · rfl
    · rcases opening_of_closing hd with rfl | rfl | rfl <;> rfl
  have hturns : waiting.length < cal.opStack.stackElements.length := by
    rw [h.ops, List.length_append, List.length_map, List.length_cons]
    omega
  obtain ⟨v', cal', heq, hat, hexp, hvalue⟩ := reduceWhile_waiting arith
    (fun o ho => (stays_iff (.inr (.inl ho))).mpr ho) hstop .success hnext hwaiting hturns
  have hpeek : stackPeek cal.numStack = .ok v := stackPeek_cons h.nums
  refine ⟨v', cal', ?_, hat, hexp, hvalue⟩
  unfold parantheses
  simp only [Nat.add_sub_cancel, hreads.charAt, hpeek, heq, stackPeek_cons hat.ops, bind, Except.bind, pure,
    Except.pure]

/-- **A closing bracket is read**: all that waits above its opening bracket is applied. -/
theorem closing_turn (strtod : Strtod V) (arith : Arith V)
    (h : At str cal .waitForOp (c :: s) (v :: waiting.map Prod.fst ++ nums) (waiting.map Prod.snd ++ o :: ops) counter)
    (hclosing : closing o = some c) (hwaiting : ∀ w ∈ waiting, IsOperator w.2) :
    ApplyTurn strtod arith str cal .success (collapse (operatorFunc arith) waiting v)
      (fun v' cal' => At str cal' .waitForOp s (v' :: nums) ops (counter - 1)) := by
  have hreads := h.reads
  have hlt := hreads.lt
  have hlut : mainFuncLut (charAt str cal.mathExp) = .ok .parantheses := by
    rw [hreads.charAt]
    rcases closing_eq_some.mp hclosing with ⟨-, rfl⟩ | ⟨-, rfl⟩ | ⟨-, rfl⟩ <;> rfl
  obtain ⟨v', cal', heq, hat, hexp, hvalue⟩ := parantheses_waiting arith h (.inr ⟨c, hclosing⟩) hwaiting
  -- the bracket on the stack is the one that this one closes
  have hmatch : ¬ (o = '#' ∨ operatorsLut c ≠ o.toNat) := by
    rcases closing_eq_some.mp hclosing with ⟨rfl, rfl⟩ | ⟨rfl, rfl⟩ | ⟨rfl, rfl⟩ <;> decide
  obtain ⟨opStack, hpop, helements, -⟩ := stackPop_cons hat.ops
  have hcall : MainFunc.parantheses.call arith str { cal with mathExp := cal.mathExp + 1 } .success =
      .ok (v', { cal' with opStack, paranthesesCounter := cal'.paranthesesCounter - 1 },
        statusAfter (collapse (operatorFunc arith) waiting v) .success) := by
    show parantheses arith str _ _ = _
    rw [heq, if_neg hmatch, hpop]
    rfl
  have hturn := stateLut_waitForOp strtod h.state hlut hcall
  cases hcollapse : collapse (operatorFunc arith) waiting v with
  | none =>
      rw [hcollapse] at hturn
      exact .inl ⟨rfl, _, _, hturn⟩
  | some w =>
      obtain rfl := hvalue w hcollapse
      rw [hcollapse] at hturn
      refine .inr ⟨v', rfl, _, _, hturn, ?_, hat.state, hat.drop, hat.nums, helements, ?_⟩
      · unfold potential
        show 2 * (str.length - cal'.mathExp) + opStack.stackElements.length < _
        rw [hexp, helements, h.ops, List.length_append, List.length_cons]
        omega
      · show cal'.paranthesesCounter - 1 = _
        rw [hat.counter]

theorem closing_leads (hseven : SevenBit str)
    (h : At str cal .waitForOp (c :: s) (v :: waiting.map Prod.fst ++ nums) (waiting.map Prod.snd ++ o :: ops) counter)
    (hclosing : closing o = some c) (hwaiting : ∀ w ∈ waiting, IsOperator w.2) (hfuel : potential str cal < fuel) :
    Leads strtod arith str fuel cal .success (collapse (operatorFunc arith) waiting v)
      (fun cal' => ∃ v', collapse (operatorFunc arith) waiting v = some v' ∧
        At str cal' .waitForOp s (v' :: nums) ops (counter - 1)) :=
  (closing_turn strtod arith h hclosing hwaiting).leads (hseven.ne_nul h.reads) h.reads hfuel

/-- **At the end** the rest is applied, and gives the result. -/
theorem calcLoop_end (strtod : Strtod V) (arith : Arith V) (fuel : Nat)
    (h : At str cal .waitForOp [] (v :: waiting.map Prod.fst) (waiting.map Prod.snd ++ ['#']) 0)
    (hwaiting : ∀ w ∈ waiting, IsOperator w.2) :
    ∃ res, calcLoop strtod arith str (fuel + 1) cal .success =
        some (.ok (res, statusAfter (collapse (operatorFunc arith) waiting v) .success)) ∧
      ∀ w, collapse (operatorFunc arith) waiting v = some w → res = w := by
  have hchar : charAt str cal.mathExp = '\x00' := by
    rcases reads_or_end str cal.mathExp with ⟨-, hchar⟩ | ⟨c, s, hreads⟩
    · exact hchar
    · have heq := hreads.drop
      rw [h.drop] at heq
      cases heq
  have hnext : At str { cal with mathExp := cal.mathExp + 1 } .waitForOp (str.drop (cal.mathExp + 1))
      (v :: waiting.map Prod.fst ++ []) (waiting.map Prod.snd ++ '#' :: []) 0 :=
    ⟨h.state, rfl, by rw [List.append_nil]; exact h.nums, h.ops, h.counter⟩
  have hstays : ∀ o, IsOperator o → (o != '#') = true := by
    rintro o ho
    rw [bne_iff_ne]
    rintro rfl
    exact absurd ho (by decide)
  have hturns : waiting.length < cal.opStack.stackElements.length := by
    rw [h.ops, List.length_append, List.length_map, List.length_singleton]
    omega
  obtain ⟨v', cal', heq, -, -, hvalue⟩ := reduceWhile_waiting arith hstays rfl .success hnext hwaiting
    hturns
  have hlut : mainFuncLut (charAt str cal.mathExp) = .ok .endOfEx := by
    rw [hchar]
    rfl
  have hcall : MainFunc.endOfEx.call arith str { cal with mathExp := cal.mathExp + 1 } .success =
      .ok (v', cal', statusAfter (collapse (operatorFunc arith) waiting v) .success) := by
    have hpeek : stackPeek cal.numStack = .ok v := stackPeek_cons h.nums
    show endOfEx arith _ _ = _
    unfold endOfEx
    simp only [hpeek, heq, bind, Except.bind]
  have hturn := stateLut_waitForOp strtod h.state hlut hcall
  have hcounter : ¬ cal.paranthesesCounter ≠ 0 := not_not.mpr h.counter
  refine ⟨if statusAfter (collapse (operatorFunc arith) waiting v) .success ≠ .success then 0 else v', ?_, ?_⟩
  · unfold calcLoop
    rw [if_neg (not_not.mpr hchar), if_neg hcounter, hturn]
  · intro w hw
    rw [hw]
    exact hvalue w hw

end Workbench.Calculator
