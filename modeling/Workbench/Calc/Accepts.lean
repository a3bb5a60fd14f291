import Workbench.Calc.Stacked

/-!
# `Calc.Accepts` — the language of the calculator

In each turn of the loop the calculator finds the text wrong, or goes on with a text that is accepted if and only if the
text before was. An operator that is read again keeps the text and takes an operator off the stack.

## Main results
* `waitForNum_turns`, `waitForOp_turns` — one turn, in each of the two states;
* `calcLoop_ends` — the loop, by induction on the turns that are left;
* `calculate_exitStatus` — the exit status tells whether the text is in the language.
-/

namespace Workbench.Calculator

open Bracketed

variable {V : Type} {strtod : Strtod V} {arith : Arith V} {cal : Calc V} {exitStatus : CalcStatus}
  {str s β : List Char} {c b : Char} {position n : Nat}

/-! ## Reading -/

/-- At the position there is `c`, and `s` is after it. -/
structure Reads (str : List Char) (position : Nat) (c : Char) (s : List Char) : Prop where
  drop : str.drop position = c :: s
  charAt : charAt str position = c
  next : str.drop (position + 1) = s
  lt : position < str.length
  mem : c ∈ str

/-- The text ends at the position, or there is a byte. -/
theorem reads_or_end (str : List Char) (position : Nat) :
    (str.drop position = [] ∧ charAt str position = '\x00') ∨ ∃ c s, Reads str position c s := by
  rcases Nat.lt_or_ge position str.length with hlt | hge
  · have hchar : charAt str position = str[position] := by
      unfold charAt
      rw [List.getD_eq_getElem?_getD, List.getElem?_eq_getElem hlt]
      rfl
    exact .inr ⟨_, _, List.drop_eq_getElem_cons hlt, hchar, rfl, hlt, List.getElem_mem hlt⟩
  · refine .inl ⟨List.drop_eq_nil_of_le hge, ?_⟩
    unfold charAt
    rw [List.getD_eq_getElem?_getD, List.getElem?_eq_none hge]
    rfl

theorem closing_eq_none : closing c = none ↔ ¬ (c = '(' ∨ c = '[' ∨ c = '{') := by
  constructor
  · rintro h (rfl | rfl | rfl) <;> cases h
  · intro h
    cases hclosing : closing c with
    | none => rfl
    | some b =>
        rcases closing_eq_some.mp hclosing with ⟨rfl, -⟩ | ⟨rfl, -⟩ | ⟨rfl, -⟩
        · exact absurd (.inl rfl) h
        · exact absurd (.inr (.inl rfl)) h
        · exact absurd (.inr (.inr rfl)) h

theorem opening_of_closing (h : closing c = some b) : c = '(' ∨ c = '[' ∨ c = '{' := by
  by_contra hnone
  rw [closing_eq_none.mpr hnone] at h
  cases h

theorem getNum_opening [Zero V] (hreads : Reads str position c s) (h : closing c = some b) :
    getNum strtod str position = (0, position + 1, c) := by
  unfold getNum
  rw [hreads.charAt, if_pos (opening_of_closing h)]

theorem getNum_number [Zero V] (hreads : Reads str position c s) (h : closing c = none) :
    getNum strtod str position = ((strtod.scan (c :: s)).2, position + (strtod.scan (c :: s)).1, '\x00') := by
  unfold getNum
  rw [hreads.charAt, if_neg (closing_eq_none.mp h), hreads.drop]

/-! ## One turn -/

def State.expects : State → Expects
  | .waitForNum => .operand
  | .waitForOp => .operator

/-- The rest of the text is accepted. -/
def Accepted (strtod : Strtod V) (str : List Char) (cal : Calc V) (β : List Char) : Prop :=
  Accepts (lexicon strtod) cal.currenState.expects β (str.drop cal.mathExp)

theorem accepted_iff {x : State} {t : List Char} (hstate : cal.currenState = x) (hdrop : str.drop cal.mathExp = t) :
    Accepted strtod str cal β ↔ Accepts (lexicon strtod) x.expects β t := by
  unfold Accepted
  rw [hstate, hdrop]

/-- Each turn takes something: bytes of the text, or an operator or a bracket off the stack. -/
def potential (str : List Char) (cal : Calc V) : Nat :=
  2 * (str.length - cal.mathExp) + cal.opStack.stackElements.length

/-- What a turn may do. -/
inductive Turns (strtod : Strtod V) (str : List Char) (cal : Calc V) (β : List Char) :
    Except Abort (V × Calc V × CalcStatus) → Prop
  | full : Turns strtod str cal β (.error .full)
  | rejects {res : V} {cal' : Calc V} : ¬ Accepted strtod str cal β →
      Turns strtod str cal β (.ok (res, cal', .syntaxError))
  | keeps {res : V} {cal' : Calc V} (β' : List Char) (n : Nat) : Good cal' β' n →
      (Accepted strtod str cal' β' ↔ Accepted strtod str cal β) → potential str cal' < potential str cal →
      Turns strtod str cal β (.ok (res, cal', .success))

variable [Zero V]

/-- **An opening bracket is read**: it is pushed, and its closing bracket is to come. -/
theorem waitForNum_opening (h : Good cal β n) (hstate : cal.currenState = .waitForNum)
    (hreads : Reads str cal.mathExp c s) (hc : c ≠ '\x00') (hclosing : closing c = some b) :
    Turns strtod str cal β (waitForNum strtod str cal) := by
  have hlt := hreads.lt
  have hne : ¬ (cal.mathExp + 1 = cal.mathExp ∨ charAt str cal.mathExp = '\x00') := by
    rw [hreads.charAt]
    simp [hc]
  unfold waitForNum
  simp only [getNum_opening hreads hclosing, if_neg hne, if_pos (opening_of_closing hclosing)]
  -- the bracket is pushed, unless the stack is full
  rcases stackPush_cases cal.opStack c with hfull | ⟨opStack, hpush, helements⟩
  · rw [hfull]
    exact .full
  · rw [hpush]
    refine .keeps (b :: β) n ⟨?_, h.numbers, ?_⟩ ?_ ?_
    · rw [helements]
      exact .bracket hclosing h.stacked
    · show cal.paranthesesCounter + 1 = ((b :: β).length : Int)
      rw [h.counter, List.length_cons]
      rfl
    · rw [accepted_iff hstate hreads.drop]
      exact Iff.trans (accepted_iff hstate hreads.next) (accepts_operand_opening hclosing).symm
    · unfold potential
      rw [helements, List.length_cons]
      show 2 * (str.length - (cal.mathExp + 1)) + _ < _
      omega

/-- **A number is read**, if there is one, and an operator is waited for. -/
theorem waitForNum_number (h : Good cal β n) (hstate : cal.currenState = .waitForNum)
    (hreads : Reads str cal.mathExp c s) (hc : c ≠ '\x00') (hclosing : closing c = none) :
    Turns strtod str cal β (waitForNum strtod str cal) := by
  have hlt := hreads.lt
  have haccepted : Accepted strtod str cal β ↔ 0 < (strtod.scan (c :: s)).1 ∧
      Accepts (lexicon strtod) .operator β ((c :: s).drop (strtod.scan (c :: s)).1) := by
    rw [accepted_iff hstate hreads.drop]
    exact accepts_operand_number hclosing
  unfold waitForNum
  simp only [getNum_number hreads hclosing]
  by_cases hzero : (strtod.scan (c :: s)).1 = 0
  · -- `strtod` leaves the end pointer where it was
    have heq : cal.mathExp + (strtod.scan (c :: s)).1 = cal.mathExp := by rw [hzero, Nat.add_zero]
    simp only [heq, true_or, if_true]
    refine .rejects ?_
    rw [haccepted]
    rintro ⟨hpos, -⟩
    exact absurd hzero (Nat.ne_of_gt hpos)
  · have hne : ¬ (cal.mathExp + (strtod.scan (c :: s)).1 = cal.mathExp ∨ charAt str cal.mathExp = '\x00') := by
      rw [hreads.charAt]
      simp [hc, hzero]
    have hbracket : ¬ ('\x00' = '(' ∨ '\x00' = '[' ∨ '\x00' = '{') := by decide
    have hrest : str.drop (cal.mathExp + (strtod.scan (c :: s)).1) = (c :: s).drop (strtod.scan (c :: s)).1 := by
      rw [← List.drop_drop, hreads.drop]
    simp only [if_neg hne, if_neg hbracket]
    rcases stackPush_cases cal.numStack (strtod.scan (c :: s)).2 with hfull | ⟨numStack, hpush, helements⟩
    · rw [hfull]
      exact .full
    · rw [hpush]
      refine .keeps β n ⟨h.stacked, ?_, h.counter⟩ ?_ ?_
      · have hnumbers := h.numbers
        rw [hstate] at hnumbers
        show numStack.stackElements.length = n + 1
        rw [helements, List.length_cons, hnumbers]
        rfl
      · rw [haccepted, accepted_iff (x := .waitForOp) rfl hrest]
        exact ⟨fun haccepts => ⟨Nat.pos_of_ne_zero hzero, haccepts⟩, fun haccepts => haccepts.2⟩
      · unfold potential
        show 2 * (str.length - (cal.mathExp + (strtod.scan (c :: s)).1)) + cal.opStack.stackElements.length < _
        omega

/-- **A turn that waits for a number.** -/
theorem waitForNum_turns (h : Good cal β n) (hstate : cal.currenState = .waitForNum)
    (hreads : Reads str cal.mathExp c s) (hc : c ≠ '\x00') : Turns strtod str cal β (waitForNum strtod str cal) := by
  cases hclosing : closing c with
  | some b => exact waitForNum_opening h hstate hreads hc hclosing
  | none => exact waitForNum_number h hstate hreads hc hclosing

theorem mainFuncLut_cases (hlt : c.toNat ≤ 127) (hc : c ≠ '\x00') :
    (IsOperator c ∧ mainFuncLut c = .ok .correctOperator) ∨
      (∃ o, closing o = some c ∧ mainFuncLut c = .ok .parantheses) ∨
      ¬ IsOperator c ∧ (∀ o, closing o ≠ some c) ∧ mainFuncLut c = .ok .notCorrectOperator := by
  -- an operator, a closing bracket, or any other byte
  by_cases hoperator : IsOperator c
  · refine .inl ⟨hoperator, ?_⟩
    simp only [IsOperator, List.mem_cons, List.not_mem_nil, or_false] at hoperator
    rcases hoperator with rfl | rfl | rfl | rfl | rfl <;> rfl
  · by_cases hclosing : ∃ o, closing o = some c
    · refine .inr (.inl ?_)
      obtain ⟨o, hclosing⟩ := hclosing
      refine ⟨o, hclosing, ?_⟩
      rcases closing_eq_some.mp hclosing with ⟨-, rfl⟩ | ⟨-, rfl⟩ | ⟨-, rfl⟩ <;> rfl
    · refine .inr (.inr ⟨hoperator, not_exists.mp hclosing, ?_⟩)
      unfold mainFuncLut
      rw [if_neg (by omega)]
      split
      · exact absurd rfl hc
      · exact absurd (by decide) hoperator
      · exact absurd (by decide) hoperator
      · exact absurd (by decide) hoperator
      · exact absurd (by decide) hoperator
      · exact absurd (by decide) hoperator
      · exact absurd ⟨'(', rfl⟩ hclosing
      · exact absurd ⟨'[', rfl⟩ hclosing
      · exact absurd ⟨'{', rfl⟩ hclosing
      · rfl

/-- Only an operator on top keeps another operator from being pushed. -/
theorem isOperator_top {o top : Char} {ops : List Char} (h : Stacked (top :: ops) β n) (ho : IsOperator o)
    (hpriority : ¬ getOperatorPriority o > getOperatorPriority top) : IsOperator top := by
  have hpos : 0 < getOperatorPriority o := by
    simp only [IsOperator, List.mem_cons, List.not_mem_nil, or_false] at ho
    rcases ho with rfl | rfl | rfl | rfl | rfl <;> decide
  -- the bottom and the brackets have the priority 0
  rcases h.mem_cases top List.mem_cons_self with rfl | htop | ⟨b, hclosing⟩
  · exact absurd hpos hpriority
  · exact htop
  · have hzero : getOperatorPriority top = 0 := by
      rcases opening_of_closing hclosing with rfl | rfl | rfl <;> rfl
    rw [hzero] at hpriority
    exact absurd hpos hpriority

/-- **An operator is read**: it is pushed, or it is read again after the one on top was applied. -/
theorem correctOperator_turns (h : Good cal β n) (hstate : cal.currenState = .waitForOp) (hnever : arith.NeverFails)
    (hreads : Reads str cal.mathExp c s) (ho : IsOperator c) :
    Turns strtod str cal β (correctOperator arith str { cal with mathExp := cal.mathExp + 1 } .success) := by
  have hlt := hreads.lt
  have hnumbers := h.numbers
  rw [hstate] at hnumbers
  obtain ⟨top, ops, hops⟩ := h.stacked.eq_cons
  unfold correctOperator
  simp only [Nat.add_sub_cancel, hreads.charAt, stackPeek_cons hops, bind, Except.bind, pure, Except.pure]
  by_cases hpush : twoPowerInRow top c = true ∨ getOperatorPriority c > getOperatorPriority top
  · -- the operand comes next
    simp only [if_pos hpush]
    rcases stackPush_cases cal.opStack c with hfull | ⟨opStack, hpush, helements⟩
    · rw [hfull]
      exact .full
    · rw [hpush]
      refine .keeps β (n + 1) ⟨?_, hnumbers, h.counter⟩ ?_ ?_
      · rw [helements]
        exact .operator ho h.stacked
      · rw [accepted_iff hstate hreads.drop]
        exact Iff.trans (accepted_iff rfl hreads.next) (accepts_operator_operator h.stacked.closers ho).symm
      · unfold potential
        rw [helements, List.length_cons]
        show 2 * (str.length - (cal.mathExp + 1)) + _ < _
        omega
  · -- the pointer is where it was: the text is the same, and the stack is lower
    simp only [if_neg hpush]
    have htop := isOperator_top (hops ▸ h.stacked) ho (not_or.mp hpush).2
    have hgood : Good { cal with mathExp := cal.mathExp + 1 } β n := ⟨h.stacked, h.numbers, h.counter⟩
    -- the state does not change, so the same operator is read again
    obtain ⟨operand, cal', heq, happlied⟩ := hgood.calcOperation .success hstate hnever hops htop
    obtain ⟨m, hgood'⟩ := happlied.good
    have hexp : cal'.mathExp - 1 = cal.mathExp := by
      rw [happlied.mathExp]
      rfl
    rw [heq]
    simp only [hexp]
    refine .keeps β m ⟨hgood'.stacked, hgood'.numbers, hgood'.counter⟩ ?_ ?_
    · rw [accepted_iff hstate hreads.drop]
      exact accepted_iff happlied.currenState hreads.drop
    · unfold potential
      rw [hops, List.length_cons]
      show 2 * (str.length - cal.mathExp) + cal'.opStack.stackElements.length < _
      rw [happlied.elements]
      omega

/-- The table gives the bracket that the closing one closes. -/
theorem operatorsLut_eq_iff {o top d : Char} (hc : closing o = some c) (hd : closing top = some d) :
    operatorsLut c = top.toNat ↔ d = c := by
  rcases closing_eq_some.mp hc with ⟨-, rfl⟩ | ⟨-, rfl⟩ | ⟨-, rfl⟩ <;>
    rcases closing_eq_some.mp hd with ⟨rfl, rfl⟩ | ⟨rfl, rfl⟩ | ⟨rfl, rfl⟩ <;> decide

/-- The loop of `Parantheses` stays at operators, and no others. -/
theorem stays_iff {o : Char} (h : o = '#' ∨ IsOperator o ∨ ∃ d, closing o = some d) :
    (o != '[' && o != '{' && o != '(' && o != '#') = true ↔ IsOperator o := by
  rcases h with rfl | ho | ⟨d, hclosing⟩
  · decide
  · simp only [IsOperator, List.mem_cons, List.not_mem_nil, or_false] at ho
    rcases ho with rfl | rfl | rfl | rfl | rfl <;> decide
  · rcases opening_of_closing hclosing with rfl | rfl | rfl <;> decide

omit [Zero V] in
theorem Good.peekNum (h : Good cal β n) (hstate : cal.currenState = .waitForOp) :
    ∃ num, stackPeek cal.numStack = .ok num := by
  have hnumbers := h.numbers
  rw [hstate] at hnumbers
  cases hnums : cal.numStack.stackElements with
  | nil =>
      rw [hnums] at hnumbers
      cases hnumbers
  | cons num nums => exact ⟨num, stackPeek_cons hnums⟩

/-- The operators down to the innermost bracket, or to the bottom, are applied; then the bracket is looked at. -/
theorem parantheses_eq (h : Good cal β n) (hstate : cal.currenState = .waitForOp) (hnever : arith.NeverFails)
    (hreads : Reads str cal.mathExp c s) :
    ∃ res cal' top ops, Applied { cal with mathExp := cal.mathExp + 1 } cal' β (top :: ops) ∧
      (top = '#' ∨ ∃ d, closing top = some d) ∧ ops.length < cal.opStack.stackElements.length ∧
      parantheses arith str { cal with mathExp := cal.mathExp + 1 } .success =
        if top = '#' ∨ operatorsLut c ≠ top.toNat then .ok (0, cal', .syntaxError)
        else (do
          let opStack ← stackPop cal'.opStack
          return (res, { cal' with opStack, paranthesesCounter := cal'.paranthesesCounter - 1 }, .success)) := by
  have hgood : Good { cal with mathExp := cal.mathExp + 1 } β n := ⟨h.stacked, h.numbers, h.counter⟩
  have hcases := h.stacked.mem_cases
  obtain ⟨num, hpeek⟩ := h.peekNum hstate
  obtain ⟨res, cal', top, ops, heq, happlied, hstop, hsuffix⟩ := hgood.reduceWhile .success hnever num hstate
    (fun o ho hstays => (stays_iff (hcases o ho)).mp hstays) (Nat.le_refl _)
  have htop := hcases top (hsuffix.subset List.mem_cons_self)
  have hlength : ops.length + 1 ≤ cal.opStack.stackElements.length := hsuffix.length_le
  refine ⟨res, cal', top, ops, happlied, ?_, hlength, ?_⟩
  · rcases htop with hbottom | ho | hopening
    · exact .inl hbottom
    · rw [(stays_iff (.inr (.inl ho))).mpr ho] at hstop
      cases hstop
    · exact .inr hopening
  · unfold parantheses
    simp only [Nat.add_sub_cancel, hreads.charAt, hpeek, heq, stackPeek_cons happlied.elements, bind, Except.bind, pure,
      Except.pure]

/-- **A closing bracket is read**: it is wrong, or the bracket that it closes is taken off the stack. -/
theorem parantheses_turns (h : Good cal β n) (hstate : cal.currenState = .waitForOp) (hnever : arith.NeverFails)
    (hreads : Reads str cal.mathExp c s) (hclosing : closing b = some c) :
    Turns strtod str cal β (parantheses arith str { cal with mathExp := cal.mathExp + 1 } .success) := by
  have hlt := hreads.lt
  have haccepted : Accepted strtod str cal β ↔ ∃ β', β = c :: β' ∧ Accepts (lexicon strtod) .operator β' s := by
    rw [accepted_iff hstate hreads.drop]
    exact accepts_operator_other (not_isOperator_of_closing hclosing).2
  obtain ⟨res, cal', top, ops, happlied, htop, hlength, heq⟩ := parantheses_eq h hstate hnever hreads
  obtain ⟨m, hgood⟩ := happlied.good
  have hstacked := happlied.elements ▸ hgood.stacked
  have hafter : str.drop cal'.mathExp = s := by
    rw [happlied.mathExp]
    exact hreads.next
  rw [heq]
  rcases htop with rfl | ⟨d, hd⟩
  · -- no bracket is open
    rw [if_pos (.inl rfl)]
    refine .rejects ?_
    rw [haccepted, hstacked.of_bottom]
    rintro ⟨β', hnil, -⟩
    cases hnil
  · obtain ⟨β', rfl, hrest⟩ := hstacked.of_bracket hd
    by_cases hmatch : d = c
    · -- the innermost bracket is closed
      subst hmatch
      have hne : ¬ (top = '#' ∨ operatorsLut d ≠ top.toNat) := by
        rintro (rfl | hlut)
        · cases hd
        · exact hlut ((operatorsLut_eq_iff hclosing hd).mpr rfl)
      obtain ⟨opStack, hpop, helements, -⟩ := stackPop_cons happlied.elements
      rw [if_neg hne, hpop]
      refine .keeps β' m ⟨?_, hgood.numbers, ?_⟩ ?_ ?_
      · rw [helements]
        exact hrest
      · show cal'.paranthesesCounter - 1 = (β'.length : Int)
        rw [hgood.counter, List.length_cons, Int.natCast_succ, Int.add_sub_cancel]
      · rw [haccepted]
        refine Iff.trans (accepted_iff happlied.currenState hafter) ?_
        constructor
        · exact fun haccepts => ⟨β', rfl, haccepts⟩
        · rintro ⟨β'', heq, haccepts⟩
          obtain rfl := (List.cons.inj heq).2
          exact haccepts
      · unfold potential
        rw [helements, happlied.mathExp]
        show 2 * (str.length - (cal.mathExp + 1)) + ops.length < _
        omega
    · -- a bracket of another kind is open
      rw [if_pos (.inr (fun hlut => hmatch ((operatorsLut_eq_iff hclosing hd).mp hlut)))]
      refine .rejects ?_
      rw [haccepted]
      rintro ⟨β'', heq, -⟩
      exact hmatch (List.cons.inj heq).1

/-- `WaitForOp` calls the entry of the table and looks at the exit status. -/
theorem waitForOp_eq {func : MainFunc} (hlut : mainFuncLut (charAt str cal.mathExp) = .ok func) :
    waitForOp arith str cal exitStatus = (do
      let (operand, cal, exitStatus) ← func.call arith str { cal with mathExp := cal.mathExp + 1 } exitStatus
      if exitStatus ≠ .success then return (0, cal, exitStatus) else return (operand, cal, exitStatus)) := by
  simp only [waitForOp, getOp, hlut, bind, Except.bind]

theorem Turns.returned {r : Except Abort (V × Calc V × CalcStatus)} (h : Turns strtod str cal β r) :
    Turns strtod str cal β (do
      let (operand, cal, exitStatus) ← r
      if exitStatus ≠ .success then return (0, cal, exitStatus) else return (operand, cal, exitStatus)) := by
  cases h with
  | full => exact .full
  | rejects hnot => exact .rejects hnot
  | keeps β' m hgood hiff hpotential => exact .keeps β' m hgood hiff hpotential

/-- **A turn that waits for an operator.** -/
theorem waitForOp_turns (h : Good cal β n) (hstate : cal.currenState = .waitForOp) (hnever : arith.NeverFails)
    (hreads : Reads str cal.mathExp c s) (hlt : c.toNat ≤ 127) (hc : c ≠ '\x00') :
    Turns strtod str cal β (waitForOp arith str cal .success) := by
  have hchar := hreads.charAt
  -- one case for each entry of the table; the end of the text is not one of them
  rcases mainFuncLut_cases hlt hc with ⟨ho, hlut⟩ | ⟨o, hclosing, hlut⟩ | ⟨ho, hclosing, hlut⟩
  · rw [waitForOp_eq (hchar ▸ hlut)]
    exact (correctOperator_turns h hstate hnever hreads ho).returned
  · rw [waitForOp_eq (hchar ▸ hlut)]
    exact (parantheses_turns h hstate hnever hreads hclosing).returned
  · rw [waitForOp_eq (hchar ▸ hlut)]
    refine .rejects ?_
    rw [accepted_iff hstate hreads.drop]
    intro haccepts
    obtain ⟨β', rfl, -⟩ := (accepts_operator_other ho).mp haccepts
    have hclosers : Closers (lexicon strtod) (c :: β') := h.stacked.closers
    obtain ⟨o, hsome⟩ := hclosers c List.mem_cons_self
    exact hclosing o hsome

/-! ## The loop -/

/-- A text of bytes from 1 to 127. -/
def SevenBit (str : List Char) : Prop := ∀ c ∈ str, 1 ≤ c.toNat ∧ c.toNat ≤ 127

/-- How the loop may end. -/
inductive Ends (accepted : Prop) : Option (Except Abort (V × CalcStatus)) → Prop
  | full : Ends accepted (some (.error .full))
  | syntaxError {res : V} : ¬ accepted → Ends accepted (some (.ok (res, .syntaxError)))
  | success {res : V} : accepted → Ends accepted (some (.ok (res, .success)))

omit [Zero V] in
theorem Ends.mono {accepted accepted' : Prop} {r : Option (Except Abort (V × CalcStatus))} (h : Ends accepted r)
    (hiff : accepted ↔ accepted') : Ends accepted' r := by
  cases h with
  | full => exact .full
  | syntaxError hnot => exact .syntaxError (hiff.not.mp hnot)
  | success h => exact .success (hiff.mp h)

/-- **At the end of the text.** -/
theorem calcLoop_at_end {fuel : Nat} (h : Good cal β n) (hnever : arith.NeverFails)
    (hstatus : cal.currenState = .waitForOp → exitStatus = .success) (hdrop : str.drop cal.mathExp = [])
    (hchar : charAt str cal.mathExp = '\x00') :
    Ends (Accepted strtod str cal β) (calcLoop strtod arith str (fuel + 1) cal exitStatus) := by
  unfold calcLoop
  rw [if_neg (not_not.mpr hchar)]
  have haccepted : Accepted strtod str cal β ↔ Accepts (lexicon strtod) cal.currenState.expects β [] :=
    accepted_iff rfl hdrop
  by_cases hcounter : cal.paranthesesCounter = 0
  · -- no bracket is open, so the state decides
    obtain rfl : β = [] := by
      rw [h.counter] at hcounter
      exact List.length_eq_zero_iff.mp (Int.natCast_eq_zero.mp hcounter)
    rw [if_neg (not_not.mpr hcounter)]
    unfold stateLut
    cases hstate : cal.currenState with
    | waitForNum =>
        rw [hstate] at haccepted
        simp only [waitForNum, hchar, or_true, if_true]
        exact .syntaxError (haccepted.not.mpr accepts_operand_nil)
    | waitForOp =>
        rw [hstate] at haccepted
        obtain rfl := hstatus hstate
        -- the operators that are left are applied, down to the bottom
        obtain ⟨num, hpeek⟩ := h.peekNum hstate
        have hgood : Good { cal with mathExp := cal.mathExp + 1 } [] n := ⟨h.stacked, h.numbers, h.counter⟩
        have hstays : ∀ o ∈ cal.opStack.stackElements, (o != '#') = true → IsOperator o :=
          fun o ho hne => h.stacked.operators rfl o ho (by simpa using hne)
        obtain ⟨res, cal', top, ops, heq, -⟩ :=
          hgood.reduceWhile .success hnever num hstate hstays (Nat.le_refl _)
        have hlut : mainFuncLut (charAt str cal.mathExp) = .ok .endOfEx := by
          rw [hchar]
          rfl
        simp only [waitForOp_eq hlut, MainFunc.call, endOfEx, hpeek, heq, bind, Except.bind]
        exact .success (haccepted.mpr .done)
  · -- a bracket that is open is never closed
    rw [if_pos hcounter]
    refine .syntaxError (haccepted.not.mpr ?_)
    intro haccepts
    have hnil : β = [] := by
      cases hstate : cal.currenState with
      | waitForNum =>
          rw [hstate] at haccepts
          exact absurd haccepts accepts_operand_nil
      | waitForOp =>
          rw [hstate] at haccepts
          exact accepts_operator_nil.mp haccepts
    rw [h.counter, hnil] at hcounter
    exact hcounter rfl

/-- **The loop** ends, with enough turns, and tells whether the text is accepted. -/
theorem calcLoop_ends (hseven : SevenBit str) (hnever : arith.NeverFails) {fuel : Nat} :
    ∀ {cal : Calc V} {β : List Char} {n : Nat} {exitStatus : CalcStatus}, Good cal β n →
      (cal.currenState = .waitForOp → exitStatus = .success) → potential str cal < fuel →
      Ends (Accepted strtod str cal β) (calcLoop strtod arith str fuel cal exitStatus) := by
  induction fuel with
  | zero => exact fun _ _ hfuel => absurd hfuel (Nat.not_lt_zero _)
  | succ fuel ih =>
      intro cal β n exitStatus h hstatus hfuel
      -- the loop stops at the `NUL`, and no byte before it is one
      rcases reads_or_end str cal.mathExp with ⟨hdrop, hchar⟩ | ⟨c, s, hreads⟩
      · exact calcLoop_at_end h hnever hstatus hdrop hchar
      · obtain ⟨hpos, hlt⟩ := hseven c hreads.mem
        have hc : c ≠ '\x00' := by
          rintro rfl
          exact absurd hpos (by decide)
        have hturns : Turns strtod str cal β (stateLut strtod arith str cal exitStatus) := by
          unfold stateLut
          cases hstate : cal.currenState with
          | waitForNum => exact waitForNum_turns h hstate hreads hc
          | waitForOp =>
              obtain rfl := hstatus hstate
              exact waitForOp_turns h hstate hnever hreads hlt hc
        unfold calcLoop
        rw [hreads.charAt, if_pos hc]
        generalize stateLut strtod arith str cal exitStatus = r at hturns
        cases hturns with
        | full => exact .full
        | rejects hnot => exact .syntaxError hnot
        | keeps β' m hgood hiff hpotential =>
            exact (ih hgood (fun _ => rfl) (by omega)).mono hiff

/-! ## The call -/

omit [Zero V] in
theorem calcInit_good : ∃ cal : Calc V, calcInit = .ok cal ∧ Good cal [] 0 ∧ cal.currenState = .waitForNum ∧
    cal.mathExp = 0 ∧ cal.opStack.stackElements.length = 1 :=
  ⟨_, rfl, ⟨.bottom, rfl, rfl⟩, rfl, rfl, rfl⟩

/-- **The call** ends with a full stack, or tells whether the text is in the language. -/
theorem calculate_ends (hseven : SevenBit str) (hnever : arith.NeverFails) {fuel : Nat}
    (hfuel : 2 * str.length + 2 ≤ fuel) (exitStatus : CalcStatus) :
    Ends (Language (lexicon strtod) str) (calculate strtod arith fuel str exitStatus) := by
  obtain ⟨cal, hinit, hgood, hstate, hexp, hlength⟩ := calcInit_good (V := V)
  have hpotential : potential str cal < fuel := by
    unfold potential
    rw [hexp, hlength]
    omega
  have hstatus : cal.currenState = .waitForOp → exitStatus = .success := by
    rw [hstate]
    intro hop
    cases hop
  unfold calculate
  rw [hinit]
  refine (calcLoop_ends hseven hnever hgood hstatus hpotential).mono ?_
  rw [accepted_iff hstate (t := str) (by rw [hexp, List.drop_zero])]
  exact accepts_iff_language

/-- No push of the run finds its stack full; the `#` below is one of the 1000 operators. -/
def Fits (strtod : Strtod V) (arith : Arith V) (fuel : Nat) (str : List Char) (exitStatus : CalcStatus) : Prop :=
  calculate strtod arith fuel str exitStatus ≠ some (.error .full)

/-- **The exit status** is `SYNTAX_ERROR` if and only if the text is not in the language, and `SUCCESS` otherwise. -/
theorem calculate_exitStatus (hseven : SevenBit str) (hnever : arith.NeverFails) {fuel : Nat}
    (hfuel : 2 * str.length + 2 ≤ fuel) (hfits : Fits strtod arith fuel str exitStatus) :
    ∃ res final, calculate strtod arith fuel str exitStatus = some (.ok (res, final)) ∧
      (final = .syntaxError ↔ ¬ Language (lexicon strtod) str) ∧
      (final = .success ↔ Language (lexicon strtod) str) := by
  have hends : Ends (Language (lexicon strtod) str) (calculate strtod arith fuel str exitStatus) :=
    calculate_ends hseven hnever hfuel exitStatus
  unfold Fits at hfits
  generalize calculate strtod arith fuel str exitStatus = r at hends hfits
  cases hends with
  | full => exact absurd rfl hfits
  | syntaxError hnot =>
      refine ⟨_, _, rfl, ⟨fun _ => hnot, fun _ => rfl⟩, ?_⟩
      exact ⟨fun heq => absurd heq (by decide), fun h => absurd h hnot⟩
  | success h =>
      refine ⟨_, _, rfl, ?_, ⟨fun _ => h, fun _ => rfl⟩⟩
      exact ⟨fun heq => absurd heq (by decide), fun hnot => absurd h hnot⟩

/-- Numbers without sign, point and exponent. -/
def sampleStrtod : Strtod Nat where
  scan s := ((s.takeWhile Char.isDigit).length,
    (s.takeWhile Char.isDigit).foldl (fun value c => 10 * value + (c.toNat - '0'.toNat)) 0)
  scan_le s := (List.takeWhile_sublist _).length_le
  scan_opening s h := by
    simp only [List.mem_cons, List.not_mem_nil, or_false] at h
    rcases h with rfl | rfl | rfl <;> rfl

def sampleArith : Arith Nat where
  plus a b := some (a + b)
  minus a b := some (a - b)
  multiply a b := some (a * b)
  divide a b := some (a / b)
  power a b := some (Nat.pow a b)

/-- The text `[(10+2)*3]^2`. -/
def sampleText : List Char := ['[', '(', '1', '0', '+', '2', ')', '*', '3', ']', '^', '2']

theorem calculate_exitStatus_sample :
    ∃ res final, @calculate Nat ⟨0⟩ sampleStrtod sampleArith 26 sampleText .success = some (.ok (res, final)) ∧
      (final = .syntaxError ↔ ¬ Language (lexicon sampleStrtod) sampleText) ∧
      (final = .success ↔ Language (lexicon sampleStrtod) sampleText) := by
  have hall : sampleText.all (fun c => decide (1 ≤ c.toNat ∧ c.toNat ≤ 127)) = true := rfl
  have hseven : SevenBit sampleText := fun c hc => of_decide_eq_true (List.all_eq_true.mp hall c hc)
  have hnever : sampleArith.NeverFails :=
    ⟨fun _ _ => rfl, fun _ _ => rfl, fun _ _ => rfl, fun _ _ => rfl, fun _ _ => rfl⟩
  have hresult : @calculate Nat ⟨0⟩ sampleStrtod sampleArith 26 sampleText .success = some (.ok (1296, .success)) := by
    rfl
  refine calculate_exitStatus hseven hnever (Nat.le_refl _) ?_
  unfold Fits
  rw [hresult]
  intro hfull
  cases hfull

end Workbench.Calculator
