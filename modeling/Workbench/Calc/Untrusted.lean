import Workbench.Calc.Pending

/-!
# `Calc.Untrusted` — any text

A text of any bytes. Each turn of the loop is a step of the reading that has no bounds, up to the first push on a stack
that is full, the first operator that fails, the first byte that is negative as a `char`, or the first error in the
text; so the call is safe when the reading meets none of these but the last.

## Main results
* `handled_of_short` — a bound on the length that is enough;
* `stateLut_capacity` — no turn changes how large the stacks are;
* `stateLut_cases` — what a turn does, for each thing that the reading may do;
* `Handled.returns`, `Safe.handled` — the loop and the reading, in both directions;
* `calculate_safe_iff` — when the call is safe.
-/

namespace Workbench.Calculator

open Bracketed

variable {V : Type} {strtod : Strtod V} {arith : Arith V} {L L' : Reading V} {cal cal' : Calc V}
  {exitStatus exitStatus' : CalcStatus} {str s : List Char} {c : Char} {v : V} {fuel : Nat}

/-! ## What a reading may come to -/

/-- Any bytes but the `NUL`. -/
def ByteText (str : List Char) : Prop := ∀ c ∈ str, 1 ≤ c.toNat ∧ c.toNat ≤ 255

theorem ByteText.no_nul (h : ByteText str) : '\x00' ∉ str := by
  intro hmem
  exact absurd (h _ hmem).1 (by decide)

/-- What the stacks have room for. -/
def Reading.Within (L : Reading V) : Prop := L.nums.length ≤ 100 ∧ L.ops.length ≤ 1000

/-- **What the reading may come to**: the stacks have room for what is pending, no byte from 128 on is where an operator
    is expected, and in a text with an error no operator fails before the error is found. -/
structure Handled (strtod : Strtod V) (arith : Arith V) (str : List Char) : Prop where
  within {L : Reading V} : (readings strtod arith str).Reachable System.Any L → L.Within
  bytes {L : Reading V} {c : Char} {s : List Char} : (readings strtod arith str).Reachable System.Any L →
    L.state = .waitForOp → L.rest = c :: s → c.toNat ≤ 127
  failures {L : Reading V} : ¬ Language (lexicon strtod) str →
    (readings strtod arith str).Reachable System.Any L → ¬ Fails arith L

/-- **A short text** of bytes up to 127 is handled when no operator fails. -/
theorem handled_of_short (hseven : SevenBit str) (hnever : arith.NeverFails) (hlength : str.length ≤ 100) :
    Handled strtod arith str := by
  refine ⟨?_, ?_, ?_⟩
  · intro L hreach
    obtain ⟨-, hnums, hops⟩ := readings_pending hreach
    exact ⟨by omega, by omega⟩
  · intro L c s hreach _ hrest
    obtain ⟨hsuffix, -, -⟩ := readings_pending hreach
    rw [hrest] at hsuffix
    exact (hseven c (hsuffix.subset List.mem_cons_self)).2
  · exact fun _ _ => hnever.not_fails

/-! ## How large the stacks are -/

/-- The stacks of one state are as large as those of another. -/
structure SameCapacity (cal cal' : Calc V) : Prop where
  numStack : cal'.numStack.stackCapacity = cal.numStack.stackCapacity
  opStack : cal'.opStack.stackCapacity = cal.opStack.stackCapacity

theorem SameCapacity.trans {cal'' : Calc V} (h : SameCapacity cal cal') (h' : SameCapacity cal' cal'') :
    SameCapacity cal cal'' := ⟨h'.numStack.trans h.numStack, h'.opStack.trans h.opStack⟩

/-- The state is where the reading is, with the stacks of `CalcInit`. -/
structure Linked (str : List Char) (L : Reading V) (cal : Calc V) : Prop where
  point : At str cal L.state L.rest L.nums L.ops (L.ops.filterMap closing).length
  numCapacity : cal.numStack.stackCapacity = 100
  opCapacity : cal.opStack.stackCapacity = 1000

theorem Linked.within (h : Linked str L cal) : L.Within := by
  refine ⟨?_, ?_⟩
  · rw [← h.point.nums, ← h.numCapacity]
    exact cal.numStack.within
  · rw [← h.point.ops, ← h.opCapacity]
    exact cal.opStack.within

/-- On a stack that is full there is no room for one more. -/
theorem Linked.full_nums (h : Linked str L cal)
    (hfull : cal.numStack.stackCapacity = cal.numStack.stackElements.length) : 100 < L.nums.length + 1 := by
  rw [← h.point.nums, ← hfull, h.numCapacity]
  exact Nat.lt_succ_self 100

theorem Linked.full_ops (h : Linked str L cal)
    (hfull : cal.opStack.stackCapacity = cal.opStack.stackElements.length) : 1000 < L.ops.length + 1 := by
  rw [← h.point.ops, ← hfull, h.opCapacity]
  exact Nat.lt_succ_self 1000

/-- A byte that is left is read. -/
theorem Linked.reads (h : Linked str L cal) (hnul : '\x00' ∉ str) (hrest : L.rest = c :: s) :
    Reads str cal.mathExp c s ∧ c ≠ '\x00' := by
  have hat := h.point
  rw [hrest] at hat
  refine ⟨hat.reads, ?_⟩
  rintro rfl
  exact hnul hat.reads.mem

theorem Linked.ended_or_reads (h : Linked str L cal) : charAt str cal.mathExp = '\x00' ∨ ∃ c s, L.rest = c :: s := by
  rcases reads_or_end str cal.mathExp with ⟨-, hchar⟩ | ⟨c, s, hreads⟩
  · exact .inl hchar
  · exact .inr ⟨c, s, h.point.drop.symm.trans hreads.drop⟩

theorem calcInit_linked (str : List Char) : ∃ cal : Calc V, calcInit = .ok cal ∧
    Linked str ⟨.waitForNum, str, [], ['#']⟩ cal ∧ potential str cal < 2 * str.length + 2 :=
  ⟨_, rfl, ⟨⟨rfl, rfl, rfl, rfl, rfl⟩, rfl, rfl⟩, Nat.lt_succ_self _⟩

variable [Zero V]

theorem calcOperation_capacity (h : calcOperation arith cal exitStatus = .ok (v, cal', exitStatus')) :
    SameCapacity cal cal' := by
  simp only [calcOperation, bind_eq_ok] at h
  obtain ⟨_, -, numStack₁, hpop₁, _, -, numStack₂, hpop₂, _, -, _, -, numStack₃, hpush, opStack, hpop, heq⟩ := h
  cases heq
  exact ⟨(stackPush_capacity hpush).trans ((stackPop_capacity hpop₂).trans (stackPop_capacity hpop₁)),
    stackPop_capacity hpop⟩

theorem reduceWhile_capacity {stays : Char → Bool} {turns : Nat} :
    ∀ {res : V} {cal : Calc V} {exitStatus : CalcStatus},
      reduceWhile arith stays turns res cal exitStatus = .ok (v, cal', exitStatus') → SameCapacity cal cal' := by
  induction turns with
  | zero =>
      intro res cal exitStatus h
      cases h
  | succ turns ih =>
      intro res cal exitStatus h
      simp only [reduceWhile, bind_eq_ok] at h
      obtain ⟨top, -, h⟩ := h
      split at h
      · obtain ⟨⟨res₁, cal₁, exitStatus₁⟩, hoperation, h⟩ := bind_eq_ok.mp h
        exact (calcOperation_capacity hoperation).trans (ih h)
      · cases h
        exact ⟨rfl, rfl⟩

theorem parantheses_capacity (h : parantheses arith str cal exitStatus = .ok (v, cal', exitStatus')) :
    SameCapacity cal cal' := by
  simp only [parantheses, bind_eq_ok] at h
  obtain ⟨_, -, ⟨res₁, cal₁, exitStatus₁⟩, hreduce, _, -, h⟩ := h
  have hcapacity := reduceWhile_capacity hreduce
  split at h
  · cases h
    exact hcapacity
  · obtain ⟨opStack, hpop, heq⟩ := bind_eq_ok.mp h
    cases heq
    exact hcapacity.trans ⟨rfl, stackPop_capacity hpop⟩

theorem correctOperator_capacity (h : correctOperator arith str cal exitStatus = .ok (v, cal', exitStatus')) :
    SameCapacity cal cal' := by
  simp only [correctOperator, bind_eq_ok] at h
  obtain ⟨_, -, h⟩ := h
  split at h
  · obtain ⟨opStack, hpush, heq⟩ := bind_eq_ok.mp h
    cases heq
    exact ⟨rfl, stackPush_capacity hpush⟩
  · obtain ⟨⟨res₁, cal₁, exitStatus₁⟩, hoperation, heq⟩ := bind_eq_ok.mp h
    have hcapacity := calcOperation_capacity hoperation
    cases heq
    exact ⟨hcapacity.numStack, hcapacity.opStack⟩

theorem MainFunc.call_capacity {func : MainFunc}
    (h : func.call arith str cal exitStatus = .ok (v, cal', exitStatus')) : SameCapacity cal cal' := by
  cases func with
  | notCorrectOperator =>
      cases h
      exact ⟨rfl, rfl⟩
  | endOfEx =>
      obtain ⟨_, -, h⟩ := bind_eq_ok.mp h
      exact reduceWhile_capacity h
  | correctOperator => exact correctOperator_capacity h
  | parantheses => exact parantheses_capacity h

theorem waitForNum_capacity (h : waitForNum strtod str cal = .ok (v, cal', exitStatus')) : SameCapacity cal cal' := by
  unfold waitForNum at h
  generalize getNum strtod str cal.mathExp = got at h
  obtain ⟨value, mathExp, bracket⟩ := got
  dsimp only at h
  split at h
  · cases h
    exact ⟨rfl, rfl⟩
  · split at h
    · obtain ⟨opStack, hpush, heq⟩ := bind_eq_ok.mp h
      cases heq
      exact ⟨rfl, stackPush_capacity hpush⟩
    · obtain ⟨numStack, hpush, heq⟩ := bind_eq_ok.mp h
      cases heq
      exact ⟨stackPush_capacity hpush, rfl⟩

theorem waitForOp_capacity (h : waitForOp arith str cal exitStatus = .ok (v, cal', exitStatus')) :
    SameCapacity cal cal' := by
  simp only [waitForOp, getOp, bind_eq_ok] at h
  obtain ⟨func, -, ⟨res₁, cal₁, exitStatus₁⟩, hcall, h⟩ := h
  have hcapacity := MainFunc.call_capacity hcall
  split at h <;> cases h <;> exact ⟨hcapacity.numStack, hcapacity.opStack⟩

/-- **No turn changes how large the stacks are.** -/
theorem stateLut_capacity (h : stateLut strtod arith str cal exitStatus = .ok (v, cal', exitStatus')) :
    SameCapacity cal cal' := by
  unfold stateLut at h
  split at h
  · exact waitForNum_capacity h
  · exact waitForOp_capacity h

/-! ## The loop and the reading -/

theorem GoesOn.linked (h : GoesOn strtod arith str cal exitStatus
      (At str · L'.state L'.rest L'.nums L'.ops (L'.ops.filterMap closing).length)) (hL : Linked str L cal) :
    GoesOn strtod arith str cal exitStatus (Linked str L') := by
  obtain ⟨v, cal', hturn, hpotential, hat⟩ := h
  have hcapacity := stateLut_capacity hturn
  exact ⟨v, cal', hturn, hpotential, hat, hcapacity.numStack.trans hL.numCapacity,
    hcapacity.opStack.trans hL.opCapacity⟩

/-- **A step is a turn**, or finds its stack full. -/
theorem Step.turn (h : Step strtod arith L L') (hL : Linked str L cal) (hnul : '\x00' ∉ str)
    (hstatus : L.state = .waitForOp → exitStatus = .success) :
    stateLut strtod arith str cal exitStatus = .error .full ∧ ¬ L'.Within ∨
      GoesOn strtod arith str cal exitStatus (Linked str L') := by
  have hat := hL.point
  cases h with
  | opening hclosing =>
      rcases opening_turn strtod arith exitStatus hat hclosing with ⟨hturn, hfull⟩ | hgoes
      · exact .inl ⟨hturn, fun hwithin => Nat.not_lt_of_le hwithin.2 (hL.full_ops hfull)⟩
      · refine .inr (GoesOn.linked ?_ hL)
        show GoesOn strtod arith str cal exitStatus (At str · _ _ _ (_ :: _) _)
        rw [List.filterMap_cons_some hclosing]
        exact hgoes
  | @number c s nums ops hnumber =>
      have hc : c ≠ '\x00' := by
        rintro rfl
        exact hnul hat.reads.mem
      rcases number_turn arith exitStatus hat hc hnumber with ⟨hturn, hfull⟩ | hgoes
      · exact .inl ⟨hturn, fun hwithin => Nat.not_lt_of_le hwithin.1 (hL.full_nums hfull)⟩
      · exact .inr (GoesOn.linked hgoes hL)
  | push ho hpushes =>
      obtain rfl := hstatus rfl
      rcases push_turn strtod arith hat ho hpushes with ⟨hturn, hfull⟩ | hgoes
      · exact .inl ⟨hturn, fun hwithin => Nat.not_lt_of_le hwithin.2 (hL.full_ops hfull)⟩
      · refine .inr (GoesOn.linked ?_ hL)
        show GoesOn strtod arith str cal .success (At str · _ _ _ (_ :: _) _)
        rw [filterMap_operator ho]
        exact hgoes
  | apply ho htop hpushes hvalue =>
      obtain rfl := hstatus rfl
      have hgoes := (apply_turn strtod arith hat ho htop hpushes).goes_on hvalue
      rw [filterMap_operator htop] at hgoes
      exact .inr (GoesOn.linked hgoes hL)
  | closing hclosing hwaiting hvalue =>
      obtain rfl := hstatus rfl
      have hgoes := (closing_turn strtod arith hat hclosing hwaiting).goes_on hvalue
      -- one bracket fewer is to come
      rw [filterMap_operators hwaiting, List.filterMap_cons_some hclosing, List.length_cons, Int.natCast_succ,
        Int.add_sub_cancel] at hgoes
      exact .inr (GoesOn.linked hgoes hL)

/-- **An operator that is due fails** in the turn. -/
theorem Fails.turn (strtod : Strtod V) (h : Fails arith L) (hL : Linked str L cal) :
    L.state = .waitForOp ∧ ∃ v cal', stateLut strtod arith str cal .success = .ok (v, cal', .mathError) := by
  have hat := hL.point
  cases h with
  | apply ho htop hpushes hnone => exact ⟨rfl, (apply_turn strtod arith hat ho htop hpushes).fails hnone⟩
  | closing hclosing hwaiting hnone => exact ⟨rfl, (closing_turn strtod arith hat hclosing hwaiting).fails hnone⟩

/-- **An error in the text** ends the loop with `SYNTAX_ERROR`, also where an operator failed in the same turn. -/
theorem Stuck.turn (arith : Arith V) (h : Stuck strtod L) (hL : Linked str L cal)
    (hstatus : L.state = .waitForOp → exitStatus = .success) :
    ∃ v cal', stateLut strtod arith str cal exitStatus = .ok (v, cal', .syntaxError) := by
  have hat := hL.point
  cases h with
  | number hclosing hzero =>
      have hstate : stateLut strtod arith str cal exitStatus = waitForNum strtod str cal := by
        unfold stateLut
        rw [hat.state]
      rw [hstate]
      unfold waitForNum
      simp only [getNum_number hat.reads hclosing, hzero, Nat.add_zero, true_or, if_true]
      exact ⟨_, _, rfl⟩
  | @closing o b c s v waiting nums ops hclosing hbracket hwaiting =>
      obtain rfl := hstatus rfl
      have hlut : mainFuncLut (charAt str cal.mathExp) = .ok .parantheses := by
        rw [hat.reads.charAt]
        rcases closing_eq_some.mp hclosing with ⟨-, rfl⟩ | ⟨-, rfl⟩ | ⟨-, rfl⟩ <;> rfl
      have hopen : o = '#' ∨ ∃ d, Calculator.closing o = some d := hbracket.imp_right (fun ⟨d, hd, _⟩ => ⟨d, hd⟩)
      have hmismatch : o = '#' ∨ operatorsLut c ≠ o.toNat := by
        rcases hbracket with rfl | ⟨d, hd, hne⟩
        · exact .inl rfl
        · exact .inr (fun hlut => hne ((operatorsLut_eq_iff hclosing hd).mp hlut))
      obtain ⟨v', cal', heq, -⟩ := parantheses_waiting arith hat hopen hwaiting
      rw [if_pos hmismatch] at heq
      exact ⟨_, _, stateLut_waitForOp strtod hat.state hlut heq⟩
  | other hnul hlt hoperator hclosing =>
      obtain rfl := hstatus rfl
      have hlut : mainFuncLut (charAt str cal.mathExp) = .ok .notCorrectOperator := by
        rw [hat.reads.charAt]
        rcases mainFuncLut_cases hlt hnul with ⟨ho, -⟩ | ⟨o, hsome, -⟩ | ⟨-, -, hlut⟩
        · exact absurd ho hoperator
        · exact absurd hsome (hclosing o)
        · exact hlut
      exact ⟨_, _, stateLut_waitForOp strtod hat.state hlut rfl⟩

/-- A byte from 128 on is in front of the table. -/
theorem high_turn (strtod : Strtod V) (arith : Arith V) (exitStatus : CalcStatus) (hL : Linked str L cal)
    (hrest : L.rest = c :: s) (hstate : L.state = .waitForOp) (hhigh : 128 ≤ c.toNat) :
    stateLut strtod arith str cal exitStatus = .error .index := by
  have hat := hL.point
  rw [hrest] at hat
  unfold stateLut
  rw [hat.state, hstate]
  show waitForOp arith str cal exitStatus = _
  simp only [waitForOp, getOp, hat.reads.charAt, mainFuncLut, if_pos hhigh, bind, Except.bind]

/-- **What a turn does**, for each thing that the reading may do. -/
theorem stateLut_cases (strtod : Strtod V) (arith : Arith V) (hL : Linked str L cal) (hbalanced : L.Balanced)
    (hnul : '\x00' ∉ str) (hrest : L.rest = c :: s) (hstatus : L.state = .waitForOp → exitStatus = .success) :
    (∃ L', Step strtod arith L L' ∧ (stateLut strtod arith str cal exitStatus = .error .full ∧ ¬ L'.Within ∨
        GoesOn strtod arith str cal exitStatus (Linked str L'))) ∨
      (Fails arith L ∧ ∃ v cal', stateLut strtod arith str cal exitStatus = .ok (v, cal', .mathError)) ∨
      (Stuck strtod L ∧ ∃ v cal', stateLut strtod arith str cal exitStatus = .ok (v, cal', .syntaxError)) ∨
      (L.state = .waitForOp ∧ 128 ≤ c.toNat ∧ stateLut strtod arith str cal exitStatus = .error .index) := by
  obtain ⟨-, hc⟩ := hL.reads hnul hrest
  rcases Reading.progress strtod arith hbalanced hrest hc with ⟨L', hstep⟩ | hfails | hstuck | ⟨hstate, hhigh⟩
  · exact .inl ⟨L', hstep, hstep.turn hL hnul hstatus⟩
  · obtain ⟨hstate, hturn⟩ := hfails.turn strtod hL
    rw [hstatus hstate]
    exact .inr (.inl ⟨hfails, hturn⟩)
  · exact .inr (.inr (.inl ⟨hstuck, hstuck.turn arith hL hstatus⟩))
  · exact .inr (.inr (.inr ⟨hstate, hhigh, high_turn strtod arith exitStatus hL hrest hstate hhigh⟩))

/-- **At the end of the text** a reading that is not accepted ends with `SYNTAX_ERROR`, and any other with a value. -/
theorem calcLoop_ended (strtod : Strtod V) (arith : Arith V) (fuel : Nat) (hL : Linked str L cal)
    (hbalanced : L.Balanced) (hrest : L.rest = []) (hstatus : L.state = .waitForOp → exitStatus = .success) :
    ∃ res final, calcLoop strtod arith str (fuel + 1) cal exitStatus = some (.ok (res, final)) ∧
      (¬ L.Accepted strtod → final = .syntaxError) := by
  obtain ⟨state, rest, nums, ops⟩ := L
  obtain rfl : rest = [] := hrest
  obtain ⟨n, hstacked, hlength⟩ := hbalanced
  have hat := hL.point
  have hchar : charAt str cal.mathExp = '\x00' := by
    rcases hL.ended_or_reads with hchar | ⟨c, s, hcons⟩
    · exact hchar
    · cases hcons
  by_cases hcounter : cal.paranthesesCounter = 0
  · cases state with
    | waitForNum =>
        refine ⟨0, .syntaxError, ?_, fun _ => rfl⟩
        unfold calcLoop
        rw [if_neg (not_not.mpr hchar), if_neg (not_not.mpr hcounter)]
        unfold stateLut
        rw [hat.state]
        simp only [waitForNum, hchar, or_true, if_true]
        rfl
    | waitForOp =>
        obtain rfl := hstatus rfl
        -- no bracket is open, so all the operators wait
        have hnil : ops.filterMap closing = [] := by
          have hzero := hat.counter.symm.trans hcounter
          exact List.length_eq_zero_iff.mp (Int.natCast_eq_zero.mp hzero)
        obtain ⟨v, waiting, rfl, rfl, hwaiting⟩ := hstacked.split_end hlength hnil
        have hat' : At str cal .waitForOp [] (v :: waiting.map Prod.fst) (waiting.map Prod.snd ++ ['#']) 0 :=
          ⟨hat.state, hat.drop, hat.nums, hat.ops, hcounter⟩
        obtain ⟨res, hend, -⟩ := calcLoop_end strtod arith fuel hat' hwaiting
        refine ⟨res, _, hend, fun hnot => absurd ?_ hnot⟩
        unfold Reading.Accepted
        rw [hnil]
        exact .done
  · refine ⟨0, .syntaxError, ?_, fun _ => rfl⟩
    unfold calcLoop
    rw [if_neg (not_not.mpr hchar), if_pos hcounter]

/-! ## When the call is safe -/

/-- The states between the turns of a call. -/
def turns (strtod : Strtod V) (arith : Arith V) (str : List Char) : System (Calc V) Unit where
  init cal := calcInit = .ok cal
  step cal _ cal' := charAt str cal.mathExp ≠ '\x00' ∧
    ∃ v, stateLut strtod arith str cal .success = .ok (v, cal', .success)

/-- **The call is safe**: it returns, with `SYNTAX_ERROR` if the text is not in the language, and the bytes on the
    operator stack, which are looked up, are entries of the tables. -/
structure Safe (strtod : Strtod V) (arith : Arith V) (str : List Char) : Prop where
  returns (fuel : Nat) (exitStatus : CalcStatus) : 2 * str.length + 2 ≤ fuel →
    ∃ res final, calculate strtod arith fuel str exitStatus = some (.ok (res, final)) ∧
      (¬ Language (lexicon strtod) str → final = .syntaxError)
  tables {cal : Calc V} : (turns strtod arith str).Reachable System.Any cal →
    ∀ o ∈ cal.opStack.stackElements, o.toNat ≤ 127

/-- **The loop returns** from any reading that is handled. -/
theorem Handled.calcLoop_returns (h : Handled strtod arith str) (hnul : '\x00' ∉ str) :
    ∀ {fuel : Nat} {L : Reading V} {cal : Calc V} {exitStatus : CalcStatus},
      (readings strtod arith str).Reachable System.Any L → Linked str L cal → potential str cal < fuel →
      (L.state = .waitForOp → exitStatus = .success) →
      ∃ res final, calcLoop strtod arith str fuel cal exitStatus = some (.ok (res, final)) ∧
        (¬ Language (lexicon strtod) str → final = .syntaxError) := by
  intro fuel
  induction fuel with
  | zero => exact fun _ _ hfuel => absurd hfuel (Nat.not_lt_zero _)
  | succ fuel ih =>
      intro L cal exitStatus hreach hL hfuel hstatus
      have hbalanced := readings_balanced hreach
      have haccepted := readings_accepted hreach
      cases hrest : L.rest with
      | nil =>
          rw [← haccepted]
          exact calcLoop_ended strtod arith fuel hL hbalanced hrest hstatus
      | cons c s =>
          obtain ⟨hreads, hc⟩ := hL.reads hnul hrest
          rcases stateLut_cases strtod arith hL hbalanced hnul hrest hstatus with
            ⟨L', hstep, ⟨-, hfull⟩ | ⟨v, cal', hturn, hpotential, hL'⟩⟩ | ⟨hfails, v, cal', hturn⟩ |
            ⟨hstuck, v, cal', hturn⟩ | ⟨hstate, hhigh, -⟩
          · exact absurd (h.within (hreach.step (a := ()) trivial hstep)) hfull
          · rw [calcLoop_goes_on hc hreads hturn]
            exact ih (hreach.step (a := ()) trivial hstep) hL' (by omega) (fun _ => rfl)
          · have hne : CalcStatus.mathError ≠ .success := by decide
            exact ⟨0, .mathError, calcLoop_fails hc hreads hturn hne,
              fun hnot => absurd hfails (h.failures hnot hreach)⟩
          · have hne : CalcStatus.syntaxError ≠ .success := by decide
            exact ⟨0, .syntaxError, calcLoop_fails hc hreads hturn hne, fun _ => rfl⟩
          · exact absurd (h.bytes hreach hstate hrest) (Nat.not_le_of_lt hhigh)

/-- **Each state between two turns** is linked to a reading. -/
theorem turns_linked (hnul : '\x00' ∉ str) (h : (turns strtod arith str).Reachable System.Any cal) :
    ∃ L : Reading V, L.Balanced ∧ Linked str L cal := by
  induction h with
  | init hinit =>
      obtain ⟨cal', hinit', hL, -⟩ := calcInit_linked (V := V) str
      obtain rfl := Except.ok.inj (hinit'.symm.trans hinit)
      exact ⟨_, ⟨0, .bottom, rfl⟩, hL⟩
  | step _ _ hstep ih =>
      obtain ⟨L, hbalanced, hL⟩ := ih
      obtain ⟨hchar, v, hturn⟩ := hstep
      rcases hL.ended_or_reads with hnil | ⟨c, s, hrest⟩
      · exact absurd hnil hchar
      · have hstatus : L.state = .waitForOp → CalcStatus.success = .success := fun _ => rfl
        rcases stateLut_cases strtod arith hL hbalanced hnul hrest hstatus with
          ⟨L', hstep, ⟨hfull, -⟩ | ⟨v', cal'', hturn', -, hL'⟩⟩ | ⟨-, v', cal'', hturn'⟩ | ⟨-, v', cal'', hturn'⟩ |
          ⟨-, -, hindex⟩
        · rw [hturn] at hfull
          cases hfull
        · rw [hturn] at hturn'
          cases hturn'
          exact ⟨L', hstep.balanced hbalanced, hL'⟩
        · rw [hturn] at hturn'
          cases hturn'
        · rw [hturn] at hturn'
          cases hturn'
        · rw [hturn] at hindex
          cases hindex

/-- **The bytes that are looked up** are operators, brackets or the `#`. -/
theorem turns_tables (hnul : '\x00' ∉ str) (h : (turns strtod arith str).Reachable System.Any cal) :
    ∀ o ∈ cal.opStack.stackElements, o.toNat ≤ 127 := by
  obtain ⟨L, ⟨n, hstacked, -⟩, hL⟩ := turns_linked hnul h
  rw [hL.point.ops]
  intro o ho
  rcases hstacked.mem_cases o ho with rfl | hoperator | ⟨c, hclosing⟩
  · decide
  · simp only [IsOperator, List.mem_cons, List.not_mem_nil, or_false] at hoperator
    rcases hoperator with rfl | rfl | rfl | rfl | rfl <;> decide
  · rcases opening_of_closing hclosing with rfl | rfl | rfl <;> decide

/-- **A call that is safe** comes to each of the readings. -/
theorem Safe.reaches (h : Safe strtod arith str) (hnul : '\x00' ∉ str)
    (hreach : (readings strtod arith str).Reachable System.Any L) :
    ∃ fuel cal, Linked str L cal ∧ potential str cal < fuel ∧
      calculate strtod arith (2 * str.length + 2) str .success = calcLoop strtod arith str fuel cal .success := by
  induction hreach with
  | init hinit =>
      obtain rfl := hinit
      obtain ⟨cal, hcal, hL, hpotential⟩ := calcInit_linked (V := V) str
      refine ⟨_, cal, hL, hpotential, ?_⟩
      unfold calculate
      rw [hcal]
  | @step L L' _ _ _ hstep ih =>
      obtain ⟨fuel, cal, hL, hfuel, heq⟩ := ih
      obtain ⟨fuel, rfl⟩ : ∃ n, fuel = n + 1 := ⟨fuel - 1, by omega⟩
      obtain ⟨c, s, hrest⟩ := Step.rest hstep
      obtain ⟨hreads, hc⟩ := hL.reads hnul hrest
      rcases Step.turn hstep hL hnul (fun _ => rfl) with ⟨hfull, -⟩ | ⟨v, cal', hturn, hpotential, hL'⟩
      · -- a call that is safe meets no full stack
        obtain ⟨res, final, hreturns, -⟩ := h.returns _ .success (Nat.le_refl _)
        rw [heq, calcLoop_error hc hreads hfull] at hreturns
        cases hreturns
      · exact ⟨fuel, cal', hL', by omega, heq.trans (calcLoop_goes_on hc hreads hturn)⟩

theorem Safe.handled (h : Safe strtod arith str) (hnul : '\x00' ∉ str) : Handled strtod arith str where
  within hreach := by
    obtain ⟨_, _, hL, -⟩ := h.reaches hnul hreach
    exact hL.within
  bytes := by
    intro L c s hreach hstate hrest
    obtain ⟨fuel, cal, hL, hfuel, heq⟩ := h.reaches hnul hreach
    obtain ⟨fuel, rfl⟩ : ∃ n, fuel = n + 1 := ⟨fuel - 1, by omega⟩
    obtain ⟨hreads, hc⟩ := hL.reads hnul hrest
    by_contra hhigh
    have hturn := high_turn strtod arith .success hL hrest hstate (Nat.lt_of_not_le hhigh)
    obtain ⟨res, final, hreturns, -⟩ := h.returns _ .success (Nat.le_refl _)
    rw [heq, calcLoop_error hc hreads hturn] at hreturns
    cases hreturns
  failures := by
    intro L hnot hreach hfails
    obtain ⟨fuel, cal, hL, hfuel, heq⟩ := h.reaches hnul hreach
    obtain ⟨fuel, rfl⟩ : ∃ n, fuel = n + 1 := ⟨fuel - 1, by omega⟩
    obtain ⟨c, s, hrest⟩ := hfails.rest
    obtain ⟨hreads, hc⟩ := hL.reads hnul hrest
    obtain ⟨-, v, cal', hturn⟩ := hfails.turn strtod hL
    have hne : CalcStatus.mathError ≠ .success := by decide
    obtain ⟨res, final, hreturns, hfinal⟩ := h.returns _ .success (Nat.le_refl _)
    obtain rfl := hfinal hnot
    rw [heq, calcLoop_fails hc hreads hturn hne] at hreturns
    cases hreturns

/-- **When the call is safe**: exactly when the reading of the text is handled. -/
theorem calculate_safe_iff (hbytes : ByteText str) : Safe strtod arith str ↔ Handled strtod arith str := by
  have hnul := hbytes.no_nul
  constructor
  · exact fun h => h.handled hnul
  · intro h
    refine ⟨?_, turns_tables hnul⟩
    intro fuel exitStatus hfuel
    obtain ⟨cal, hinit, hL, hpotential⟩ := calcInit_linked (V := V) str
    have heq : calculate strtod arith fuel str exitStatus = calcLoop strtod arith str fuel cal exitStatus := by
      unfold calculate
      rw [hinit]
    rw [heq]
    refine h.calcLoop_returns hnul (.init rfl) hL (Nat.lt_of_lt_of_le hpotential hfuel) ?_
    intro hstate
    cases hstate

/-- A number is read, and the text ends. -/
theorem calculate_safe_iff_number : @Safe Nat ⟨0⟩ sampleStrtod sampleArith ['1'] := by
  have hbytes : ByteText ['1'] := by
    intro c hc
    obtain rfl := List.mem_singleton.mp hc
    decide
  have hreadings : ∀ L, (readings sampleStrtod sampleArith ['1']).Reachable System.Any L →
      L = ⟨.waitForNum, ['1'], [], ['#']⟩ ∨ L = ⟨.waitForOp, [], [1], ['#']⟩ := by
    intro L hreach
    induction hreach with
    | init hinit => exact .inl hinit
    | step _ _ hstep ih =>
        rcases ih with rfl | rfl
        · cases hstep with
          | opening hclosing => cases hclosing
          | number _ => exact .inr rfl
        · obtain ⟨c, s, hrest⟩ := Step.rest hstep
          cases hrest
  refine (@calculate_safe_iff Nat sampleStrtod sampleArith ['1'] ⟨0⟩ hbytes).mpr ⟨?_, ?_, ?_⟩
  · intro L hreach
    rcases hreadings L hreach with rfl | rfl <;> exact ⟨by decide, by decide⟩
  · intro L c s hreach hstate hrest
    rcases hreadings L hreach with rfl | rfl
    · cases hstate
    · cases hrest
  · intro L _ hreach hfails
    rcases hreadings L hreach with rfl | rfl
    · cases hfails
    · obtain ⟨c, s, hrest⟩ := hfails.rest
      cases hrest

/-- The text is `1` and a byte that is negative as a `char`. -/
def negativeText : List Char := ['1', '\x80']

theorem calculate_not_safe_negative : ¬ @Safe Nat ⟨0⟩ sampleStrtod sampleArith negativeText := by
  intro h
  obtain ⟨res, final, hreturns, -⟩ := h.returns 6 .success (Nat.le_refl _)
  have hindex : @calculate Nat ⟨0⟩ sampleStrtod sampleArith 6 negativeText .success = some (.error .index) := rfl
  rw [hindex] at hreturns
  cases hreturns

end Workbench.Calculator
