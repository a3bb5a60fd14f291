import Workbench.Calc.Turns

/-!
# `Calc.Evaluates` — the value of an expression

After a phrase of some level the machine holds a number, and operators of that level or above that still wait; applied
from the top down they give the value of the phrase.

## Main results
* `Parses.runs` — a phrase is read, by induction on how it is built;
* `calculate_value` — the result is the value of the expression, or `MATH_ERROR`.
-/

namespace Workbench.Calculator

open Bracketed

variable {V : Type} {strtod : Strtod V} {arith : Arith V} {str s t u : List Char} {o : Char} {p : Nat}

/-- `e` is what the text says, with the numbers that `strtod` reads. -/
def Reference (strtod : Strtod V) (str : List Char) (e : Expr Char V) : Prop :=
  Parses (lexicon strtod) (fun s => (strtod.scan s).2) calcPrecedence 0 str e []

/-- The operators that wait are of the level or above. -/
def Waits (p : Nat) (waiting : List (V × Char)) : Prop :=
  ∀ w ∈ waiting, IsOperator w.2 ∧ p ≤ calcPrecedence.priority w.2

variable [Zero V]

/-! ## Phrases -/

/-- **A phrase is read**: what waits after it is of its level, and gives its value. -/
def Runs (strtod : Strtod V) (arith : Arith V) (str : List Char) (p : Nat) (s : List Char) (e : Expr Char V)
    (t : List Char) : Prop :=
  ∀ {fuel : Nat} {cal : Calc V} {exitStatus : CalcStatus} {nums : List V} {top : Char} {ops : List Char}
    {counter : Int}, At str cal .waitForNum s nums (top :: ops) counter → Admits p top → potential str cal < fuel →
    Leads strtod arith str fuel cal exitStatus (e.eval (operatorFunc arith)) (fun cal' => ∃ v waiting,
      At str cal' .waitForOp t (v :: waiting.map Prod.fst ++ nums) (waiting.map Prod.snd ++ top :: ops) counter ∧
      collapse (operatorFunc arith) waiting v = e.eval (operatorFunc arith) ∧ Waits p waiting)

/-- Two phrases with an operator between them, which is read when nothing of its level waits. -/
theorem Runs.operator {q r : Nat} {left right : Expr Char V} (hseven : SevenBit str) (ho : IsOperator o)
    (hleft : Runs strtod arith str q s left (o :: t)) (hright : Runs strtod arith str r t right u)
    (hq : calcPrecedence.priority o ≤ q) (hr : calcPrecedence.priority o ≤ r)
    (happlied : ∀ w, IsOperator w → q ≤ calcPrecedence.priority w → ¬ Pushes w o) (hadmits : Admits r o) :
    Runs strtod arith str (calcPrecedence.priority o) s (.apply o left right) u := by
  intro fuel cal exitStatus nums top ops counter h htop hfuel
  have hpushes : Pushes top o := htop o ho (Nat.le_refl _)
  refine (hleft h (htop.mono hq) hfuel).trans ?_ ?_
  · intro hnone
    simp only [Expr.eval, hnone, bind, Option.bind]
  rintro fuel₁ cal₁ ⟨v, waiting, hat, hcollapse, hwaits⟩ hfuel₁
  -- the first operand gets its value
  refine (waiting_leads hseven ho hat
    (fun w hw => ⟨(hwaits w hw).1, happlied w.2 (hwaits w hw).1 (hwaits w hw).2⟩) hfuel₁).trans ?_ ?_
  · intro hnone
    rw [hcollapse] at hnone
    simp only [Expr.eval, hnone, bind, Option.bind]
  rintro fuel₂ cal₂ ⟨left', hvalue, hat₂⟩ hfuel₂
  rw [hcollapse] at hvalue
  refine (push_leads ((Expr.apply o left right).eval (operatorFunc arith)) hseven hat₂ ho hpushes hfuel₂).trans id ?_
  intro fuel₃ cal₃ hat₃ hfuel₃
  -- the operator waits below all that waits in the second operand
  refine (hright hat₃ hadmits hfuel₃).trans ?_ ?_
  · intro hnone
    simp only [Expr.eval, hvalue, hnone, bind, Option.bind]
  rintro fuel₄ cal₄ ⟨v', waiting', hat₄, hcollapse', hwaits'⟩ hfuel₄
  refine .inr (.inr ⟨fuel₄, cal₄, ⟨v', waiting' ++ [(left', o)], ?_, ?_, ?_⟩, hfuel₄, rfl⟩)
  · simpa using hat₄
  · rw [collapse_append, hcollapse']
    simp only [Expr.eval, hvalue, bind, Option.bind]
    cases right.eval (operatorFunc arith) with
    | none => rfl
    | some right' =>
        simp only [collapse]
        cases operatorFunc arith o left' right' <;> rfl
  · intro w hw
    rcases List.mem_append.mp hw with hw | hw
    · exact ⟨(hwaits' w hw).1, Nat.le_trans hr (hwaits' w hw).2⟩
    · obtain rfl := List.mem_singleton.mp hw
      exact ⟨ho, Nat.le_refl _⟩

/-- **Phrases are read**, by induction on how they are built. -/
theorem Parses.runs (hseven : SevenBit str) {e : Expr Char V}
    (h : Parses (lexicon strtod) (fun s => (strtod.scan s).2) calcPrecedence p s e t) :
    Runs strtod arith str p s e t := by
  induction h with
  | @number p s hpos =>
      intro fuel cal exitStatus nums top ops counter h htop hfuel
      let value := (Expr.number ((strtod.scan s).2)).eval (operatorFunc arith)
      refine (number_leads value hseven h hpos hfuel).trans id ?_
      intro fuel' cal' hat hfuel'
      exact .inr (.inr ⟨fuel', cal', ⟨_, [], hat, rfl, fun w hw => absurd hw List.not_mem_nil⟩, hfuel', rfl⟩)
  | @bracket p o c s t e hclosing _ ih =>
      intro fuel cal exitStatus nums top ops counter h htop hfuel
      refine (opening_leads (e.eval (operatorFunc arith)) hseven h hclosing hfuel).trans id ?_
      intro fuel₁ cal₁ hat hfuel₁
      -- inside, any operator may come first
      refine (ih hat (admits_bracket (.inr ⟨c, hclosing⟩)) hfuel₁).trans id ?_
      rintro fuel₂ cal₂ ⟨v, waiting, hat₂, hcollapse, hwaits⟩ hfuel₂
      refine (closing_leads hseven hat₂ hclosing (fun w hw => (hwaits w hw).1) hfuel₂).trans ?_ ?_
      · intro hnone
        rw [← hcollapse, hnone]
      rintro fuel₃ cal₃ ⟨v', hvalue, hat₃⟩ hfuel₃
      rw [Int.add_sub_cancel] at hat₃
      refine .inr (.inr ⟨fuel₃, cal₃, ⟨v', [], hat₃, ?_, fun w hw => absurd hw List.not_mem_nil⟩, hfuel₃, rfl⟩)
      rw [← hcollapse, hvalue]
      rfl
  | tighter _ ih =>
      intro fuel cal exitStatus nums top ops counter h htop hfuel
      refine (ih h (htop.mono (Nat.le_succ _)) hfuel).trans id ?_
      rintro fuel' cal' ⟨v, waiting, hat, hcollapse, hwaits⟩ hfuel'
      exact .inr (.inr ⟨fuel', cal', ⟨v, waiting, hat, hcollapse,
        fun w hw => ⟨(hwaits w hw).1, Nat.le_of_succ_le (hwaits w hw).2⟩⟩, hfuel', rfl⟩)
  | left ho hpriority hleft _ _ ihl ihr =>
      obtain rfl := hpriority
      refine Runs.operator hseven ho ihl ihr (Nat.le_refl _) (Nat.le_succ _) ?_ (admits_left ho)
      -- an operator of the level that waits is applied: none is pushed on it but a second `^`
      intro w hw hle hpushes
      rcases (pushes_iff ho hw).mp hpushes with hlt | ⟨rfl, -⟩
      · exact absurd hlt (Nat.not_lt_of_le hle)
      · exact hleft rfl
  | right ho hpriority hright _ _ ihl ihr =>
      obtain rfl := hpriority
      refine Runs.operator hseven ho ihl ihr (Nat.le_succ _) (Nat.le_refl _) ?_ (admits_right ho hright)
      intro w hw hlt hpushes
      rcases (pushes_iff ho hw).mp hpushes with hlt' | ⟨rfl, rfl⟩
      · exact absurd hlt' (Nat.not_lt_of_lt hlt)
      · exact absurd hlt (Nat.lt_irrefl _)

/-! ## The call -/

omit [Zero V] in
theorem calcInit_at (str : List Char) : ∃ cal : Calc V, calcInit = .ok cal ∧
    At str cal .waitForNum str [] ['#'] 0 ∧ potential str cal < 2 * str.length + 2 :=
  ⟨_, rfl, ⟨rfl, rfl, rfl, rfl, rfl⟩, Nat.lt_succ_self _⟩

/-- **The result** is the value of the expression, with `SUCCESS`, and `MATH_ERROR` if and only if an operator of it
    fails; each text of the language says an expression. -/
theorem calculate_value (hseven : SevenBit str) (hlanguage : Language (lexicon strtod) str) {fuel : Nat}
    (hfuel : 2 * str.length + 2 ≤ fuel) (exitStatus : CalcStatus) (hfits : Fits strtod arith fuel str exitStatus) :
    (∃ e, Reference strtod str e) ∧
      ∀ e, Reference strtod str e → ∃ res final, calculate strtod arith fuel str exitStatus = some (.ok (res, final)) ∧
        (final = .mathError ↔ e.eval (operatorFunc arith) = none) ∧
        ∀ v, e.eval (operatorFunc arith) = some v → res = v ∧ final = .success := by
  refine ⟨Derives.parses hlanguage, ?_⟩
  intro e he
  obtain ⟨cal, hinit, hat, hpotential⟩ := calcInit_at str
  have heq : calculate strtod arith fuel str exitStatus = calcLoop strtod arith str fuel cal exitStatus := by
    unfold calculate
    rw [hinit]
  have hruns : Leads strtod arith str fuel cal exitStatus _ _ :=
    Parses.runs hseven he hat (admits_bracket (.inl rfl)) (Nat.lt_of_lt_of_le hpotential hfuel)
  unfold Fits at hfits
  rw [heq] at hfits
  rcases hruns with hfull | ⟨hnone, hmath⟩ | ⟨fuel', cal', ⟨v, waiting, hat', hcollapse, hwaits⟩, hfuel', heq'⟩
  · exact absurd hfull hfits
  · refine ⟨_, _, heq.trans hmath, ⟨fun _ => hnone, fun _ => rfl⟩, ?_⟩
    intro v hv
    rw [hv] at hnone
    cases hnone
  · obtain ⟨fuel', rfl⟩ : ∃ n, fuel' = n + 1 := ⟨fuel' - 1, by omega⟩
    obtain ⟨res, hend, hvalue⟩ := calcLoop_end strtod arith fuel' (by simpa using hat') (fun w hw => (hwaits w hw).1)
    rw [hcollapse] at hend hvalue
    refine ⟨res, _, heq.trans (heq'.trans hend), ?_, ?_⟩
    · unfold statusAfter
      cases e.eval (operatorFunc arith) with
      | none => simp
      | some v => simp
    · intro v hv
      refine ⟨hvalue v hv, ?_⟩
      rw [hv]
      rfl

theorem calculate_value_sample :
    ∃ e, Reference sampleStrtod sampleText e ∧ e.eval (operatorFunc sampleArith) = some 1296 := by
  have hall : sampleText.all (fun c => decide (1 ≤ c.toNat ∧ c.toNat ≤ 127)) = true := rfl
  have hseven : SevenBit sampleText := fun c hc => of_decide_eq_true (List.all_eq_true.mp hall c hc)
  have hresult : @calculate Nat ⟨0⟩ sampleStrtod sampleArith 26 sampleText .success = some (.ok (1296, .success)) := by
    rfl
  have hnever : sampleArith.NeverFails :=
    ⟨fun _ _ => rfl, fun _ _ => rfl, fun _ _ => rfl, fun _ _ => rfl, fun _ _ => rfl⟩
  have hends := @calculate_ends Nat sampleStrtod sampleArith sampleText ⟨0⟩ hseven hnever 26 (Nat.le_refl _) .success
  rw [hresult] at hends
  have hlanguage : Language (lexicon sampleStrtod) sampleText := by
    cases hends with
    | success h => exact h
  have hfits : @Fits Nat ⟨0⟩ sampleStrtod sampleArith 26 sampleText .success := by
    unfold Fits
    rw [hresult]
    intro hfull
    cases hfull
  obtain ⟨⟨e, he⟩, hvalue⟩ := calculate_value hseven hlanguage (Nat.le_refl _) .success hfits
  obtain ⟨res, final, heq, hmath, hsome⟩ := hvalue e he
  obtain ⟨rfl, rfl⟩ : 1296 = res ∧ CalcStatus.success = final := by
    have hsame := hresult.symm.trans heq
    simpa using hsame
  refine ⟨e, he, ?_⟩
  cases heval : e.eval (operatorFunc sampleArith) with
  | none => exact absurd (hmath.mpr heval) (by decide)
  | some v => rw [(hsome v heval).1]

end Workbench.Calculator
