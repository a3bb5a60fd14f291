import Mathlib.Tactic.Common

/-!
# `Lib.Bracketed` — expressions with operators and brackets

Numbers are read where an operand is expected, as many symbols as the number takes; any other token is one symbol. The
grammar derives an expression from the front of a text and leaves the rest. The acceptor has two states and a stack of
the closing brackets it waits for.

## Main results
* `Derives.accepts`, `Accepts.derives` — the two directions, each by induction over its own derivations;
* `accepts_iff_language` — the acceptor accepts the language of the grammar;
* `accepts_operand_opening` and the lemmas after it — one symbol of the acceptor.
-/

namespace Workbench.Bracketed

variable {κ : Type}

/-- The tokens. No number starts with an opening bracket, and no operator is a closing bracket. -/
structure Lexicon (κ : Type) where
  /-- How many symbols the number at the front takes: 0 if there is none. -/
  number : List κ → Nat
  isOperator : κ → Prop
  /-- The closing bracket of an opening bracket. -/
  closing : κ → Option κ
  number_le (s : List κ) : number s ≤ s.length
  number_opening {o c : κ} (s : List κ) : closing o = some c → number (o :: s) = 0
  operator_closing {o c : κ} : closing o = some c → ¬ isOperator c

/-! ## The grammar -/

inductive Nonterminal
  | expression
  | term

/-- `E ::= T (op T)*` and `T ::= number | open E close`: what is derived from the first text, up to the second. -/
inductive Derives (L : Lexicon κ) : Nonterminal → List κ → List κ → Prop
  | number {s : List κ} : 0 < L.number s → Derives L .term s (s.drop (L.number s))
  | bracket {o c : κ} {s t : List κ} : L.closing o = some c → Derives L .expression s (c :: t) →
      Derives L .term (o :: s) t
  | term {s t : List κ} : Derives L .term s t → Derives L .expression s t
  | operator {o : κ} {s t u : List κ} : Derives L .term s (o :: t) → L.isOperator o → Derives L .expression t u →
      Derives L .expression s u

/-- The texts that are an expression. -/
def Language (L : Lexicon κ) (s : List κ) : Prop := Derives L .expression s []

/-! ## The acceptor -/

/-- What is expected next. -/
inductive Expects
  | operand
  | operator
  deriving DecidableEq

/-- The rest of the text is accepted, with closing brackets to come: the innermost is first. -/
inductive Accepts (L : Lexicon κ) : Expects → List κ → List κ → Prop
  | opening {o c : κ} {β s : List κ} : L.closing o = some c → Accepts L .operand (c :: β) s →
      Accepts L .operand β (o :: s)
  | number {β s : List κ} : 0 < L.number s → Accepts L .operator β (s.drop (L.number s)) → Accepts L .operand β s
  | operator {o : κ} {β s : List κ} : L.isOperator o → Accepts L .operand β s → Accepts L .operator β (o :: s)
  | closing {c : κ} {β s : List κ} : Accepts L .operator β s → Accepts L .operator (c :: β) (c :: s)
  | done : Accepts L .operator [] []

variable {L : Lexicon κ} {o c : κ} {β s t : List κ}

/-- **Derivations are accepted**, if the rest is. -/
theorem Derives.accepts {N : Nonterminal} (h : Derives L N s t) :
    ∀ {β : List κ}, Accepts L .operator β t → Accepts L .operand β s := by
  induction h with
  | number hpos => exact fun hafter => .number hpos hafter
  | bracket hclosing _ ih => exact fun hafter => .opening hclosing (ih (.closing hafter))
  | term _ ih => exact ih
  | operator _ hoperator _ ihterm ihrest => exact fun hafter => ihterm (.operator hoperator (ihrest hafter))

/-- What may follow a term in an expression. -/
def Follows (L : Lexicon κ) (s t : List κ) : Prop :=
  s = t ∨ ∃ o s', s = o :: s' ∧ L.isOperator o ∧ Derives L .expression s' t

theorem Derives.follows {u : List κ} (h : Derives L .term s t) (hfollows : Follows L t u) :
    Derives L .expression s u := by
  rcases hfollows with rfl | ⟨o, t', rfl, hoperator, hrest⟩
  · exact .term h
  · exact .operator h hoperator hrest

/-- The closing brackets come one after the other, each with what may follow the term that it ends. -/
def Closes (L : Lexicon κ) : List κ → List κ → Prop
  | [], t => t = []
  | c :: β, t => ∃ t' u, t = c :: t' ∧ Follows L t' u ∧ Closes L β u

/-- What is accepted is derived up to the closing brackets. -/
def Derived (L : Lexicon κ) : Expects → List κ → List κ → Prop
  | .operand, β, s => ∃ t, Derives L .expression s t ∧ Closes L β t
  | .operator, β, s => ∃ t, Follows L s t ∧ Closes L β t

/-- **What is accepted is derived.** -/
theorem Accepts.derives {x : Expects} (h : Accepts L x β s) : Derived L x β s := by
  induction h with
  | opening hclosing _ ih =>
      -- the expression ends at the bracket, and the term that it ends may go on
      obtain ⟨_, hexpression, t, u, rfl, hfollows, hcloses⟩ := ih
      exact ⟨u, (Derives.bracket hclosing hexpression).follows hfollows, hcloses⟩
  | number hpos _ ih =>
      obtain ⟨t, hfollows, hcloses⟩ := ih
      exact ⟨t, (Derives.number hpos).follows hfollows, hcloses⟩
  | operator hoperator _ ih =>
      obtain ⟨t, hexpression, hcloses⟩ := ih
      exact ⟨t, .inr ⟨_, _, rfl, hoperator, hexpression⟩, hcloses⟩
  | closing _ ih =>
      obtain ⟨u, hfollows, hcloses⟩ := ih
      exact ⟨_, .inl rfl, _, u, rfl, hfollows, hcloses⟩
  | done => exact ⟨[], .inl rfl, rfl⟩

/-- **The acceptor accepts the language.** -/
theorem accepts_iff_language : Accepts L .operand [] s ↔ Language L s := by
  constructor
  · intro h
    obtain ⟨t, hexpression, rfl⟩ := h.derives
    exact hexpression
  · intro h
    exact h.accepts .done

/-! ## One symbol -/

theorem number_nil : L.number [] = 0 := Nat.le_zero.mp (L.number_le [])

theorem accepts_operand_nil : ¬ Accepts L .operand β [] := by
  intro h
  cases h with
  | number hpos _ =>
      rw [number_nil] at hpos
      exact absurd hpos (Nat.lt_irrefl 0)

theorem accepts_operand_opening (hclosing : L.closing o = some c) :
    Accepts L .operand β (o :: s) ↔ Accepts L .operand (c :: β) s := by
  constructor
  · intro h
    cases h with
    | opening hclosing' hrest =>
        obtain rfl := Option.some.inj (hclosing.symm.trans hclosing')
        exact hrest
    | number hpos _ =>
        rw [L.number_opening s hclosing] at hpos
        exact absurd hpos (Nat.lt_irrefl 0)
  · exact .opening hclosing

theorem accepts_operand_number (hclosing : L.closing o = none) :
    Accepts L .operand β (o :: s) ↔
      0 < L.number (o :: s) ∧ Accepts L .operator β ((o :: s).drop (L.number (o :: s))) := by
  constructor
  · intro h
    cases h with
    | opening hclosing' _ => simp [hclosing] at hclosing'
    | number hpos hrest => exact ⟨hpos, hrest⟩
  · rintro ⟨hpos, hrest⟩
    exact .number hpos hrest

/-- Where there is a number, there is no bracket. -/
theorem accepts_operand_of_number (hpos : 0 < L.number s) :
    Accepts L .operand β s ↔ Accepts L .operator β (s.drop (L.number s)) := by
  constructor
  · intro h
    cases h with
    | opening hclosing _ =>
        rw [L.number_opening _ hclosing] at hpos
        exact absurd hpos (Nat.lt_irrefl 0)
    | number _ hrest => exact hrest
  · exact .number hpos

theorem accepts_operator_nil : Accepts L .operator β [] ↔ β = [] := by
  constructor
  · intro h
    cases h
    rfl
  · rintro rfl
    exact .done

/-- `β` are brackets that close. -/
def Closers (L : Lexicon κ) (β : List κ) : Prop := ∀ c ∈ β, ∃ o, L.closing o = some c

theorem accepts_operator_operator (hβ : Closers L β) (hoperator : L.isOperator o) :
    Accepts L .operator β (o :: s) ↔ Accepts L .operand β s := by
  constructor
  · intro h
    cases h with
    | operator _ hrest => exact hrest
    | closing _ =>
        obtain ⟨_, hclosing⟩ := hβ o List.mem_cons_self
        exact absurd hoperator (L.operator_closing hclosing)
  · exact .operator hoperator

theorem accepts_operator_other (hoperator : ¬ L.isOperator c) :
    Accepts L .operator β (c :: s) ↔ ∃ β', β = c :: β' ∧ Accepts L .operator β' s := by
  constructor
  · intro h
    cases h with
    | operator hoperator' _ => exact absurd hoperator' hoperator
    | closing hrest => exact ⟨_, rfl, hrest⟩
  · rintro ⟨β', rfl, hrest⟩
    exact .closing hrest

end Workbench.Bracketed
