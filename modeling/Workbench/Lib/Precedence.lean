import Workbench.Lib.Bracketed

/-!
# `Lib.Precedence` — expressions with priorities

An operator has a priority, and the operators of one priority associate to the same side. A phrase of level `p` has
operators of priority `p` or more outside of brackets. Each text of the language is a phrase, whatever the priorities
are.

While a text is read from the left, operators wait for their second operand; `collapse` applies them.

## Main results
* `Derives.parses` — what the grammar derives is a phrase of level 0;
* `collapse_append` — operators that wait below others are applied after them.
-/

namespace Workbench.Bracketed

variable {κ V : Type}

structure Precedence (κ : Type) where
  priority : κ → Nat
  rightAssoc : Nat → Prop

inductive Expr (κ V : Type)
  | number (value : V)
  | apply (operator : κ) (left right : Expr κ V)

/-- The value; `none` if an operator fails. -/
def Expr.eval (func : κ → V → V → Option V) : Expr κ V → Option V
  | .number value => some value
  | .apply operator left right => do
      let num1 ← left.eval func
      let num2 ← right.eval func
      func operator num1 num2

/-- The first text is a phrase of the level, up to the second. -/
inductive Parses (L : Lexicon κ) (value : List κ → V) (P : Precedence κ) :
    Nat → List κ → Expr κ V → List κ → Prop
  | number {p : Nat} {s : List κ} : 0 < L.number s → Parses L value P p s (.number (value s)) (s.drop (L.number s))
  | bracket {p : Nat} {o c : κ} {s t : List κ} {e : Expr κ V} : L.closing o = some c →
      Parses L value P 0 s e (c :: t) → Parses L value P p (o :: s) e t
  | tighter {p : Nat} {s t : List κ} {e : Expr κ V} : Parses L value P (p + 1) s e t → Parses L value P p s e t
  | left {p : Nat} {o : κ} {s t u : List κ} {l r : Expr κ V} : L.isOperator o → P.priority o = p → ¬ P.rightAssoc p →
      Parses L value P p s l (o :: t) → Parses L value P (p + 1) t r u → Parses L value P p s (.apply o l r) u
  | right {p : Nat} {o : κ} {s t u : List κ} {l r : Expr κ V} : L.isOperator o → P.priority o = p → P.rightAssoc p →
      Parses L value P (p + 1) s l (o :: t) → Parses L value P p t r u → Parses L value P p s (.apply o l r) u

variable {L : Lexicon κ} {value : List κ → V} {P : Precedence κ} {p : Nat} {o : κ} {s t u : List κ} {e : Expr κ V}

theorem Parses.of_le {q : Nat} (h : Parses L value P q s e t) (hle : p ≤ q) : Parses L value P p s e t := by
  induction hle with
  | refl => exact h
  | step _ ih => exact ih h.tighter

/-- A term, and an operator, in front of a phrase of the operator's level. -/
theorem Parses.operand {a : Expr κ V} (ha : ∀ q, Parses L value P q s a (o :: t)) (ho : L.isOperator o)
    (h : Parses L value P (P.priority o + 1) t e u) (hle : p ≤ P.priority o) :
    Parses L value P p s (.apply o a e) u := by
  refine Parses.of_le ?_ hle
  by_cases hright : P.rightAssoc (P.priority o)
  · exact .right ho rfl hright (ha _) h.tighter
  · exact .left ho rfl hright (ha _) h

/-- **A term goes in front of a phrase**: where it belongs depends on the operator between them. -/
theorem Parses.insert {a : Expr κ V} (ha : ∀ q, Parses L value P q s a (o :: t)) (ho : L.isOperator o)
    (h : Parses L value P p t e u) : p ≤ P.priority o → ∃ e', Parses L value P p s e' u := by
  induction h with
  | number hpos => exact fun hle => ⟨_, Parses.operand ha ho (.number hpos) hle⟩
  | bracket hclosing hinner _ => exact fun hle => ⟨_, Parses.operand ha ho (.bracket hclosing hinner) hle⟩
  | @tighter p _ _ _ hphrase ih =>
      intro hle
      -- below the operator's level, the term goes further in
      rcases Nat.lt_or_eq_of_le hle with hlt | rfl
      · obtain ⟨e', he'⟩ := ih ha hlt
        exact ⟨e', he'.tighter⟩
      · exact ⟨_, Parses.operand ha ho hphrase (Nat.le_refl _)⟩
  | left ho' hpriority hleft _ hr ihl _ =>
      intro hle
      obtain ⟨l', hl'⟩ := ihl ha hle
      exact ⟨_, .left ho' hpriority hleft hl' hr⟩
  | right ho' hpriority hright hl hr ihl _ =>
      intro hle
      rcases Nat.lt_or_eq_of_le hle with hlt | rfl
      · obtain ⟨l', hl'⟩ := ihl ha hlt
        exact ⟨_, .right ho' hpriority hright hl' hr⟩
      · -- both operators are of one priority, and the whole phrase is the second operand
        exact ⟨_, .right ho rfl hright (ha _) (.right ho' hpriority hright hl hr)⟩

/-- What is derived, as a phrase: a term is a phrase of every level. -/
def Phrase (L : Lexicon κ) (value : List κ → V) (P : Precedence κ) : Nonterminal → List κ → List κ → Prop
  | .term, s, t => ∃ e, ∀ p, Parses L value P p s e t
  | .expression, s, t => ∃ e, Parses L value P 0 s e t

/-- **What the grammar derives is a phrase.** -/
theorem Derives.parses {N : Nonterminal} (h : Derives L N s t) : Phrase L value P N s t := by
  induction h with
  | number hpos => exact ⟨_, fun p => .number hpos⟩
  | bracket hclosing _ ih =>
      obtain ⟨e, he⟩ := ih
      exact ⟨e, fun p => .bracket hclosing he⟩
  | term _ ih =>
      obtain ⟨e, he⟩ := ih
      exact ⟨e, he 0⟩
  | operator _ hoperator _ ihterm ihrest =>
      obtain ⟨a, ha⟩ := ihterm
      obtain ⟨e, he⟩ := ihrest
      exact Parses.insert ha hoperator he (Nat.zero_le _)

/-! ## Operators that wait -/

/-- Operators that wait for the second operand, each with its first one; the last that was read is first. -/
def collapse (func : κ → V → V → Option V) : List (V × κ) → V → Option V
  | [], value => some value
  | (left, operator) :: waiting, value => (func operator left value).bind (collapse func waiting)

theorem collapse_append (func : κ → V → V → Option V) (w₁ w₂ : List (V × κ)) (v : V) :
    collapse func (w₁ ++ w₂) v = (collapse func w₁ v).bind (collapse func w₂) := by
  induction w₁ generalizing v with
  | nil => rfl
  | cons w w₁ ih =>
      show (func w.2 w.1 v).bind (collapse func (w₁ ++ w₂)) = _
      simp only [collapse]
      cases func w.2 w.1 v with
      | none => rfl
      | some x => exact ih x

end Workbench.Bracketed
