import Mathlib.Data.List.Forall2
import Mathlib.Data.List.Nodup

/-!
# `Lib.Attempt` — computations that take values out of shared pools and may raise

Every value of a pool has a mark: it is used, or not. A computation reads and sets marks. When it raises, the marks
it has set stay, as they do in a program that changes its tables in place and catches the exception later.

## Contents
- **Computations.** `Attempt`, with `reclaim` (take a certain value, if it is not used), `draw` (take the first
  value that is not used) and `attempt` (catch the exception).
- **`Spends`.** What a computation takes, whichever way it ends, and what its result has to do with it: rules for
  every operation, for sequences (`Spends.bind`) and for loops (`Spends.mapM`).
- **`Framed`.** A value that is not used in the end had no influence: marking it before the computation changes
  nothing else (`Framed.frame`, and `Framed.frame_addAll` for many values).
-/

namespace Workbench

/-- Which values are used. -/
abbrev Marks (τ : Type) := τ → Bool

namespace Marks

variable {τ : Type} [DecidableEq τ] (u : Marks τ) (t : τ) (ts ts' : List τ)

/-- Nothing is used. -/
def none {τ : Type} : Marks τ := fun _ => false

def add : Marks τ := fun t' => u t' || decide (t' = t)

def addAll : Marks τ := fun t' => u t' || decide (t' ∈ ts)

@[simp] theorem addAll_nil : u.addAll [] = u := by
  funext t'
  simp [addAll]

theorem addAll_singleton : u.addAll [t] = u.add t := by
  funext t'
  simp [addAll, add]

theorem addAll_addAll : (u.addAll ts).addAll ts' = u.addAll (ts ++ ts') := by
  funext t'
  simp [addAll, Bool.or_assoc]

theorem addAll_cons : u.addAll (t :: ts) = (u.add t).addAll ts := by
  funext t'
  simp [addAll, add, Bool.or_assoc]

theorem add_comm (t' : τ) : (u.add t).add t' = (u.add t').add t := by
  funext s
  simp only [add, Bool.or_assoc, Bool.or_comm (decide (s = t))]

theorem add_eq_false {t' : τ} : u.add t t' = false ↔ u t' = false ∧ t' ≠ t := by simp [add]

theorem addAll_eq_false {t' : τ} : u.addAll ts t' = false ↔ u t' = false ∧ t' ∉ ts := by simp [addAll]

end Marks

/-- A computation that sets marks and may raise. -/
abbrev Attempt (ε τ α : Type) := EStateM ε (Marks τ) α

namespace Attempt

variable {ε τ α β γ : Type}

/-- The marks at the end, whichever way it ends. -/
def marks : EStateM.Result ε (Marks τ) α → Marks τ
  | .ok _ u => u
  | .error _ u => u

/-- `try`: a computation that raises has no result, and its marks stay. -/
def attempt (c : Attempt ε τ α) : Attempt ε τ (Option α) := fun u =>
  match c u with
  | .ok a u' => .ok (some a) u'
  | .error _ u' => .ok none u'

/-- A computation that sets no mark. -/
def lift (x : Except ε α) : Attempt ε τ α := fun u =>
  match x with
  | .ok a => .ok a u
  | .error e => .error e u

/-- `try` does not raise. -/
theorem attempt_returns (c : Attempt ε τ α) (u : Marks τ) : ∃ x u', attempt c u = .ok x u' := by
  unfold attempt
  cases c u with
  | ok a u' => exact ⟨some a, u', rfl⟩
  | error e u' => exact ⟨none, u', rfl⟩

theorem bind_ok {c : Attempt ε τ α} {k : α → Attempt ε τ β} {u u' : Marks τ} {a : α} (h : c u = .ok a u') :
    (c >>= k) u = k a u' := by
  show EStateM.bind c k u = k a u'
  simp only [EStateM.bind, h]

theorem bind_error {c : Attempt ε τ α} {k : α → Attempt ε τ β} {u u' : Marks τ} {e : ε}
    (h : c u = .error e u') : (c >>= k) u = .error e u' := by
  show EStateM.bind c k u = .error e u'
  simp only [EStateM.bind, h]

theorem bind_eq_ok {c : Attempt ε τ α} {k : α → Attempt ε τ β} {u u'' : Marks τ} {b : β} :
    (c >>= k) u = .ok b u'' ↔ ∃ a u', c u = .ok a u' ∧ k a u' = .ok b u'' := by
  constructor
  · intro h
    cases hc : c u with
    | ok a u' =>
        rw [bind_ok hc] at h
        exact ⟨a, u', rfl, h⟩
    | error e u' =>
        rw [bind_error hc] at h
        cases h
  · rintro ⟨a, u', hc, hk⟩
    rw [bind_ok hc, hk]

section

variable [DecidableEq τ]

/-- The value `t` is taken if it is in its pool and not used; then `x'` is the result, which may raise before the
    mark is set. -/
def reclaim (inPool : Bool) (t : τ) (x' : Except ε α) (x : α) : Attempt ε τ α := fun u =>
  if inPool && !u t then
    match x' with
    | .ok a => .ok a (u.add t)
    | .error e => .error e u
  else .ok x u

/-- The first value of the pool that is not used is taken; `exhausted` is raised when there is none. -/
def draw (value : β → τ) (pool : List β) (set : β → Except ε α) (exhausted : ε) : Attempt ε τ α := fun u =>
  match pool.find? fun b => !u (value b) with
  | none => .error exhausted u
  | some b =>
      match set b with
      | .ok a => .ok a (u.add (value b))
      | .error e => .error e u

/-! ## What a computation takes -/

/-- The computation takes the values `ts`, which were not used and are in the pools. If it returns `a`, then `Q a ts`
    holds. -/
def Spends (inPool : τ → Prop) (c : Attempt ε τ α) (Q : α → List τ → Prop) : Prop :=
  ∀ u, ∃ ts : List τ, ts.Nodup ∧ (∀ t ∈ ts, inPool t ∧ u t = false) ∧ marks (c u) = u.addAll ts ∧
    ∀ a u', c u = .ok a u' → Q a ts

variable {inPool : τ → Prop} {Q : α → List τ → Prop} {c : Attempt ε τ α}

namespace Spends

/-- A computation that has returned. -/
theorem of_ok (h : Spends inPool c Q) {u u' : Marks τ} {a : α} (hok : c u = .ok a u') :
    ∃ ts : List τ, ts.Nodup ∧ (∀ t ∈ ts, inPool t ∧ u t = false) ∧ u' = u.addAll ts ∧ Q a ts := by
  obtain ⟨ts, hnd, hfree, hmarks, hQ⟩ := h u
  rw [hok] at hmarks
  exact ⟨ts, hnd, hfree, hmarks, hQ a u' hok⟩

theorem mono {Q' : α → List τ → Prop} (h : Spends inPool c Q) (hq : ∀ a ts, Q a ts → Q' a ts) :
    Spends inPool c Q' := by
  intro u
  obtain ⟨ts, hnd, hfree, hmarks, hQ⟩ := h u
  exact ⟨ts, hnd, hfree, hmarks, fun a u' ha => hq a ts (hQ a u' ha)⟩

omit [DecidableEq τ] in
theorem not_mem_nil {P : τ → Prop} : ∀ t ∈ ([] : List τ), P t := fun _ h => absurd h List.not_mem_nil

/-- An end without a new mark. -/
theorem nothing {u : Marks τ} {r : EStateM.Result ε (Marks τ) α} (hmarks : marks r = u)
    (hQ : ∀ a u', r = .ok a u' → Q a []) :
    ∃ ts : List τ, ts.Nodup ∧ (∀ t ∈ ts, inPool t ∧ u t = false) ∧ marks r = u.addAll ts ∧
      ∀ a u', r = .ok a u' → Q a ts :=
  ⟨[], List.nodup_nil, not_mem_nil, by rw [hmarks, Marks.addAll_nil], hQ⟩

/-- An end with one new mark. -/
theorem one {u : Marks τ} {a : α} {t : τ} (hpool : inPool t) (hfree : u t = false) (hQ : Q a [t]) :
    ∃ ts : List τ, ts.Nodup ∧ (∀ t ∈ ts, inPool t ∧ u t = false) ∧
      marks (.ok a (u.add t) : EStateM.Result ε (Marks τ) α) = u.addAll ts ∧
      ∀ a' u', (.ok a (u.add t) : EStateM.Result ε (Marks τ) α) = .ok a' u' → Q a' ts := by
  refine ⟨[t], List.nodup_singleton t, ?_, (u.addAll_singleton t).symm, ?_⟩
  · intro t' ht'
    obtain rfl := List.mem_singleton.mp ht'
    exact ⟨hpool, hfree⟩
  · intro a' u' h
    cases h
    exact hQ

theorem pure {a : α} (h : Q a []) : Spends inPool (pure a : Attempt ε τ α) Q := by
  intro u
  apply nothing
  · rfl
  · intro a' u' ha
    cases ha
    exact h

theorem lift {x : Except ε α} (h : ∀ a, x = .ok a → Q a []) : Spends inPool (lift x : Attempt ε τ α) Q := by
  intro u
  cases x with
  | ok a =>
      apply nothing
      · rfl
      · intro a' u' ha
        cases ha
        exact h a rfl
  | error e =>
      apply nothing
      · rfl
      · intro a u' ha
        cases ha

/-- One after the other: what the second takes comes after what the first has taken. -/
theorem bind {k : α → Attempt ε τ β} {R : β → List τ → Prop} (hc : Spends inPool c Q)
    (hk : ∀ a ts, Q a ts → Spends inPool (k a) fun b ts' => R b (ts ++ ts')) :
    Spends inPool (c >>= k) R := by
  intro u
  obtain ⟨ts, hnd, hfree, hmarks, hQ⟩ := hc u
  cases hr : c u with
  | error e u' =>
      rw [bind_error hr]
      rw [hr] at hmarks
      exact ⟨ts, hnd, hfree, hmarks, fun b u'' h => nomatch h⟩
  | ok a u' =>
      rw [bind_ok hr]
      rw [hr] at hmarks
      obtain ⟨ts', hnd', hfree', hmarks', hR⟩ := hk a ts (hQ a u' hr) u'
      have hu' : u' = u.addAll ts := hmarks
      have hnew : ∀ t ∈ ts', u t = false ∧ t ∉ ts := by
        intro t ht
        have hfalse := (hfree' t ht).2
        rw [hu'] at hfalse
        exact (Marks.addAll_eq_false u ts).mp hfalse
      refine ⟨ts ++ ts', ?_, ?_, ?_, hR⟩
      · apply List.Nodup.append hnd hnd'
        intro t ht ht'
        exact (hnew t ht').2 ht
      · intro t ht
        rcases List.mem_append.mp ht with ht | ht
        · exact hfree t ht
        · exact ⟨(hfree' t ht).1, (hnew t ht).1⟩
      · rw [hmarks', hu', Marks.addAll_addAll]

theorem reclaim {b : Bool} {t : τ} {x' : Except ε α} {x : α} (hpool : b = true → inPool t)
    (htaken : ∀ a, x' = .ok a → Q a [t]) (hleft : Q x []) :
    Spends inPool (reclaim b t x' x) Q := by
  intro u
  unfold Attempt.reclaim
  by_cases hcond : (b && !u t) = true
  · rw [if_pos hcond]
    obtain ⟨hb, hu⟩ : b = true ∧ u t = false := by simpa using hcond
    cases hx : x' with
    | error e =>
        apply nothing
        · rfl
        · intro a u' ha
          cases ha
    | ok a => exact one (hpool hb) hu (htaken a hx)
  · rw [if_neg hcond]
    apply nothing
    · rfl
    · intro a u' ha
      cases ha
      exact hleft

theorem draw {value : β → τ} {pool : List β} {set : β → Except ε α} {exhausted : ε}
    (hpool : ∀ b ∈ pool, inPool (value b)) (htaken : ∀ b a, set b = .ok a → Q a [value b]) :
    Spends inPool (draw value pool set exhausted) Q := by
  intro u
  unfold Attempt.draw
  cases hfind : pool.find? fun b => !u (value b) with
  | none =>
      apply nothing
      · rfl
      · intro a u' ha
        cases ha
  | some b =>
      have hfree : u (value b) = false := by simpa using List.find?_some hfind
      cases hset : set b with
      | error e =>
          simp only [hset]
          apply nothing
          · rfl
          · intro a u' ha
            cases ha
      | ok a =>
          simp only [hset]
          exact one (hpool b (List.mem_of_find?_eq_some hfind)) hfree (htaken b a hset)

theorem attempt (h : Spends inPool c Q) :
    Spends inPool (attempt c) fun o ts => ∀ a, o = some a → Q a ts := by
  intro u
  obtain ⟨ts, hnd, hfree, hmarks, hQ⟩ := h u
  unfold Attempt.attempt
  cases hr : c u with
  | ok a u' =>
      rw [hr] at hmarks
      refine ⟨ts, hnd, hfree, hmarks, ?_⟩
      intro o u'' ho a' ha'
      cases ho
      cases ha'
      exact hQ a u' hr
  | error e u' =>
      rw [hr] at hmarks
      refine ⟨ts, hnd, hfree, hmarks, ?_⟩
      intro o u'' ho a' ha'
      cases ho
      cases ha'

end Spends

/-- The results of a loop, one for each element, with all that was taken. -/
inductive Collects (Q : α → β → List τ → Prop) : List α → List β → List τ → Prop
  | nil : Collects Q [] [] []
  | cons {x : α} {xs : List α} {y : β} {ys : List β} {ts ts' : List τ} :
      Q x y ts → Collects Q xs ys ts' → Collects Q (x :: xs) (y :: ys) (ts ++ ts')

theorem Spends.mapM {f : α → Attempt ε τ β} {Q : α → β → List τ → Prop} :
    ∀ {xs : List α}, (∀ x ∈ xs, Spends inPool (f x) (Q x)) → Spends inPool (xs.mapM f) (Collects Q xs)
  | [], _ => by
      rw [List.mapM_nil]
      exact Spends.pure .nil
  | x :: xs, h => by
      rw [List.mapM_cons]
      refine Spends.bind (h x List.mem_cons_self) ?_
      intro y ts hy
      refine Spends.bind (Spends.mapM fun x' hx' => h x' (List.mem_cons_of_mem x hx')) ?_
      intro ys ts' hys
      apply Spends.pure
      rw [List.append_nil]
      exact .cons hy hys

omit [DecidableEq τ] in
/-- When every element gets what is taken for it, the whole list gets what is taken in the loop. -/
theorem Collects.perm {Q : α → β → List τ → Prop} {before : α → List τ} {after : β → List τ}
    (h : ∀ x y ts, Q x y ts → (after y).Perm (before x ++ ts)) {xs : List α} {ys : List β} {ts : List τ}
    (hc : Collects Q xs ys ts) : (ys.flatMap after).Perm (xs.flatMap before ++ ts) := by
  induction hc with
  | nil => exact List.Perm.refl []
  | @cons x xs y ys ts ts' hq _ ih =>
      rw [List.flatMap_cons, List.flatMap_cons]
      apply ((h x y ts hq).append ih).trans
      rw [List.append_assoc, List.append_assoc]
      exact (List.perm_append_comm_assoc _ _ _).append_left _

omit [DecidableEq τ] in
theorem Collects.forall₂ {Q : α → β → List τ → Prop} {R : α → β → Prop} (h : ∀ x y ts, Q x y ts → R x y)
    {xs : List α} {ys : List β} {ts : List τ} (hc : Collects Q xs ys ts) : List.Forall₂ R xs ys := by
  induction hc with
  | nil => exact .nil
  | cons hq _ ih => exact .cons (h _ _ _ hq) ih

omit [DecidableEq τ] in
theorem Collects.exists_of_mem {Q : α → β → List τ → Prop} {xs : List α} {ys : List β} {ts : List τ}
    (hc : Collects Q xs ys ts) {y : β} (hy : y ∈ ys) : ∃ x ∈ xs, ∃ ts', Q x y ts' := by
  induction hc with
  | nil => cases hy
  | @cons x xs y' ys ts ts' hq _ ih =>
      rcases List.mem_cons.mp hy with rfl | hy
      · exact ⟨x, List.mem_cons_self, ts, hq⟩
      · obtain ⟨x', hx', ts'', hq'⟩ := ih hy
        exact ⟨x', List.mem_cons_of_mem x hx', ts'', hq'⟩

/-! ## Values without influence -/

/-- The computation only takes values; and when it returns, a value that is not used in the end may as well be used from
    the start. -/
structure Framed (inPool : τ → Prop) (c : Attempt ε τ α) : Prop where
  spends : Spends inPool c fun _ _ => True
  frame : ∀ u t a u', c u = .ok a u' → u' t = false → c (u.add t) = .ok a (u'.add t)

/-- The same for the computations that raise, whatever they raise. -/
def FramedError (c : Attempt ε τ α) : Prop :=
  ∀ u t e u', c u = .error e u' → u' t = false → ∃ e', c (u.add t) = .error e' (u'.add t)

theorem Framed.pure (a : α) : Framed inPool (pure a : Attempt ε τ α) where
  spends := Spends.pure trivial
  frame := by
    intro u t a' u' ha _
    cases ha
    rfl

theorem FramedError.pure (a : α) : FramedError (pure a : Attempt ε τ α) := by
  intro u t e u' h
  cases h

theorem Framed.lift (x : Except ε α) : Framed inPool (lift x : Attempt ε τ α) where
  spends := Spends.lift fun _ _ => trivial
  frame := by
    intro u t a u' ha _
    cases x with
    | ok a' =>
        cases ha
        rfl
    | error e => cases ha

theorem FramedError.lift (x : Except ε α) : FramedError (lift x : Attempt ε τ α) := by
  intro u t e u' h _
  cases x with
  | ok a => cases h
  | error e' =>
      cases h
      exact ⟨e, rfl⟩

/-- What is not used after the computation was not used before. -/
theorem Framed.unused (hc : Framed inPool c) {u : Marks τ} {t : τ} (h : marks (c u) t = false) : u t = false := by
  obtain ⟨ts, -, -, hmarks, -⟩ := hc.spends u
  rw [hmarks] at h
  exact ((Marks.addAll_eq_false u ts).mp h).1

theorem Framed.bind {k : α → Attempt ε τ β} (hc : Framed inPool c) (hk : ∀ a, Framed inPool (k a)) :
    Framed inPool (c >>= k) where
  spends := Spends.bind hc.spends fun a _ _ => (hk a).spends
  frame := by
    intro u t b u'' h hfree
    obtain ⟨a, u', hca, hkb⟩ := bind_eq_ok.mp h
    have hmid : u' t = false := (hk a).unused (by rw [hkb]; exact hfree)
    rw [bind_ok (hc.frame u t a u' hca hmid)]
    exact (hk a).frame u' t b u'' hkb hfree

theorem FramedError.bind {k : α → Attempt ε τ β} (hc : Framed inPool c) (hce : FramedError c)
    (hk : ∀ a, Framed inPool (k a)) (hke : ∀ a, FramedError (k a)) : FramedError (c >>= k) := by
  intro u t e u'' h hfree
  cases hr : c u with
  | error e₁ u' =>
      rw [bind_error hr] at h
      cases h
      obtain ⟨e', he'⟩ := hce u t e u'' hr hfree
      exact ⟨e', bind_error he'⟩
  | ok a u' =>
      rw [bind_ok hr] at h
      have hmid : u' t = false := (hk a).unused (by rw [h]; exact hfree)
      rw [bind_ok (hc.frame u t a u' hr hmid)]
      exact hke a u' t e u'' h hfree

theorem Framed.reclaim {b : Bool} {t : τ} (hpool : b = true → inPool t) (x' : Except ε α) (x : α) :
    Framed inPool (reclaim b t x' x) where
  spends := Spends.reclaim hpool (fun _ _ => trivial) trivial
  frame := by
    intro u s a u' h hfree
    unfold Attempt.reclaim at h ⊢
    by_cases hcond : (b && !u t) = true
    · rw [if_pos hcond] at h
      obtain ⟨hb, hu⟩ : b = true ∧ u t = false := by simpa using hcond
      cases x' with
      | error e => cases h
      | ok a' =>
          cases h
          have hne : s ≠ t := ((Marks.add_eq_false u t).mp hfree).2
          rw [if_pos (by rw [hb, (Marks.add_eq_false u s).mpr ⟨hu, hne.symm⟩]; rfl)]
          show EStateM.Result.ok a ((u.add s).add t) = .ok a ((u.add t).add s)
          rw [Marks.add_comm]
    · rw [if_neg hcond] at h
      cases h
      have hcond' : ¬ (b && !(u.add s) t) = true := by
        intro h
        apply hcond
        obtain ⟨hb, hu⟩ : b = true ∧ (u.add s) t = false := by simpa using h
        rw [hb, ((Marks.add_eq_false u s).mp hu).1]
        rfl
      rw [if_neg hcond']

/-- The value that is drawn is the same with another value of the pool used from the start. -/
theorem find?_add {value : β → τ} {pool : List β} {u : Marks τ} {t : τ} {b : β}
    (h : (pool.find? fun b => !u (value b)) = some b) (hne : value b ≠ t) :
    (pool.find? fun b => !(u.add t) (value b)) = some b := by
  rw [List.find?_eq_some_iff_append] at h ⊢
  obtain ⟨hfree, pre, post, hpool, hpre⟩ := h
  refine ⟨?_, pre, post, hpool, ?_⟩
  · simp only [Marks.add, Bool.not_eq_true', Bool.or_eq_false_iff, decide_eq_false_iff_not]
    exact ⟨by simpa using hfree, hne⟩
  · intro b' hb'
    have hused : u (value b') = true := by simpa using hpre b' hb'
    simp [Marks.add, hused]

theorem find?_add_none {value : β → τ} {pool : List β} {u : Marks τ} (t : τ)
    (h : (pool.find? fun b => !u (value b)) = none) :
    (pool.find? fun b => !(u.add t) (value b)) = none := by
  rw [List.find?_eq_none] at h ⊢
  intro b hb
  have hused : u (value b) = true := by simpa using h b hb
  simp [Marks.add, hused]

theorem Framed.draw {value : β → τ} {pool : List β} (hpool : ∀ b ∈ pool, inPool (value b)) (set : β → Except ε α)
    (exhausted : ε) : Framed inPool (draw value pool set exhausted) where
  spends := Spends.draw hpool fun _ _ _ => trivial
  frame := by
    intro u s a u' h hfree
    unfold Attempt.draw at h ⊢
    cases hfind : pool.find? fun b => !u (value b) with
    | none =>
        rw [hfind] at h
        cases h
    | some b =>
        rw [hfind] at h
        cases hset : set b with
        | error e =>
            simp only [hset] at h
            cases h
        | ok a' =>
            simp only [hset] at h
            cases h
            have hne : s ≠ value b := ((Marks.add_eq_false u (value b)).mp hfree).2
            rw [find?_add hfind hne.symm]
            simp only [hset]
            rw [Marks.add_comm]

/-- A draw that fails whatever the value is. -/
theorem FramedError.draw {value : β → τ} {pool : List β} {set : β → Except ε α} {exhausted : ε}
    (hset : ∀ b b' a, set b = .ok a → ∃ a', set b' = .ok a') :
    FramedError (draw value pool set exhausted) := by
  intro u s e u' h _
  unfold Attempt.draw at h ⊢
  cases hfind : pool.find? fun b => !u (value b) with
  | none =>
      rw [hfind] at h
      cases h
      rw [find?_add_none s hfind]
      exact ⟨exhausted, rfl⟩
  | some b =>
      rw [hfind] at h
      cases hb : set b with
      | ok a =>
          simp only [hb] at h
          cases h
      | error e₁ =>
          simp only [hb] at h
          cases h
          cases hfind' : pool.find? fun b => !(u.add s) (value b) with
          | none => exact ⟨exhausted, rfl⟩
          | some b' =>
              cases hb' : set b' with
              | ok a =>
                  obtain ⟨a', ha'⟩ := hset b' b a hb'
                  rw [hb] at ha'
                  cases ha'
              | error e' =>
                  simp only [hb']
                  exact ⟨e', rfl⟩

theorem Framed.attempt (hc : Framed inPool c) (hce : FramedError c) : Framed inPool (attempt c) where
  spends := hc.spends.attempt.mono fun _ _ _ => trivial
  frame := by
    intro u t o u' h hfree
    unfold Attempt.attempt at h ⊢
    cases hr : c u with
    | ok a u₁ =>
        rw [hr] at h
        cases h
        rw [hc.frame u t a u' hr hfree]
    | error e u₁ =>
        rw [hr] at h
        cases h
        obtain ⟨e', he'⟩ := hce u t e u' hr hfree
        rw [he']

theorem Framed.mapM {f : α → Attempt ε τ β} (h : ∀ x, Framed inPool (f x)) :
    ∀ xs : List α, Framed inPool (xs.mapM f)
  | [] => by
      rw [List.mapM_nil]
      exact Framed.pure []
  | x :: xs => by
      rw [List.mapM_cons]
      apply Framed.bind (h x)
      intro y
      apply Framed.bind (Framed.mapM h xs)
      intro ys
      exact Framed.pure (y :: ys)

theorem FramedError.mapM {f : α → Attempt ε τ β} (h : ∀ x, Framed inPool (f x))
    (he : ∀ x, FramedError (f x)) : ∀ xs : List α, FramedError (xs.mapM f)
  | [] => by
      rw [List.mapM_nil]
      exact FramedError.pure []
  | x :: xs => by
      rw [List.mapM_cons]
      have hrest (y : β) : Framed inPool (do let ys ← xs.mapM f; return y :: ys : Attempt ε τ (List β)) :=
        Framed.bind (Framed.mapM h xs) fun ys => Framed.pure (y :: ys)
      refine FramedError.bind (h x) (he x) hrest ?_
      intro y
      exact FramedError.bind (Framed.mapM h xs) (FramedError.mapM h he xs) (fun ys => Framed.pure (y :: ys))
        fun ys => FramedError.pure (y :: ys)

/-- Many values that are not used in the end may as well be used from the start. -/
theorem Framed.frame_addAll (hc : Framed inPool c) {a : α} : ∀ {ts : List τ} {u u' : Marks τ}, c u = .ok a u' →
    ts.Nodup → (∀ t ∈ ts, u' t = false) → c (u.addAll ts) = .ok a (u'.addAll ts)
  | [], u, u', h, _, _ => by rwa [Marks.addAll_nil, Marks.addAll_nil]
  | t :: ts, u, u', h, hnd, hfree => by
      rw [Marks.addAll_cons, Marks.addAll_cons]
      obtain ⟨ht, hnd⟩ := List.nodup_cons.mp hnd
      apply Framed.frame_addAll hc (hc.frame u t a u' h (hfree t List.mem_cons_self)) hnd
      intro t' ht'
      rw [Marks.add_eq_false]
      refine ⟨hfree t' (List.mem_cons_of_mem t ht'), ?_⟩
      rintro rfl
      exact ht ht'

/-- **A loop without some of its elements** gives the same results for the others, if what was taken for those that
    are left out is used from the start. -/
theorem Framed.mapM_filter {f : α → Attempt ε τ β} (hf : ∀ x, Framed inPool (f x)) (p : α → Bool) :
    ∀ {xs : List α} {ys : List β} {u u' : Marks τ}, xs.mapM f u = .ok ys u' →
      ∃ ts : List τ, ts.Nodup ∧ (∀ t ∈ ts, inPool t ∧ u t = false) ∧
        (xs.filter p).mapM f (u.addAll ts) = .ok (((xs.zip ys).filter fun q => p q.1).map Prod.snd) u'
  | [], ys, u, u', h => by
      cases h
      exact ⟨[], List.nodup_nil, Spends.not_mem_nil, by rw [Marks.addAll_nil]; rfl⟩
  | x :: xs, zs, u, u', h => by
      rw [List.mapM_cons] at h
      obtain ⟨y, u₁, hy, hrest⟩ := bind_eq_ok.mp h
      obtain ⟨ys, u₂, hys, hpure⟩ := bind_eq_ok.mp hrest
      cases hpure
      obtain ⟨ts, hnd, hfree, hrun⟩ := Framed.mapM_filter hf p hys
      obtain ⟨taken, hndx, hfreex, rfl, -⟩ := (hf x).spends.of_ok hy
      have hnew : ∀ t ∈ ts, u t = false ∧ t ∉ taken :=
        fun t ht => (Marks.addAll_eq_false u taken).mp (hfree t ht).2
      by_cases hp : p x = true
      · refine ⟨ts, hnd, fun t ht => ⟨(hfree t ht).1, (hnew t ht).1⟩, ?_⟩
        rw [List.filter_cons_of_pos hp, List.mapM_cons, List.zip_cons_cons, List.filter_cons_of_pos (by exact hp)]
        rw [bind_ok ((hf x).frame_addAll hy hnd fun t ht => (hfree t ht).2), bind_ok hrun]
        rfl
      · refine ⟨taken ++ ts, ?_, ?_, ?_⟩
        · apply List.Nodup.append hndx hnd
          intro t ht ht'
          exact (hnew t ht').2 ht
        · intro t ht
          rcases List.mem_append.mp ht with ht | ht
          · exact hfreex t ht
          · exact ⟨(hfree t ht).1, (hnew t ht).1⟩
        · rw [List.filter_cons_of_neg hp, List.zip_cons_cons, List.filter_cons_of_neg (by exact hp),
            ← Marks.addAll_addAll]
          exact hrun

end

end Attempt

end Workbench
