import Mathlib.Algebra.Ring.Defs
import Mathlib.Tactic.Ring

/-!
# `Lib.Positional` — positional notation in a ring

Digits are read from the front, and a number is taken apart from its end. Nothing is asked of the digits and of the
numbers in front of them but that they make the number again, so that it may be in a ring where multiples wrap.

## Main results
* `readOn_eq` — what is read is the value of the digits, with the number in front shifted;
* `value_takeApart` — a number that is taken apart is the value of its digits.
-/

namespace Workbench.Positional

variable {R δ : Type} [CommSemiring R] {b v : R} {ds es : List R}

/-- The value of digits, the first one the highest. -/
def value (b : R) : List R → R
  | [] => 0
  | d :: ds => d * b ^ ds.length + value b ds

/-- Digits are read after a number. -/
def readOn (b : R) : R → List R → R
  | v, [] => v
  | v, d :: ds => readOn b (v * b + d) ds

theorem readOn_eq (v : R) (ds : List R) : readOn b v ds = v * b ^ ds.length + value b ds := by
  induction ds generalizing v with
  | nil => rw [readOn, List.length_nil, value, pow_zero, mul_one, add_zero]
  | cons d ds ih =>
      rw [readOn, ih, List.length_cons, value]
      ring

theorem readOn_zero (ds : List R) : readOn b 0 ds = value b ds := by rw [readOn_eq, zero_mul, zero_add]

theorem readOn_append (v : R) (ds es : List R) : readOn b v (ds ++ es) = readOn b (readOn b v ds) es := by
  induction ds generalizing v with
  | nil => rfl
  | cons d ds ih => exact ih _

theorem value_snoc (ds : List R) (d : R) : value b (ds ++ [d]) = value b ds * b + d := by
  rw [← readOn_zero, readOn_append, readOn_zero]
  rfl

/-! ## Taking a number apart -/

variable [DecidableEq R] {digit : R → δ} {next : R → R} {digitValue : δ → R}

/-- The digits of a number, if there are no more than a count of them. -/
def takeApart (digit : R → δ) (next : R → R) : Nat → R → Option (List δ)
  | 0, n => if n = 0 then some [] else none
  | count + 1, n => if n = 0 then some [] else (takeApart digit next count (next n)).map (· ++ [digit n])

/-- A zero has no digits, and another number has a last one. -/
theorem takeApart_cases {count : Nat} {n : R} {ds : List δ} (h : takeApart digit next count n = some ds) :
    (n = 0 ∧ ds = []) ∨ ∃ rest front, count = rest + 1 ∧ takeApart digit next rest (next n) = some front ∧
      ds = front ++ [digit n] := by
  cases count with
  | zero =>
      rw [takeApart] at h
      split at h
      · next hzero => exact .inl ⟨hzero, (Option.some.inj h).symm⟩
      · cases h
  | succ count =>
      rw [takeApart] at h
      split at h
      · next hzero => exact .inl ⟨hzero, (Option.some.inj h).symm⟩
      · obtain ⟨front, hfront, hds⟩ := Option.map_eq_some_iff.mp h
        exact .inr ⟨count, front, rfl, hfront, hds.symm⟩

/-- **A number that is taken apart** is the value of its digits. -/
theorem value_takeApart (hstep : ∀ n, next n * b + digitValue (digit n) = n) {count : Nat} {n : R} {ds : List δ}
    (h : takeApart digit next count n = some ds) : value b (ds.map digitValue) = n := by
  induction count generalizing n ds with
  | zero =>
      obtain ⟨rfl, rfl⟩ | ⟨_, _, hcount, -⟩ := takeApart_cases h
      · rfl
      · cases hcount
  | succ count ih =>
      obtain ⟨rfl, rfl⟩ | ⟨rest, front, hcount, hfront, rfl⟩ := takeApart_cases h
      · rfl
      · obtain rfl := Nat.succ.inj hcount
        rw [List.map_append, List.map_singleton, value_snoc, ih hfront, hstep]

theorem length_takeApart_le {count : Nat} {n : R} {ds : List δ} (h : takeApart digit next count n = some ds) :
    ds.length ≤ count := by
  induction count generalizing n ds with
  | zero =>
      obtain ⟨-, rfl⟩ | ⟨_, _, hcount, -⟩ := takeApart_cases h
      · exact Nat.le_refl 0
      · cases hcount
  | succ count ih =>
      obtain ⟨-, rfl⟩ | ⟨rest, front, hcount, hfront, rfl⟩ := takeApart_cases h
      · exact Nat.zero_le _
      · obtain rfl := Nat.succ.inj hcount
        rw [List.length_append, List.length_singleton]
        exact Nat.succ_le_succ (ih hfront)

/-- Every digit is one of a number. -/
theorem forall_takeApart {P : δ → Prop} (hdigit : ∀ n, P (digit n)) {count : Nat} {n : R} {ds : List δ}
    (h : takeApart digit next count n = some ds) : ∀ d ∈ ds, P d := by
  induction count generalizing n ds with
  | zero =>
      obtain ⟨-, rfl⟩ | ⟨_, _, hcount, -⟩ := takeApart_cases h
      · exact nofun
      · cases hcount
  | succ count ih =>
      obtain ⟨-, rfl⟩ | ⟨rest, front, hcount, hfront, rfl⟩ := takeApart_cases h
      · exact nofun
      · obtain rfl := Nat.succ.inj hcount
        intro d hd
        rcases List.mem_append.mp hd with hd | hd
        · exact ih hfront d hd
        · obtain rfl := List.mem_singleton.mp hd
          exact hdigit n

end Workbench.Positional
