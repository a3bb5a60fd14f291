import Mathlib.Data.List.Induction
import Mathlib.Data.List.Basic

/-!
# `Lib.Decimal` — decimal numerals without leading zeros

`Nat.toDigits 10` writes a numeral and `Nat.ofDigitChars 10` reads one. Core has that a number is read back; here
written text is what was read.

## Main results
* `IsNumeral` — digits, and no zero in front of others;
* `isNumeral_toDigits`, `toDigits_ofDigitChars` — numbers and numerals, in both directions.
-/

namespace Workbench.Decimal

variable {s t : List Char} {c : Char} {n : Nat}

/-- Digits, at least one, and a zero is not in front of others. -/
structure IsNumeral (s : List Char) : Prop where
  ne_nil : s ≠ []
  digits : ∀ c ∈ s, c.isDigit = true
  leading : s.head? = some '0' → s = ['0']

theorem toNat_of_isDigit (h : c.isDigit = true) : 48 ≤ c.toNat ∧ c.toNat ≤ 57 := by
  simp only [Char.isDigit, Bool.and_eq_true, decide_eq_true_eq, ge_iff_le, UInt32.le_iff_toNat_le] at h
  exact h

/-- A digit is the one of its value. -/
theorem digitChar_of_isDigit (h : c.isDigit = true) : (c.toNat - 48).digitChar = c := by
  obtain ⟨hlow, hhigh⟩ := toNat_of_isDigit h
  apply Char.toNat_inj.mp
  rw [Nat.toNat_digitChar_of_lt_ten (by omega)]
  omega

/-- One digit more at the end. -/
theorem toDigits_snoc {d : Nat} (hn : 0 < n) (hd : d < 10) :
    Nat.toDigits 10 (10 * n + d) = Nat.toDigits 10 n ++ [d.digitChar] := by
  rw [← Nat.toDigits_append_toDigits (by decide) hn hd, Nat.toDigits_of_lt_base hd]

theorem ofDigitChars_snoc (s : List Char) (c : Char) :
    Nat.ofDigitChars 10 (s ++ [c]) 0 = 10 * Nat.ofDigitChars 10 s 0 + (c.toNat - 48) := by
  rw [Nat.ofDigitChars_append, Nat.ofDigitChars_cons, Nat.ofDigitChars_nil]
  rfl

/-- What is in front of the last digit is a numeral. -/
theorem IsNumeral.init (h : IsNumeral (s ++ [c])) (hs : s ≠ []) : IsNumeral s where
  ne_nil := hs
  digits c' hc' := h.digits c' (List.mem_append_left _ hc')
  leading hzero := by
    have hhead : (s ++ [c]).head? = some '0' := by
      rw [List.head?_append_of_ne_nil _ hs]
      exact hzero
    have hone := congrArg List.length (h.leading hhead)
    have hpos := List.length_pos_iff.mpr hs
    rw [List.length_append, List.length_singleton, List.length_singleton] at hone
    omega

theorem not_isNumeral_zero_cons (hs : s = ['0']) : ¬ IsNumeral (s ++ [c]) := by
  subst hs
  intro h
  have hone := congrArg List.length (h.leading rfl)
  simp at hone

/-- **A numeral** is what is written for its number. -/
theorem toDigits_ofDigitChars (h : IsNumeral s) : Nat.toDigits 10 (Nat.ofDigitChars 10 s 0) = s := by
  induction s using List.reverseRecOn with
  | nil => exact absurd rfl h.ne_nil
  | append_singleton s c ih =>
      have hdigit := h.digits c (List.mem_append_right _ List.mem_cons_self)
      obtain ⟨hlow, hhigh⟩ := toNat_of_isDigit hdigit
      rw [ofDigitChars_snoc]
      by_cases hs : s = []
      · subst hs
        rw [Nat.ofDigitChars_nil, Nat.mul_zero, Nat.zero_add, Nat.toDigits_of_lt_base (by omega),
          digitChar_of_isDigit hdigit]
        rfl
      · -- the number in front is positive, since it is not written as a zero
        have hinit := ih (h.init hs)
        have hpos : 0 < Nat.ofDigitChars 10 s 0 := by
          rw [Nat.pos_iff_ne_zero]
          intro hzero
          rw [hzero, Nat.toDigits_zero] at hinit
          exact not_isNumeral_zero_cons hinit.symm h
        rw [toDigits_snoc hpos (by omega), hinit, digitChar_of_isDigit hdigit]

/-- **What is written** is a numeral. -/
theorem isNumeral_toDigits (n : Nat) : IsNumeral (Nat.toDigits 10 n) where
  ne_nil := Nat.toDigits_ne_nil
  digits c hc := Nat.isDigit_of_mem_toDigits (by decide) (by decide) hc
  leading hzero := by
    induction n using Nat.strongRecOn with
    | ind n ih =>
        by_cases hn : n < 10
        · rw [Nat.toDigits_of_lt_base hn] at hzero ⊢
          rw [List.head?_cons] at hzero
          rw [Option.some.inj hzero]
        · -- the first digit is the one of the number without its last digit, which is not zero
          have hsplit : Nat.toDigits 10 n = Nat.toDigits 10 (n / 10) ++ [(n % 10).digitChar] := by
            rw [← toDigits_snoc (by omega) (Nat.mod_lt n (by decide)), Nat.div_add_mod]
          rw [hsplit, List.head?_append_of_ne_nil _ Nat.toDigits_ne_nil] at hzero
          have hfront := ih (n / 10) (by omega) hzero
          have hback : Nat.ofDigitChars 10 (Nat.toDigits 10 (n / 10)) 0 = 0 := by
            rw [hfront]
            rfl
          rw [Nat.ofDigitChars_ten_toDigits] at hback
          omega

end Workbench.Decimal
