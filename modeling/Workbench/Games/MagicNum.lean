import Mathlib.Data.List.Sort

/-!
# `Games.MagicNum` — `magic_num.cpp`

The digits of a number are ordered from big to small and from small to big, and the one number is taken from the other
one, until 6174 comes out.

## Contents
* `orderDigits`, `magicLoop` — the program;
* `bubble_sorts` — the sort of the four digits;
* `difference_eq` — a difference depends on two differences of digits only;
* `magic_comes` — for which numbers the loop ends, and how soon.
-/

namespace Workbench.MagicNum

/-! ## The program -/

/-- The test of the sort. -/
def swaps (fromBigToSmall : Bool) (x y : Nat) : Bool :=
  fromBigToSmall && decide (x < y) || !fromBigToSmall && decide (y < x)

/-- The body of the inner loop. -/
def bubbleTurn (fromBigToSmall : Bool) (arr : List Nat) (j : Nat) : List Nat :=
  if swaps fromBigToSmall (arr.getD j 0) (arr.getD (j + 1) 0) then
    (arr.set j (arr.getD (j + 1) 0)).set (j + 1) (arr.getD j 0)
  else arr

def bubble (fromBigToSmall : Bool) (arr : List Nat) : List Nat :=
  (List.range 3).foldl (fun arr i => (List.range (3 - i)).foldl (bubbleTurn fromBigToSmall) arr) arr

def digits (a : Nat) : List Nat := [a / 1000, a / 100 % 10, a / 10 % 10, a % 10]

def number (arr : List Nat) : Nat := arr.getD 0 0 * 1000 + arr.getD 1 0 * 100 + arr.getD 2 0 * 10 + arr.getD 3 0

def orderDigits (a : Nat) (fromBigToSmall : Bool) : Nat := number (bubble fromBigToSmall (digits a))

/-- The loop, with the lines that it prints. -/
def magicLoop : Nat → Nat → Option (List (Nat × Nat × Nat))
  | 0, _ => none
  | fuel + 1, a =>
      if a ≠ 6174 then do
        let big := orderDigits a true
        let small := orderDigits a false
        let lines ← magicLoop fuel (big - small)
        some ((big, small, big - small) :: lines)
      else some []

/-! ## The sort -/

variable {b : Bool} {w x y z d a : Nat}

/-- In the order that is asked for. -/
def InOrder (b : Bool) (x y : Nat) : Prop := if b then y ≤ x else x ≤ y

theorem InOrder.trans (h : InOrder b x y) (h' : InOrder b y z) : InOrder b x z := by
  cases b with
  | true => exact Nat.le_trans h' h
  | false => exact Nat.le_trans h h'

/-- What is in front after a comparison, and what is behind. -/
def front (b : Bool) (x y : Nat) : Nat := if swaps b x y then y else x

def behind (b : Bool) (x y : Nat) : Nat := if swaps b x y then x else y

theorem swaps_iff : swaps b x y = true ↔ ¬ InOrder b x y := by
  cases b <;> simp [swaps, InOrder]

theorem inOrder_behind : InOrder b (front b x y) x ∧ InOrder b x (behind b x y) ∧ InOrder b y (behind b x y) := by
  unfold front behind
  cases b <;> by_cases h : x < y <;> by_cases h' : y < x <;> simp [swaps, InOrder, h, h'] <;> omega

theorem front_inOrder_behind : InOrder b (front b x y) (behind b x y) := inOrder_behind.1.trans inOrder_behind.2.1

theorem behind_inOrder (hx : InOrder b x d) (hy : InOrder b y d) : InOrder b (behind b x y) d := by
  unfold behind
  split
  · exact hx
  · exact hy

theorem front_behind_perm (xs : List Nat) : (front b x y :: behind b x y :: xs).Perm (x :: y :: xs) := by
  unfold front behind
  split
  · exact List.Perm.swap x y xs
  · exact List.Perm.refl _

theorem bubbleTurn_zero : bubbleTurn b [w, x, y, z] 0 = [front b w x, behind b w x, y, z] := by
  unfold bubbleTurn front behind
  simp only [List.getD_cons_zero, List.getD_cons_succ]
  split <;> rfl

theorem bubbleTurn_one : bubbleTurn b [w, x, y, z] 1 = [w, front b x y, behind b x y, z] := by
  unfold bubbleTurn front behind
  simp only [List.getD_cons_zero, List.getD_cons_succ]
  split <;> rfl

theorem bubbleTurn_two : bubbleTurn b [w, x, y, z] 2 = [w, x, front b y z, behind b y z] := by
  unfold bubbleTurn front behind
  simp only [List.getD_cons_zero, List.getD_cons_succ]
  split <;> rfl

/-- **The four digits in order.** -/
theorem bubble_sorts (b : Bool) (w x y z : Nat) :
    ∃ p q r s, bubble b [w, x, y, z] = [p, q, r, s] ∧ [p, q, r, s].Perm [w, x, y, z] ∧ InOrder b p q ∧ InOrder b q r ∧
      InOrder b r s := by
  have hturns : bubble b [w, x, y, z] = bubbleTurn b (bubbleTurn b (bubbleTurn b (bubbleTurn b (bubbleTurn b
      (bubbleTurn b [w, x, y, z] 0) 1) 2) 0) 1) 0 := rfl
  simp only [bubbleTurn_zero, bubbleTurn_one, bubbleTurn_two] at hturns
  -- the first pass: the last one comes behind the others
  have hperm : [front b w x, front b (behind b w x) y, front b (behind b (behind b w x) y) z,
      behind b (behind b (behind b w x) y) z].Perm [w, x, y, z] :=
    (((front_behind_perm []).cons _).cons _).trans (((front_behind_perm [z]).cons _).trans (front_behind_perm [y, z]))
  have hlast : InOrder b (front b w x) (behind b (behind b (behind b w x) y) z) ∧
      InOrder b (front b (behind b w x) y) (behind b (behind b (behind b w x) y) z) ∧
      InOrder b (front b (behind b (behind b w x) y) z) (behind b (behind b (behind b w x) y) z) := by
    have hsecond : InOrder b (behind b w x) (behind b (behind b w x) y) := inOrder_behind.2.1
    have hthird : InOrder b (behind b (behind b w x) y) (behind b (behind b (behind b w x) y) z) := inOrder_behind.2.1
    exact ⟨front_inOrder_behind.trans (hsecond.trans hthird), front_inOrder_behind.trans hthird, front_inOrder_behind⟩
  generalize front b w x = p at *
  generalize front b (behind b w x) y = q at *
  generalize front b (behind b (behind b w x) y) z = r at *
  generalize behind b (behind b (behind b w x) y) z = s at *
  obtain ⟨hp, hq, hr⟩ := hlast
  refine ⟨_, _, _, _, hturns, ?_, front_inOrder_behind, ?_, behind_inOrder (behind_inOrder hp hq) hr⟩
  · refine List.Perm.trans ?_ hperm
    exact (front_behind_perm _).trans (((front_behind_perm [s]).cons _).trans (front_behind_perm [r, s]))
  · exact behind_inOrder (front_inOrder_behind.trans inOrder_behind.2.1) front_inOrder_behind

/-! ## The differences -/

/-- The digits of a number of four digits are below 10. -/
theorem digits_lt (ha : a ≤ 9999) : ∀ x ∈ digits a, x ≤ 9 := by
  simp only [digits, List.mem_cons, List.not_mem_nil, or_false]
  omega

/-- All digits are equal. -/
def AllEqual (a : Nat) : Prop := ∀ x ∈ digits a, ∀ y ∈ digits a, x = y

instance (a : Nat) : Decidable (AllEqual a) := by
  unfold AllEqual
  infer_instance

/-- What comes out of a turn. -/
def difference (a : Nat) : Nat := orderDigits a true - orderDigits a false

/-- **The difference** depends on that of the outer and that of the inner digits. -/
theorem difference_eq (ha : a ≤ 9999) : ∃ u v, v ≤ u ∧ u ≤ 9 ∧ difference a = 999 * u + 90 * v ∧
    (u = 0 ↔ AllEqual a) := by
  obtain ⟨p, q, r, s, hbig, hperm, hpq, hqr, hrs⟩ :=
    bubble_sorts true (a / 1000) (a / 100 % 10) (a / 10 % 10) (a % 10)
  obtain ⟨p', q', r', s', hsmall, hperm', hpq', hqr', hrs'⟩ :=
    bubble_sorts false (a / 1000) (a / 100 % 10) (a / 10 % 10) (a % 10)
  simp only [InOrder, if_true, Bool.false_eq_true, if_false] at hpq hqr hrs hpq' hqr' hrs'
  -- the one order is the other one, from behind
  have hsame : [p', q', r', s'] = [s, r, q, p] := by
    refine List.Perm.eq_of_pairwise (fun _ _ _ _ h h' => Nat.le_antisymm h h') ?_ ?_
      (hperm'.trans (hperm.symm.trans (List.reverse_perm [s, r, q, p])))
    · simp only [List.pairwise_cons, List.mem_cons, List.not_mem_nil, or_false, forall_eq_or_imp, forall_eq]
      exact ⟨by omega, by omega, hrs', nofun, .nil⟩
    · simp only [List.pairwise_cons, List.mem_cons, List.not_mem_nil, or_false, forall_eq_or_imp, forall_eq]
      exact ⟨by omega, by omega, hpq, nofun, .nil⟩
  have hmem : ∀ x, x ∈ digits a ↔ x = p ∨ x = q ∨ x = r ∨ x = s := by
    intro x
    rw [digits, ← hperm.mem_iff]
    simp only [List.mem_cons, List.not_mem_nil, or_false]
  have hnine : p ≤ 9 := digits_lt ha p ((hmem p).mpr (.inl rfl))
  refine ⟨p - s, q - r, by omega, by omega, ?_, ?_⟩
  · rw [difference, orderDigits, orderDigits, digits, hbig, hsmall, hsame]
    simp only [number, List.getD_cons_zero, List.getD_cons_succ]
    omega
  · constructor
    · intro hzero x hx y hy
      rw [hmem] at hx hy
      omega
    · intro hall
      have heq := hall p ((hmem p).mpr (.inl rfl)) s ((hmem s).mpr (.inr (.inr (.inr rfl))))
      omega

/-! ## The loop -/

/-- From a difference on, the loop takes six turns at most. -/
theorem differences_come : ∀ u : Fin 10, ∀ v : Fin 10, v ≤ u → 0 < u.val →
    ∃ k : Fin 7, Nat.iterate difference k (999 * u.val + 90 * v.val) = 6174 := by
  decide

theorem magicLoop_zero (fuel : Nat) : magicLoop fuel 0 = none := by
  induction fuel with
  | zero => rfl
  | succ fuel ih =>
      have hzero : orderDigits 0 true - orderDigits 0 false = 0 := rfl
      rw [magicLoop, if_pos (by decide)]
      simp only [hzero, ih, Option.bind_eq_bind, Option.bind_none]

/-- So many turns, at most. -/
theorem magicLoop_of_iterate {k : Nat} (h : difference^[k] a = 6174) :
    ∃ lines, lines.length ≤ k ∧ ∀ fuel, k < fuel → magicLoop fuel a = some lines := by
  induction k generalizing a with
  | zero =>
      obtain rfl : a = 6174 := h
      refine ⟨[], Nat.le_refl 0, fun fuel hfuel => ?_⟩
      obtain ⟨fuel, rfl⟩ := Nat.exists_eq_add_of_lt hfuel
      rw [Nat.zero_add, magicLoop, if_neg (by decide)]
  | succ k ih =>
      by_cases ha : a = 6174
      · refine ⟨[], Nat.zero_le _, fun fuel hfuel => ?_⟩
        obtain ⟨fuel, rfl⟩ := Nat.exists_eq_add_of_lt hfuel
        rw [magicLoop, if_neg (not_not.mpr ha)]
      · obtain ⟨lines, hlength, hloop⟩ := ih (show difference^[k] (difference a) = 6174 from h)
        refine ⟨(orderDigits a true, orderDigits a false, difference a) :: lines, Nat.succ_le_succ hlength,
          fun fuel hfuel => ?_⟩
        obtain ⟨fuel, rfl⟩ : ∃ n, fuel = n + 1 := ⟨fuel - 1, by omega⟩
        have hrest : magicLoop fuel (orderDigits a true - orderDigits a false) = some lines :=
          hloop fuel (by omega)
        rw [magicLoop, if_pos ha]
        simp only [hrest, Option.bind_eq_bind, Option.bind_some]
        rfl

/-- **6174 comes** for each number of four digits that are not all equal, after seven lines at most. For the others, the
    loop does not end. -/
theorem magic_comes (ha : 1000 ≤ a ∧ a ≤ 9999) :
    (AllEqual a → ∀ fuel, magicLoop fuel a = none) ∧
      (¬ AllEqual a → ∃ lines, lines.length ≤ 7 ∧ ∀ fuel, 7 < fuel → magicLoop fuel a = some lines) := by
  obtain ⟨u, v, hvu, hu, hdifference, hequal⟩ := difference_eq ha.2
  constructor
  · intro hall fuel
    have hzero : orderDigits a true - orderDigits a false = 0 := by
      have hu0 := hequal.mpr hall
      show difference a = 0
      omega
    have hne : a ≠ 6174 := by
      rintro rfl
      exact absurd hall (by decide)
    cases fuel with
    | zero => rfl
    | succ fuel =>
        rw [magicLoop, if_pos hne]
        simp only [hzero, magicLoop_zero, Option.bind_eq_bind, Option.bind_none]
  · intro hall
    have hpos : u ≠ 0 := hequal.not.mpr hall
    obtain ⟨k, hk⟩ := differences_come ⟨u, by omega⟩ ⟨v, by omega⟩ hvu (Nat.pos_of_ne_zero hpos)
    obtain ⟨lines, hlength, hloop⟩ := magicLoop_of_iterate (a := a) (k := k.val + 1)
      (show difference^[k.val] (difference a) = 6174 from hdifference ▸ hk)
    exact ⟨lines, by omega, fun fuel hfuel => hloop fuel (by omega)⟩

theorem magic_sample : ∃ lines, lines.length ≤ 7 ∧ ∀ fuel, 7 < fuel → magicLoop fuel 3524 = some lines :=
  (magic_comes (by decide)).2 (by decide)

end Workbench.MagicNum
