import Mathlib.Tactic.Common

/-!
# `Text.Strcasecmp` — `Strcasecmp`

A pointer is what is left of the block of a string, and a read at its end fails. A `char` has a sign. `Case_Char` finds
the same letters equal as `tolower`, but where the first string ends the result is 0, whatever is left of the other.

## Main results
* `strcasecmp_result` — the sign of the result;
* `strcasecmp_iff` — when it is the one of the order;
* `strcasecmp_trans` — it is transitive anyway.
-/

namespace Workbench.Text

/-! ## The functions -/

/-- `tolower` in the C locale. -/
def tolower (c : Int) : Int := if 65 ≤ c ∧ c ≤ 90 then c + 32 else c

def caseChar (c1 c2 : Int8) : Int :=
  if c1 = c2 then 0
  else if (65 ≤ c1.toInt ∧ c1.toInt ≤ 90) ∧ c1.toInt = c2.toInt - 32 then 0
  else if (97 ≤ c1.toInt ∧ c1.toInt ≤ 122) ∧ c1.toInt = c2.toInt + 32 then 0
  else 1

/-- The loop. It leaves both pointers. -/
def skipLoop : List Int8 → List Int8 → Option (List Int8 × List Int8)
  | [], _ => none
  | c1 :: str1, str2 =>
      if c1 ≠ 0 then do
        let c2 ← str2.head?
        if caseChar c1 c2 = 0 then skipLoop str1 str2.tail else return (c1 :: str1, str2)
      else
        some (c1 :: str1, str2)

def strcasecmp (str1 str2 : List Int8) : Option Int := do
  let (str1, str2) ← skipLoop str1 str2
  let c1 ← str1.head?
  if c1 ≠ 0 then do
    let c2 ← str2.head?
    return tolower c1.toInt - tolower c2.toInt
  else
    return 0

/-! ## The result -/

variable {s t u : List Int8} {a b : Int8}

/-- The characters of ASCII but for the NUL. -/
def Ascii (s : List Int8) : Prop := ∀ c ∈ s, 0 < c.toInt

instance (s : List Int8) : Decidable (Ascii s) := List.decidableBAll (fun c : Int8 => 0 < c.toInt) s

/-- A string with A-Z mapped to a-z. -/
def folded (s : List Int8) : List Int := s.map fun c => tolower c.toInt

/-- The sign of the result: 0 for a prefix. -/
def Signed (s t : List Int8) (r : Int) : Prop :=
  compare r 0 = if folded s <+: folded t then .eq else compare (folded s) (folded t)

theorem compare_sub (x y : Int) : compare (x - y) 0 = compare x y := by
  rcases Int.lt_trichotomy x y with hlt | rfl | hgt
  · rw [Int.compare_eq_lt.mpr hlt, Int.compare_eq_lt]
    omega
  · rw [Int.sub_self, Int.compare_eq_eq.mpr rfl, Int.compare_eq_eq.mpr rfl]
  · rw [Int.compare_eq_gt.mpr hgt, Int.compare_eq_gt]
    omega

theorem ne_zero_of_pos (ha : 0 < a.toInt) : a ≠ 0 := by
  rintro rfl
  exact absurd ha (by decide)

/-- The two rules for letters are one. -/
theorem caseChar_eq_zero_iff (ha : 0 < a.toInt) :
    caseChar a b = 0 ↔ tolower a.toInt = tolower b.toInt := by
  have heq : a = b ↔ a.toInt = b.toInt := Int8.toInt_inj.symm
  rw [caseChar, tolower, tolower]
  simp only [heq]
  split_ifs <;> omega

/-- The NUL is no letter. -/
theorem tolower_pos (ha : 0 < a.toInt) : tolower (0 : Int8).toInt < tolower a.toInt := by
  have hzero : (0 : Int8).toInt = 0 := by decide
  rw [hzero, tolower, tolower]
  split_ifs <;> omega

theorem skipLoop_cons {str1 str2 : List Int8} (ha : a ≠ 0) :
    skipLoop (a :: str1) (b :: str2) =
      if caseChar a b = 0 then skipLoop str1 str2 else some (a :: str1, b :: str2) := by
  rw [skipLoop, if_pos ha]
  rfl

/-- The first characters that differ. -/
theorem strcasecmp_ne {str1 str2 : List Int8} (ha : 0 < a.toInt)
    (hne : tolower a.toInt ≠ tolower b.toInt) :
    strcasecmp (a :: str1) (b :: str2) = some (tolower a.toInt - tolower b.toInt) := by
  rw [strcasecmp, skipLoop_cons (ne_zero_of_pos ha), if_neg fun h => hne ((caseChar_eq_zero_iff ha).mp h)]
  show (if a ≠ 0 then some (tolower a.toInt - tolower b.toInt) else some 0) = _
  rw [if_pos (ne_zero_of_pos ha)]

theorem strcasecmp_eq {str1 str2 : List Int8} (ha : 0 < a.toInt)
    (heq : tolower a.toInt = tolower b.toInt) :
    strcasecmp (a :: str1) (b :: str2) = strcasecmp str1 str2 := by
  rw [strcasecmp, skipLoop_cons (ne_zero_of_pos ha), if_pos ((caseChar_eq_zero_iff ha).mpr heq)]
  rfl

/-- **The sign of the result.** The NULs are the last bytes that are read. -/
theorem strcasecmp_result (hs : Ascii s) (ht : Ascii t) :
    ∃ r, strcasecmp (s ++ [0]) (t ++ [0]) = some r ∧ Signed s t r := by
  induction s generalizing t with
  | nil => exact ⟨0, rfl, by rw [Signed, folded, List.map_nil, if_pos List.nil_prefix]; rfl⟩
  | cons a s ih =>
      have ha : 0 < a.toInt := hs a List.mem_cons_self
      cases t with
      | nil =>
          have hpos := tolower_pos ha
          refine ⟨_, strcasecmp_ne ha (Int.ne_of_gt hpos), ?_⟩
          have hnot : ¬ folded (a :: s) <+: folded [] := fun h => by cases List.prefix_nil.mp h
          rw [Signed, compare_sub, if_neg hnot]
          exact Int.compare_eq_gt.mpr hpos
      | cons b t =>
          have hcompare : compare (folded (a :: s)) (folded (b :: t)) =
              (compare (tolower a.toInt) (tolower b.toInt)).then (compare (folded s) (folded t)) :=
            List.compare_cons_cons
          have hstart : folded (a :: s) <+: folded (b :: t) ↔
              tolower a.toInt = tolower b.toInt ∧ folded s <+: folded t := List.cons_prefix_cons
          by_cases heq : tolower a.toInt = tolower b.toInt
          · obtain ⟨r, hr, hsign⟩ := ih (fun c hc => hs c (List.mem_cons_of_mem a hc))
              fun c hc => ht c (List.mem_cons_of_mem b hc)
            refine ⟨r, (strcasecmp_eq ha heq).trans hr, ?_⟩
            rw [Signed, hcompare, hsign, Int.compare_eq_eq.mpr heq, if_congr (hstart.trans (and_iff_right heq)) rfl rfl]
            rfl
          · refine ⟨_, strcasecmp_ne ha heq, ?_⟩
            rw [Signed, hcompare, compare_sub, if_neg fun h => heq (hstart.mp h).1]
            cases hletters : compare (tolower a.toInt) (tolower b.toInt) with
            | lt => rfl
            | eq => exact absurd (Int.compare_eq_eq.mp hletters) heq
            | gt => rfl

/-! ## The order -/

/-- Up to case, the first string is a proper prefix of the second one. -/
def ProperPrefix (s t : List Int8) : Prop := folded s <+: folded t ∧ folded s ≠ folded t

theorem compare_zero_iff {r : Int} : compare r 0 = .eq ↔ r = 0 := Std.LawfulEqOrd.compare_eq_iff_eq

theorem compare_folded_iff : compare (folded s) (folded t) = .eq ↔ folded s = folded t :=
  Std.LawfulEqOrd.compare_eq_iff_eq

theorem sign_iff {r : Int} (hsign : Signed s t r) :
    compare r 0 = compare (folded s) (folded t) ↔ ¬ ProperPrefix s t := by
  by_cases hstart : folded s <+: folded t
  · rw [hsign, if_pos hstart, eq_comm, compare_folded_iff, ProperPrefix, not_and_not_right]
    exact ⟨fun heq _ => heq, fun h => h hstart⟩
  · rw [hsign, if_neg hstart]
    exact iff_of_true rfl fun h => hstart h.1

/-- A proper prefix gives 0. -/
theorem sign_of_properPrefix {r : Int} (hsign : Signed s t r) (h : ProperPrefix s t) : r = 0 := by
  rw [Signed, if_pos h.1] at hsign
  exact compare_zero_iff.mp hsign

theorem not_properPrefix_swap (h : ProperPrefix s t) : ¬ ProperPrefix t s := fun h' =>
  h.2 (h.1.eq_of_length (Nat.le_antisymm h.1.length_le h'.1.length_le))

/-- **The sign is the one of the order** if and only if the first string is no proper prefix. The result is then 0 for
    equal strings only, and the other way round it has the opposite sign if the second string is none as well. -/
theorem strcasecmp_iff (s t : List Int8) (hs : Ascii s) (ht : Ascii t) :
    ∃ r r', strcasecmp (s ++ [0]) (t ++ [0]) = some r ∧ strcasecmp (t ++ [0]) (s ++ [0]) = some r' ∧
      (compare r 0 = compare (folded s) (folded t) ↔ ¬ ProperPrefix s t) ∧
      ((r = 0 ↔ folded s = folded t) ↔ ¬ ProperPrefix s t) ∧
      (compare r 0 = (compare r' 0).swap ↔ ¬ ProperPrefix s t ∧ ¬ ProperPrefix t s) := by
  obtain ⟨r, hr, hsign⟩ := strcasecmp_result hs ht
  obtain ⟨r', hr', hsign'⟩ := strcasecmp_result ht hs
  refine ⟨r, r', hr, hr', sign_iff hsign, ?_, ?_⟩
  · constructor
    · exact fun hzero h => h.2 (hzero.mp (sign_of_properPrefix hsign h))
    · intro h
      rw [← compare_zero_iff, (sign_iff hsign).mpr h, compare_folded_iff]
  · have hswap : compare (folded s) (folded t) = (compare (folded t) (folded s)).swap := Std.OrientedOrd.eq_swap
    constructor
    · -- one result is 0, and the other one is not
      intro hopposite
      refine ⟨fun h => ?_, fun h => ?_⟩
      · rw [compare_zero_iff.mpr (sign_of_properPrefix hsign h), (sign_iff hsign').mpr (not_properPrefix_swap h),
          ← hswap, eq_comm, compare_folded_iff] at hopposite
        exact h.2 hopposite
      · rw [compare_zero_iff.mpr (sign_of_properPrefix hsign' h), (sign_iff hsign).mpr (not_properPrefix_swap h)]
          at hopposite
        exact h.2 (compare_folded_iff.mp hopposite).symm
    · rintro ⟨h, h'⟩
      rw [(sign_iff hsign).mpr h, (sign_iff hsign').mpr h', hswap]

theorem strcasecmp_iff_hello :
    ∃ r r', strcasecmp ([72, 105] ++ [0]) ([104, 79] ++ [0]) = some r ∧
      strcasecmp ([104, 79] ++ [0]) ([72, 105] ++ [0]) = some r' ∧
      (compare r 0 = compare (folded [72, 105]) (folded [104, 79]) ↔ ¬ ProperPrefix [72, 105] [104, 79]) ∧
      ((r = 0 ↔ folded [72, 105] = folded [104, 79]) ↔ ¬ ProperPrefix [72, 105] [104, 79]) ∧
      (compare r 0 = (compare r' 0).swap ↔ ¬ ProperPrefix [72, 105] [104, 79] ∧ ¬ ProperPrefix [104, 79] [72, 105]) :=
  strcasecmp_iff [72, 105] [104, 79] (by decide) (by decide)

/-- `"a"` and `"ab"` are equal, as it says. -/
theorem strcasecmp_a_ab : strcasecmp [97, 0] [97, 98, 0] = some 0 ∧
    compare (0 : Int) 0 ≠ compare (folded [97]) (folded [97, 98]) := by
  decide

theorem isLE_compare_start {xs ys : List Int} (h : xs <+: ys) : (compare xs ys).isLE := by
  induction xs generalizing ys with
  | nil => exact List.isLE_compareLex_nil_left
  | cons x xs ih =>
      obtain ⟨rest, rfl⟩ := h
      rw [List.cons_append, List.compare_cons_cons, Std.ReflOrd.compare_self]
      exact ih (List.prefix_append xs rest)

/-- The order without the signs. -/
theorem nonpos_iff {r : Int} (hsign : Signed s t r) : r ≤ 0 ↔ (compare (folded s) (folded t)).isLE := by
  rw [← Int.isLE_compare, hsign]
  by_cases hstart : folded s <+: folded t
  · rw [if_pos hstart]
    exact iff_of_true rfl (isLE_compare_start hstart)
  · rw [if_neg hstart]

/-- **Transitivity** does not need the condition. -/
theorem strcasecmp_trans (hs : Ascii s) (ht : Ascii t) (hu : Ascii u) {r r' r'' : Int}
    (hr : strcasecmp (s ++ [0]) (t ++ [0]) = some r) (hr' : strcasecmp (t ++ [0]) (u ++ [0]) = some r')
    (hr'' : strcasecmp (s ++ [0]) (u ++ [0]) = some r'') (hle : r ≤ 0) (hle' : r' ≤ 0) : r'' ≤ 0 := by
  have hsigns : ∀ {s t : List Int8} {r : Int}, Ascii s → Ascii t → strcasecmp (s ++ [0]) (t ++ [0]) = some r →
      (r ≤ 0 ↔ (compare (folded s) (folded t)).isLE) := by
    intro s t r hs ht hr
    obtain ⟨r₁, hr₁, hsign⟩ := strcasecmp_result hs ht
    obtain rfl := Option.some.inj (hr.symm.trans hr₁)
    exact nonpos_iff hsign
  exact (hsigns hs hu hr'').mpr
    (Std.TransOrd.isLE_trans ((hsigns hs ht hr).mp hle) ((hsigns ht hu hr').mp hle'))

end Workbench.Text
