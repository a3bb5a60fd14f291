import Mathlib.Tactic.Common

/-!
# `Text.Strstr` — the two versions of `Strstr`

A pointer is what is left of the block of a string, and a read at its end fails. What is returned is the number of bytes
before the place, or no number for `NULL`. The loops of `ws2` do not look at the empty rest of `haystack`.

## Main results
* `isNeedleIn_eq`, `Ws2.matches_iff` — the two comparisons;
* `strstr_iff` — when the two versions agree.
-/

namespace Workbench.Text

/-! ## The functions -/

namespace Ws2

/-- The inner loop. It leaves `tmp_c1` and `tmp_c2`. -/
def matchLoop : List UInt8 → List UInt8 → Option (List UInt8 × List UInt8)
  | [], _ => none
  | c1 :: tmpC1, tmpC2 =>
      if c1 ≠ 0 then do
        let c2 ← tmpC2.head?
        if c2 ≠ 0 ∧ c1 = c2 then matchLoop tmpC1 tmpC2.tail else return (c1 :: tmpC1, tmpC2)
      else
        some (c1 :: tmpC1, tmpC2)

/-- The outer loop. -/
def strstrLoop (needle : List UInt8) : Nat → List UInt8 → Option (Option Nat)
  | _, [] => none
  | pos, c :: haystack =>
      if c ≠ 0 then do
        let (tmpC1, _) ← matchLoop needle (c :: haystack)
        let c1 ← tmpC1.head?
        if c1 = 0 then return some pos else strstrLoop needle (pos + 1) haystack
      else
        some none

def strstr (haystack needle : List UInt8) : Option (Option Nat) := strstrLoop needle 0 haystack

end Ws2

namespace Recursion

def isNeedleIn : List UInt8 → List UInt8 → Option Bool
  | _, [] => none
  | haystack, c :: needle =>
      if c = 0 then some true else do
        let h ← haystack.head?
        if c ≠ h then return false else isNeedleIn haystack.tail needle

def strstrCall (needle : List UInt8) : Nat → List UInt8 → Option (Option Nat)
  | _, [] => none
  | pos, c :: haystack => do
      let found ← isNeedleIn (c :: haystack) needle
      if found then return some pos
      else if c = 0 then return none
      else strstrCall needle (pos + 1) haystack

def strstr (haystack needle : List UInt8) : Option (Option Nat) := strstrCall needle 0 haystack

end Recursion

/-! ## The first occurrence -/

variable {haystack needle : List UInt8} {c : UInt8} {pos : Nat}

/-- The first position at which `needle` occurs. -/
def occurrence (haystack needle : List UInt8) : Option Nat :=
  (List.range (haystack.length + 1)).find? fun pos => decide (needle <+: haystack.drop pos)

theorem occurrence_eq (haystack needle : List UInt8) : occurrence haystack needle =
    if needle <+: haystack then some 0
    else ((List.range haystack.length).find? fun pos => decide (needle <+: haystack.drop (pos + 1))).map (· + 1) := by
  rw [occurrence, List.range_succ_eq_map, List.find?_cons, List.find?_map]
  by_cases hstart : needle <+: haystack
  · rw [if_pos hstart, List.drop_zero, decide_eq_true hstart]
  · rw [if_neg hstart, List.drop_zero, decide_eq_false hstart]
    rfl

theorem occurrence_nil (needle : List UInt8) : occurrence [] needle = if needle = [] then some 0 else none := by
  rw [occurrence_eq, if_congr List.prefix_nil rfl rfl]
  rfl

theorem occurrence_cons (c : UInt8) (haystack needle : List UInt8) : occurrence (c :: haystack) needle =
    if needle <+: c :: haystack then some 0 else (occurrence haystack needle).map (· + 1) :=
  occurrence_eq (c :: haystack) needle

/-! ## The comparisons -/

namespace Recursion

theorem isNeedleIn_eq (hneedle : 0 ∉ needle) (hhaystack : 0 ∉ haystack) :
    isNeedleIn (haystack ++ [0]) (needle ++ [0]) = some (decide (needle <+: haystack)) := by
  induction needle generalizing haystack with
  | nil => rfl
  | cons c needle ih =>
      have hc : c ≠ 0 := (List.ne_of_not_mem_cons hneedle).symm
      rw [List.cons_append, isNeedleIn, if_neg hc]
      cases haystack with
      | nil =>
          have hnot : ¬ c :: needle <+: [] := fun h => by cases List.prefix_nil.mp h
          rw [decide_eq_false hnot]
          exact if_pos hc
      | cons h haystack =>
          rw [List.cons_append, List.head?_cons, Option.bind_eq_bind, Option.bind_some, List.tail_cons]
          by_cases heq : c = h
          · rw [if_neg (not_not_intro heq),
              ih (List.not_mem_of_not_mem_cons hneedle) (List.not_mem_of_not_mem_cons hhaystack)]
            exact congrArg some (decide_eq_decide.mpr (by rw [List.cons_prefix_cons, and_iff_right heq]))
          · rw [if_pos heq, decide_eq_false fun h => heq (List.cons_prefix_cons.mp h).1]
            rfl

theorem strstrCall_eq (hneedle : 0 ∉ needle) (hhaystack : 0 ∉ haystack) (pos : Nat) :
    strstrCall (needle ++ [0]) pos (haystack ++ [0]) = some ((occurrence haystack needle).map (pos + ·)) := by
  induction haystack generalizing pos with
  | nil =>
      have hfound := isNeedleIn_eq hneedle hhaystack
      rw [List.nil_append] at hfound
      rw [List.nil_append, strstrCall, hfound, occurrence_eq]
      by_cases hstart : needle <+: []
      · rw [decide_eq_true hstart, if_pos hstart]
        rfl
      · rw [decide_eq_false hstart, if_neg hstart]
        rfl
  | cons c haystack ih =>
      have hc : c ≠ 0 := (List.ne_of_not_mem_cons hhaystack).symm
      have hfound := isNeedleIn_eq hneedle hhaystack
      rw [List.cons_append] at hfound
      rw [List.cons_append, strstrCall, hfound, occurrence_cons]
      by_cases hstart : needle <+: c :: haystack
      · rw [decide_eq_true hstart, if_pos hstart]
        rfl
      · rw [decide_eq_false hstart, if_neg hstart, Option.bind_eq_bind, Option.bind_some, if_neg Bool.false_ne_true,
          if_neg hc, ih (List.not_mem_of_not_mem_cons hhaystack), Option.map_map]
        exact congrArg some (Option.map_congr fun i _ => Nat.add_right_comm pos 1 i)

end Recursion

namespace Ws2

theorem matches_iff (hneedle : 0 ∉ needle) (hhaystack : 0 ∉ haystack) :
    ∃ c1 tmpC1 tmpC2, matchLoop (needle ++ [0]) (haystack ++ [0]) = some (c1 :: tmpC1, tmpC2) ∧
      (c1 = 0 ↔ needle <+: haystack) := by
  induction needle generalizing haystack with
  | nil => exact ⟨0, [], _, rfl, iff_of_true rfl List.nil_prefix⟩
  | cons c needle ih =>
      have hc : c ≠ 0 := (List.ne_of_not_mem_cons hneedle).symm
      rw [List.cons_append, matchLoop, if_pos hc]
      cases haystack with
      | nil => exact ⟨c, needle ++ [0], [0], rfl, iff_of_false hc fun h => by cases List.prefix_nil.mp h⟩
      | cons h haystack =>
          have hh : h ≠ 0 := (List.ne_of_not_mem_cons hhaystack).symm
          rw [List.cons_append, List.head?_cons, Option.bind_eq_bind, Option.bind_some, List.tail_cons]
          by_cases heq : c = h
          · obtain ⟨c1, tmpC1, tmpC2, hloop, hend⟩ :=
              ih (List.not_mem_of_not_mem_cons hneedle) (List.not_mem_of_not_mem_cons hhaystack)
            rw [if_pos ⟨hh, heq⟩, hloop]
            exact ⟨c1, tmpC1, tmpC2, rfl, by rw [hend, List.cons_prefix_cons, and_iff_right heq]⟩
          · rw [if_neg fun h => heq h.2]
            exact ⟨c, needle ++ [0], _, rfl, iff_of_false hc fun h => heq (List.cons_prefix_cons.mp h).1⟩

/-- The empty rest is not compared. -/
theorem strstrLoop_eq (hneedle : 0 ∉ needle) (hhaystack : 0 ∉ haystack) (pos : Nat) :
    strstrLoop (needle ++ [0]) pos (haystack ++ [0]) =
      some (if haystack = [] then none else (occurrence haystack needle).map (pos + ·)) := by
  induction haystack generalizing pos with
  | nil => rfl
  | cons c haystack ih =>
      have hc : c ≠ 0 := (List.ne_of_not_mem_cons hhaystack).symm
      obtain ⟨c1, tmpC1, tmpC2, hloop, hend⟩ := matches_iff hneedle hhaystack
      rw [List.cons_append] at hloop
      rw [List.cons_append, strstrLoop, if_pos hc, hloop, if_neg (List.cons_ne_nil c haystack), occurrence_cons]
      show (if c1 = 0 then some (some pos) else strstrLoop (needle ++ [0]) (pos + 1) (haystack ++ [0])) = _
      by_cases hstart : needle <+: c :: haystack
      · rw [if_pos (hend.mpr hstart), if_pos hstart]
        rfl
      · rw [if_neg fun h => hstart (hend.mp h), if_neg hstart, ih (List.not_mem_of_not_mem_cons hhaystack)]
        by_cases hnil : haystack = []
        · -- only an empty needle occurs there, and it was found before
          have hneedle' : needle ≠ [] := by
            rintro rfl
            exact hstart List.nil_prefix
          rw [if_pos hnil, hnil, occurrence_nil, if_neg hneedle']
          rfl
        · rw [if_neg hnil, Option.map_map]
          exact congrArg some (Option.map_congr fun i _ => Nat.add_right_comm pos 1 i)

end Ws2

/-! ## The two versions -/

/-- **Both versions find the first occurrence** if and only if one of the strings is not empty. -/
theorem strstr_iff (haystack needle : List UInt8) (hhaystack : 0 ∉ haystack) (hneedle : 0 ∉ needle) :
    (Ws2.strstr (haystack ++ [0]) (needle ++ [0]) = some (occurrence haystack needle) ∧
        Recursion.strstr (haystack ++ [0]) (needle ++ [0]) = some (occurrence haystack needle)) ↔
      haystack ≠ [] ∨ needle ≠ [] := by
  have hsame : (occurrence haystack needle).map (0 + ·) = occurrence haystack needle := by
    cases occurrence haystack needle with
    | none => rfl
    | some i => exact congrArg some (Nat.zero_add i)
  rw [Recursion.strstr, Recursion.strstrCall_eq hneedle hhaystack, Ws2.strstr,
    Ws2.strstrLoop_eq hneedle hhaystack, hsame, and_iff_left rfl]
  by_cases hnil : haystack = []
  · rw [if_pos hnil, hnil, occurrence_nil]
    by_cases hempty : needle = []
    · rw [if_pos hempty, hempty]
      simp
    · rw [if_neg hempty]
      exact iff_of_true rfl (.inr hempty)
  · rw [if_neg hnil]
    exact iff_of_true rfl (.inl hnil)

theorem strstr_iff_ba :
    (Ws2.strstr ([97, 98, 97] ++ [0]) ([98, 97] ++ [0]) = some (occurrence [97, 98, 97] [98, 97]) ∧
        Recursion.strstr ([97, 98, 97] ++ [0]) ([98, 97] ++ [0]) = some (occurrence [97, 98, 97] [98, 97])) ↔
      ([97, 98, 97] : List UInt8) ≠ [] ∨ ([98, 97] : List UInt8) ≠ [] :=
  strstr_iff [97, 98, 97] [98, 97] (by decide) (by decide)

/-- Two empty strings. -/
theorem strstr_empty : Ws2.strstr [0] [0] = some none ∧ Recursion.strstr [0] [0] = some (some 0) ∧
    occurrence [] [] = some 0 := by
  decide

end Workbench.Text
