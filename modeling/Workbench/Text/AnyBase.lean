import Workbench.Lib.Positional
import Workbench.Lib.Strided
import Mathlib.Data.BitVec
import Mathlib.Data.Nat.Digits.Lemmas

/-!
# `Text.AnyBase` — `ItoaAnyBase` and `AtoiAnyBase`

An `int` wraps at 32 bits and a `size_t` at 64, and a `char` is signed. `str` is the buffer, from the character that the
pointer is at; an access outside of it is `none`, and so are an assertion that fails and a loop that does not end.

## Contents
* `digitCounter`, `itoaAnyBase`, `atoiAnyBase` — the functions;
* `digitCounter_eq`, `itoaLoop_eq`, `atoiLoop_iff` — what their loops do;
* `takeApart_intMin` — the digits of the smallest `int`, which stays negative;
* `anyBase_iff` — the numbers and old texts that make the round trip.
-/

namespace Workbench.AnyBase

open Positional

/-! ## The functions -/

/-- The loop of `DigitCounter`. -/
def digitCounterLoop (base : BitVec 32) : Nat → BitVec 32 → Nat → Option Nat
  | 0, _, _ => none
  | fuel + 1, num, count =>
      if num = 0 then some count
      else if base = 0 then none
      else digitCounterLoop base fuel (num.sdiv base) (count + 1)

def digitCounter (num : BitVec 32) (base : Nat) : Option Nat :=
  digitCounterLoop (BitVec.ofNat 32 base) 33 num 0

/-- `num % base` in `size_t`. -/
def digit (base : Nat) (num : BitVec 32) : Nat := (num.signExtend 64).toNat % base

/-- `num /= base`, again an `int`. -/
def next (base : Nat) (num : BitVec 32) : BitVec 32 := BitVec.ofNat 32 ((num.signExtend 64).toNat / base)

def digitChar (d : Nat) : BitVec 8 := if d < 10 then BitVec.ofNat 8 (d + 48) else BitVec.ofNat 8 (d + 55)

/-- The loop of `ItoaAnyBase`. -/
def itoaLoop (base : Nat) : Nat → BitVec 32 → List (BitVec 8) → Option (List (BitVec 8))
  | 0, num, str => if num = 0 then some str else none
  | count + 1, num, str =>
      if num = 0 then some str else do
        let str ← writeCell str count (digitChar (digit base num))
        itoaLoop base count (next base num) str

def itoaAnyBase (num : BitVec 32) (str : List (BitVec 8)) (base : Nat) : Option (List (BitVec 8)) :=
  if base ≤ 36 then do
    let count ← digitCounter num base
    if num.slt 0 then do
      let str ← writeCell str 0 45
      let str ← writeCell str (count + 1 : Nat) 0
      itoaLoop base (count + 1) (num * -1) str
    else
      itoaLoop base count num str
  else
    none

/-- `isupper`, of a character in the first half of the table. -/
def isupper (c : BitVec 8) : Bool := 65 ≤ c.toNat && c.toNat ≤ 90

def digitToAdd (c : BitVec 8) : BitVec 32 :=
  let digitToAdd := c.signExtend 32 - 48
  if isupper c then digitToAdd - 7 else digitToAdd

/-- The loop of `AtoiAnyBase`. -/
def atoiLoop (base : Nat) : BitVec 32 → List (BitVec 8) → Option (BitVec 32)
  | _, [] => none
  | num, c :: str => if c = 0 then some num else atoiLoop base (num * BitVec.ofNat 32 base + digitToAdd c) str

def atoiAnyBase (str : List (BitVec 8)) (base : Nat) : Option (BitVec 32) :=
  if base ≤ 36 ∧ base ≠ 0 ∧ base ≠ 1 then
    match str with
    | [] => none
    | c :: rest =>
        if c = 45 then (atoiLoop base 0 rest).map (· * -1) else (atoiLoop base 0 (c :: rest)).map (· * 1)
  else
    none

/-! ## Digits -/

variable {base count fuel : Nat} {num : BitVec 32} {str : List (BitVec 8)} {text rest : List (BitVec 8)}

theorem digitChar_values : ∀ d, d < 36 →
    digitToAdd (digitChar d) = BitVec.ofNat 32 d ∧ digitChar d ≠ 0 ∧ digitChar d ≠ 45 := by decide

theorem digit_lt (hbase : 2 ≤ base ∧ base ≤ 36) (num : BitVec 32) : digit base num < 36 :=
  Nat.lt_of_lt_of_le (Nat.mod_lt _ (by omega)) hbase.2

theorem digits_lt (hbase : 2 ≤ base ∧ base ≤ 36) {ds : List Nat}
    (h : takeApart (digit base) (next base) count num = some ds) : ∀ d ∈ ds, d < 36 :=
  forall_takeApart (fun num => show digit base num < 36 from digit_lt hbase num) h

/-- The `size_t` of a number is the number at 32 bits. -/
theorem ofNat_signExtend (num : BitVec 32) : BitVec.ofNat 32 (num.signExtend 64).toNat = num := by
  apply BitVec.eq_of_toNat_eq
  rw [BitVec.toNat_ofNat, BitVec.toNat_signExtend, BitVec.toNat_setWidth]
  have hlt := num.isLt
  split <;> omega

/-- One step of the loop takes the last digit off. -/
theorem next_digit (base : Nat) (num : BitVec 32) :
    next base num * BitVec.ofNat 32 base + BitVec.ofNat 32 (digit base num) = num := by
  rw [next, digit, ← BitVec.ofNat_mul, ← BitVec.ofNat_add, Nat.div_add_mod', ofNat_signExtend]

theorem toNat_signExtend_of_nonneg (h : num.msb = false) : (num.signExtend 64).toNat = num.toNat := by
  rw [BitVec.toNat_signExtend, h, BitVec.toNat_setWidth]
  have hlt := num.isLt
  simp only [Bool.false_eq_true, if_false]
  omega

theorem next_of_nonneg (base : Nat) (h : num.msb = false) :
    (next base num).msb = false ∧ (next base num).toNat = num.toNat / base := by
  have hlt := (BitVec.msb_eq_false_iff_two_mul_lt).mp h
  have hdiv : num.toNat / base ≤ num.toNat := Nat.div_le_self _ _
  have htoNat : (next base num).toNat = num.toNat / base := by
    rw [next, BitVec.toNat_ofNat, toNat_signExtend_of_nonneg h]
    exact Nat.mod_eq_of_lt (Nat.lt_of_le_of_lt hdiv num.isLt)
  refine ⟨(BitVec.msb_eq_false_iff_two_mul_lt).mpr ?_, htoNat⟩
  omega

/-- A number that is not negative has its usual digits. -/
theorem takeApart_of_nonneg (hbase : 2 ≤ base) (count : Nat) (h : num.msb = false)
    (hcount : (Nat.digits base num.toNat).length ≤ count) :
    ∃ ds, takeApart (digit base) (next base) count num = some ds ∧ ds.length = (Nat.digits base num.toNat).length := by
  induction count generalizing num with
  | zero =>
      have hzero : num = 0 := by
        apply BitVec.eq_of_toNat_eq
        exact Nat.digits_eq_nil_iff_eq_zero.mp (List.length_eq_zero_iff.mp (Nat.le_zero.mp hcount))
      subst hzero
      exact ⟨[], rfl, by simp⟩
  | succ count ih =>
      by_cases hzero : num = 0
      · subst hzero
        exact ⟨[], rfl, by simp⟩
      · obtain ⟨hnonneg, hdiv⟩ := next_of_nonneg base h
        have hpos : 0 < num.toNat := Nat.pos_of_ne_zero fun hnum => hzero (BitVec.eq_of_toNat_eq hnum)
        rw [Nat.digits_def' (by omega) hpos, List.length_cons] at hcount ⊢
        obtain ⟨front, hfront, hlength⟩ := ih hnonneg (by rw [hdiv]; omega)
        refine ⟨front ++ [digit base num], ?_, ?_⟩
        · rw [takeApart, if_neg hzero, hfront]
          rfl
        · rw [List.length_append, List.length_singleton, hlength, hdiv]

/-! ## `DigitCounter` -/

/-- How many digits a number has. -/
def digits (base : Nat) (num : BitVec 32) : Nat := (Nat.digits base num.toInt.natAbs).length

theorem digits_zero (base : Nat) : digits base 0 = 0 := congrArg List.length (Nat.digits_zero base)

theorem toInt_base (hbase : 2 ≤ base ∧ base ≤ 36) : (BitVec.ofNat 32 base).toInt = base := by
  have htoNat : (BitVec.ofNat 32 base).toNat = base := by
    rw [BitVec.toNat_ofNat]
    omega
  rw [BitVec.toInt_eq_toNat_of_lt (by omega), htoNat]

/-- One division takes the last digit off, of a negative number too. -/
theorem natAbs_sdiv (hbase : 2 ≤ base ∧ base ≤ 36) (num : BitVec 32) :
    (num.sdiv (BitVec.ofNat 32 base)).toInt.natAbs = num.toInt.natAbs / base := by
  have hminus : BitVec.ofNat 32 base ≠ -1#32 := by
    intro h
    have hbaseInt := toInt_base hbase
    rw [h] at hbaseInt
    exact absurd (hbaseInt.trans_ge (Int.natCast_nonneg base)) (by decide)
  rw [BitVec.toInt_sdiv_of_ne_or_ne _ _ (.inr hminus), toInt_base hbase, Int.natAbs_tdiv]
  rfl

theorem digitCounterLoop_eq (hbase : 2 ≤ base ∧ base ≤ 36) (hfuel : digits base num < fuel) :
    digitCounterLoop (BitVec.ofNat 32 base) fuel num count =
      some (count + digits base num) := by
  induction fuel generalizing num count with
  | zero => exact absurd hfuel (Nat.not_lt_zero _)
  | succ fuel ih =>
      rw [digitCounterLoop]
      by_cases hzero : num = 0
      · subst hzero
        rw [if_pos rfl, digits_zero, Nat.add_zero]
      · have hbaseZero : BitVec.ofNat 32 base ≠ 0 := by
          intro h
          have hbaseInt := toInt_base hbase
          rw [h] at hbaseInt
          exact absurd (Int.natCast_eq_zero.mp hbaseInt.symm) (by omega)
        have hpos : 0 < num.toInt.natAbs := by
          apply Int.natAbs_pos.mpr
          intro h
          exact hzero (BitVec.eq_of_toInt_eq h)
        rw [if_neg hzero, if_neg hbaseZero]
        rw [digits, Nat.digits_def' (by omega) hpos, List.length_cons] at hfuel ⊢
        rw [ih (by rw [digits, natAbs_sdiv hbase]; omega), digits, natAbs_sdiv hbase, Nat.add_right_comm, Nat.add_assoc]

/-- **`DigitCounter`** counts the digits. -/
theorem digitCounter_eq (hbase : 2 ≤ base ∧ base ≤ 36) (num : BitVec 32) :
    digitCounter num base = some (digits base num) := by
  have habs : num.toInt.natAbs < 2 ^ 32 := by
    have hlow := BitVec.le_toInt num
    have hhigh := BitVec.toInt_lt (x := num)
    omega
  have hlength : digits base num ≤ 32 :=
    (Nat.digits_length_le_iff (by omega) _).mpr (Nat.lt_of_lt_of_le habs (Nat.pow_le_pow_left hbase.1 32))
  rw [digitCounter, digitCounterLoop_eq hbase (Nat.lt_succ_of_le hlength), Nat.zero_add]

/-! ## `AtoiAnyBase` -/

theorem atoiLoop_append (htext : ∀ c ∈ text, c ≠ 0) (str : List (BitVec 8)) (num : BitVec 32) :
    atoiLoop base num (text ++ str) = atoiLoop base (readOn (BitVec.ofNat 32 base) num (text.map digitToAdd)) str := by
  induction text generalizing num with
  | nil => rfl
  | cons c text ih =>
      rw [List.cons_append, atoiLoop, if_neg (htext c List.mem_cons_self)]
      exact ih (fun c hc => htext c (List.mem_cons_of_mem _ hc)) _

/-- What is read after a number, up to the first NUL. -/
theorem atoiLoop_iff {result : BitVec 32} :
    atoiLoop base num str = some result ↔
      ∃ text rest, str = text ++ 0 :: rest ∧ (∀ c ∈ text, c ≠ 0) ∧
        num * BitVec.ofNat 32 base ^ text.length + value (BitVec.ofNat 32 base) (text.map digitToAdd) = result := by
  constructor
  · intro h
    induction str generalizing num with
    | nil => cases h
    | cons c str ih =>
        rw [atoiLoop] at h
        split at h
        · next hc =>
            refine ⟨[], str, by rw [hc]; rfl, nofun, ?_⟩
            rw [List.map_nil, value, List.length_nil, pow_zero, mul_one, add_zero]
            exact Option.some.inj h
        · next hc =>
            obtain ⟨text, rest, rfl, htext, hvalue⟩ := ih h
            refine ⟨c :: text, rest, rfl, List.forall_mem_cons.mpr ⟨hc, htext⟩, ?_⟩
            rw [← hvalue, List.map_cons, value, List.length_map, List.length_cons]
            ring
  · rintro ⟨text, rest, rfl, htext, hvalue⟩
    rw [atoiLoop_append htext, readOn_eq, List.length_map, hvalue]
    rfl

theorem nul_of_atoiLoop {result : BitVec 32} (h : atoiLoop base num str = some result) : 0 ∈ str := by
  obtain ⟨text, rest, rfl, -, -⟩ := atoiLoop_iff.mp h
  exact List.mem_append_right _ List.mem_cons_self

/-- What is read has an end. -/
theorem nul_of_atoiAnyBase {result : BitVec 32} (h : atoiAnyBase str base = some result) : 0 ∈ str := by
  unfold atoiAnyBase at h
  split at h
  · cases str with
    | nil => cases h
    | cons c rest =>
        dsimp only at h
        split at h
        · obtain ⟨num, hnum, -⟩ := Option.map_eq_some_iff.mp h
          exact List.mem_cons_of_mem _ (nul_of_atoiLoop hnum)
        · obtain ⟨num, hnum, -⟩ := Option.map_eq_some_iff.mp h
          exact nul_of_atoiLoop hnum
  · cases h

/-! ## `ItoaAnyBase` -/

/-- The loop writes the digits in front of where it starts. -/
theorem itoaLoop_eq (hcount : count ≤ str.length) :
    itoaLoop base count num str =
      (takeApart (digit base) (next base) count num).map fun ds =>
        str.take (count - ds.length) ++ (ds.map digitChar ++ str.drop count) := by
  induction count generalizing num str with
  | zero =>
      rw [itoaLoop, takeApart]
      split <;> rfl
  | succ count ih =>
      rw [itoaLoop, takeApart]
      split
      · show some str = some (str.take (count + 1) ++ ([] ++ str.drop (count + 1)))
        rw [List.nil_append, List.take_append_drop]
      · rw [writeCell_natCast hcount, Option.map_map]
        show itoaLoop base count _ (str.set count _) = _
        rw [ih (by rw [List.length_set]; omega)]
        refine congrArg (Option.map · _) (funext fun ds => ?_)
        rw [List.take_set_of_le (Nat.sub_le _ _), List.drop_set, if_neg (Nat.lt_irrefl _), Nat.sub_self,
          List.drop_eq_getElem_cons hcount, List.set_cons_zero]
        simp

/-- The bases where the loop ends on the smallest `int`. -/
def minEnds : List Nat := [3, 5, 9, 11, 12, 14, 15, 17, 18, 19, 21, 22, 28, 31, 33, 35, 36]

theorem takeApart_intMin_all : ∀ base ∈ List.range' 2 35, ∀ count ∈ digitCounter (BitVec.intMin 32) base,
    (takeApart (digit base) (next base) (count + 1) (BitVec.intMin 32)).isSome = minEnds.contains base ∧
      ∀ ds ∈ takeApart (digit base) (next base) (count + 1) (BitVec.intMin 32), count ≤ ds.length := by
  decide +kernel

/-! ## Round trips -/

/-- The text that is written is a string and is read as the number. -/
def RoundTrips (base : Nat) (num : BitVec 32) (str : List (BitVec 8)) : Prop :=
  ∃ str', itoaAnyBase num str base = some str' ∧ 0 ∈ str' ∧ atoiAnyBase str' base = some num

/-- There is room for the sign, the digits and a NUL. -/
def LargeEnough (base : Nat) (num : BitVec 32) (str : List (BitVec 8)) : Prop :=
  digits base num + (if num.slt 0 then 2 else 1) ≤ str.length

/-- Behind a minus sign. -/
def afterSign (str : List (BitVec 8)) : List (BitVec 8) := if str.head? = some 45 then str.tail else str

/-- What is read of the old text: behind the digits, and of a zero, which is not written, all but a minus sign. -/
def older (base : Nat) (num : BitVec 32) (str : List (BitVec 8)) : List (BitVec 8) :=
  if num = 0 then afterSign str else str.drop (digits base num)

/-- The old text ends and does not change the number. -/
def Harmless (base : Nat) (num : BitVec 32) (str : List (BitVec 8)) : Prop :=
  ∃ text rest, older base num str = text ++ 0 :: rest ∧ (∀ c ∈ text, c ≠ 0) ∧
    num * BitVec.ofNat 32 base ^ text.length + value (BitVec.ofNat 32 base) (text.map digitToAdd) = num

/-- A digit is read as it was written. -/
theorem atoiLoop_written (hbase : 2 ≤ base ∧ base ≤ 36) {ds : List Nat}
    (h : takeApart (digit base) (next base) count num = some ds) (str : List (BitVec 8)) :
    atoiLoop base 0 (ds.map digitChar ++ str) = atoiLoop base num str := by
  have hlt := digits_lt hbase h
  have hvalues : (ds.map digitChar).map digitToAdd = ds.map (BitVec.ofNat 32) := by
    rw [List.map_map]
    exact List.map_congr_left fun d hd => (digitChar_values d (hlt d hd)).1
  have htext : ∀ c ∈ ds.map digitChar, c ≠ 0 := by
    intro c hc
    obtain ⟨d, hd, rfl⟩ := List.mem_map.mp hc
    exact (digitChar_values d (hlt d hd)).2.1
  rw [atoiLoop_append htext, hvalues, readOn_zero, value_takeApart (next_digit base) h]

theorem atoiAnyBase_minus (hbase : 2 ≤ base ∧ base ≤ 36) (str : List (BitVec 8)) :
    atoiAnyBase (45 :: str) base = (atoiLoop base 0 str).map (· * -1) := by
  rw [atoiAnyBase, if_pos ⟨hbase.2, by omega, by omega⟩]
  rfl

theorem atoiAnyBase_no_minus (hbase : 2 ≤ base ∧ base ≤ 36) (hhead : str.head? ≠ some 45) :
    atoiAnyBase str base = atoiLoop base 0 str := by
  unfold atoiAnyBase
  rw [if_pos ⟨hbase.2, by omega, by omega⟩]
  cases str with
  | nil => rfl
  | cons c rest =>
      have hc : c ≠ 45 := fun hc => hhead (congrArg some hc)
      show (if c = 45 then _ else (atoiLoop base 0 (c :: rest)).map (· * 1)) = _
      rw [if_neg hc]
      exact (congrArg (Option.map · _) (funext mul_one)).trans Option.map_id'

/-- Digits do not begin with a minus sign. -/
theorem head?_digits (hbase : 2 ≤ base ∧ base ≤ 36) {ds : List Nat}
    (h : takeApart (digit base) (next base) count num = some ds) (hne : ds ≠ []) (str : List (BitVec 8)) :
    (ds.map digitChar ++ str).head? ≠ some 45 := by
  cases ds with
  | nil => exact absurd rfl hne
  | cons d ds =>
      intro hhead
      exact (digitChar_values d (digits_lt hbase h d List.mem_cons_self)).2.2 (Option.some.inj hhead)

/-! ## Negative numbers -/

/-- What the branch for negative numbers and the loop leave. -/
theorem itoaAnyBase_negative (hbase : 2 ≤ base ∧ base ≤ 36) (hneg : num.slt 0 = true)
    (hroom : digits base num + 2 ≤ str.length) :
    ∃ tail rest, itoaAnyBase num str base =
      (takeApart (digit base) (next base) (digits base num + 1) (-num)).map fun ds =>
        (45 :: tail).take (digits base num + 1 - ds.length) ++ (ds.map digitChar ++ 0 :: rest) := by
  obtain ⟨c, tail, rfl⟩ := List.exists_cons_of_length_pos (show 0 < str.length by omega)
  have hlength : digits base num < tail.length := by
    rw [List.length_cons] at hroom
    omega
  refine ⟨tail.set (digits base num) 0, tail.drop (digits base num + 1), ?_⟩
  have hsign : writeCell (c :: tail) 0 45 = some (45 :: tail) := writeCell_natCast (Nat.succ_pos _) 45
  have hend : writeCell (45 :: tail) (digits base num + 1 : Nat) 0 = some (45 :: tail.set (digits base num) 0) :=
    writeCell_natCast (Nat.succ_lt_succ hlength) 0
  rw [itoaAnyBase, if_pos hbase.2, digitCounter_eq hbase, Option.bind_eq_bind, Option.bind_some, if_pos hneg, hsign,
    Option.bind_eq_bind, Option.bind_some, hend, Option.bind_some,
    itoaLoop_eq (by rw [List.length_cons, List.length_set]; omega), mul_neg_one]
  refine congrArg (Option.map · _) (funext fun ds => ?_)
  rw [List.drop_succ_cons, List.drop_set, if_neg (Nat.lt_irrefl _), Nat.sub_self, List.drop_eq_getElem_cons hlength,
    List.set_cons_zero]

/-- With all of the digits, or one more that is in the place of the sign, the number is read. -/
theorem atoiAnyBase_negative (hbase : 2 ≤ base ∧ base ≤ 36) {ds : List Nat} {tail : List (BitVec 8)}
    (h : takeApart (digit base) (next base) (count + 1) (-num) = some ds) (hlength : count ≤ ds.length)
    (hmin : ds.length ≠ count → -num = num) :
    atoiAnyBase ((45 :: tail).take (count + 1 - ds.length) ++ (ds.map digitChar ++ 0 :: rest)) base = some num := by
  have hread : atoiLoop base 0 (ds.map digitChar ++ 0 :: rest) = some (-num) := by
    rw [atoiLoop_written hbase h]
    rfl
  by_cases hcount : ds.length = count
  · rw [hcount, Nat.add_sub_cancel_left, List.take_succ_cons, List.take_zero, List.singleton_append,
      atoiAnyBase_minus hbase, hread, Option.map_some, mul_neg_one, neg_neg]
  · have hle := length_takeApart_le h
    have hne : ds ≠ [] := by
      rintro rfl
      exact hcount (Nat.le_antisymm (Nat.zero_le _) hlength)
    rw [Nat.sub_eq_zero_of_le (by omega), List.take_zero, List.nil_append,
      atoiAnyBase_no_minus hbase (head?_digits hbase h hne _), hread, hmin hcount]

/-- The digits of a negative number, but the smallest one. -/
theorem takeApart_negative (hbase : 2 ≤ base) (hneg : num.slt 0 = true) (hmin : num ≠ BitVec.intMin 32) :
    ∃ ds, takeApart (digit base) (next base) (digits base num + 1) (-num) = some ds ∧
      ds.length = digits base num := by
  have hmsb : num.msb = true := BitVec.slt_zero_iff_msb_cond.mp hneg
  have hnonneg : (-num).msb = false := by
    rw [BitVec.msb_neg_of_ne_intMin_of_ne_zero hmin (by rintro rfl; cases hmsb), hmsb]
    rfl
  have htoNat : (-num).toNat = num.toInt.natAbs := by
    have hint := BitVec.toInt_neg_of_ne_intMin hmin
    rw [BitVec.toInt_eq_toNat_of_msb hnonneg] at hint
    have := BitVec.toInt_neg_of_msb_true hmsb
    omega
  have hdigits := takeApart_of_nonneg hbase (digits base num + 1) hnonneg
    (by rw [htoNat]; exact Nat.le_succ _)
  rw [htoNat] at hdigits
  exact hdigits

theorem takeApart_intMin (hbase : 2 ≤ base ∧ base ≤ 36) (hmin : num = BitVec.intMin 32) :
    ((takeApart (digit base) (next base) (digits base num + 1) (-num)).isSome = true ↔ base ∈ minEnds) ∧
    ∀ ds, takeApart (digit base) (next base) (digits base num + 1) (-num) = some ds →
      digits base num ≤ ds.length := by
  subst hmin
  have hmem : base ∈ List.range' 2 35 := List.mem_range'_1.mpr ⟨hbase.1, by omega⟩
  obtain ⟨hends, hlength⟩ := takeApart_intMin_all base hmem _ (digitCounter_eq hbase _)
  rw [BitVec.neg_intMin]
  refine ⟨?_, fun ds hds => hlength ds hds⟩
  rw [hends, List.contains_iff_mem]

theorem takeApart_neg_isSome_iff (hbase : 2 ≤ base ∧ base ≤ 36) (hneg : num.slt 0 = true) :
    (takeApart (digit base) (next base) (digits base num + 1) (-num)).isSome = true ↔
      num ≠ BitVec.intMin 32 ∨ base ∈ minEnds := by
  by_cases hmin : num = BitVec.intMin 32
  · rw [(takeApart_intMin hbase hmin).1]
    exact (or_iff_right (not_not_intro hmin)).symm
  · obtain ⟨ds, hds, -⟩ := takeApart_negative hbase.1 hneg hmin
    rw [hds]
    exact iff_of_true rfl (.inl hmin)

/-- **A negative number** makes the round trip if and only if it is not the smallest `int`, or the loop ends on that. -/
theorem roundTrips_negative_iff (hbase : 2 ≤ base ∧ base ≤ 36) (hneg : num.slt 0 = true)
    (hroom : digits base num + 2 ≤ str.length) :
    RoundTrips base num str ↔ num ≠ BitVec.intMin 32 ∨ base ∈ minEnds := by
  obtain ⟨tail, rest, heq⟩ := itoaAnyBase_negative hbase hneg hroom
  rw [← takeApart_neg_isSome_iff hbase hneg]
  constructor
  · rintro ⟨str', hitoa, -, -⟩
    rw [heq] at hitoa
    obtain ⟨ds, hds, -⟩ := Option.map_eq_some_iff.mp hitoa
    exact Option.isSome_iff_exists.mpr ⟨ds, hds⟩
  · intro hends
    obtain ⟨ds, hds⟩ := Option.isSome_iff_exists.mp hends
    have hlength : digits base num ≤ ds.length ∧ (ds.length ≠ digits base num → -num = num) := by
      by_cases hmin : num = BitVec.intMin 32
      · refine ⟨(takeApart_intMin hbase hmin).2 ds hds, fun _ => ?_⟩
        rw [hmin, BitVec.neg_intMin]
      · obtain ⟨ds', hds', hlength⟩ := takeApart_negative hbase.1 hneg hmin
        obtain rfl := Option.some.inj (hds.symm.trans hds')
        exact ⟨hlength.ge, fun hne => absurd hlength hne⟩
    refine ⟨_, by rw [heq, hds]; rfl, ?_, atoiAnyBase_negative hbase hds hlength.1 hlength.2⟩
    exact List.mem_append_right _ (List.mem_append_right _ List.mem_cons_self)

/-! ## Other numbers -/

theorem itoaAnyBase_nonneg (hbase : 2 ≤ base ∧ base ≤ 36) (hnonneg : num.slt 0 = false)
    (hroom : digits base num ≤ str.length) :
    ∃ ds, takeApart (digit base) (next base) (digits base num) num = some ds ∧ ds.length = digits base num ∧
      itoaAnyBase num str base = some (ds.map digitChar ++ str.drop (digits base num)) := by
  have hmsb : num.msb = false := BitVec.slt_zero_eq_msb.symm.trans hnonneg
  have hdigits : (Nat.digits base num.toNat).length = digits base num := by
    rw [digits, BitVec.toInt_eq_toNat_of_msb hmsb]
    rfl
  obtain ⟨ds, hds, hlength⟩ := takeApart_of_nonneg hbase.1 (digits base num) hmsb hdigits.le
  rw [hdigits] at hlength
  refine ⟨ds, hds, hlength, ?_⟩
  rw [itoaAnyBase, if_pos hbase.2, digitCounter_eq hbase, Option.bind_eq_bind, Option.bind_some, hnonneg,
    if_neg Bool.false_ne_true, itoaLoop_eq hroom, hds, Option.map_some, hlength, Nat.sub_self, List.take_zero,
    List.nil_append]

/-- What is read is what is read on in the old text. -/
theorem atoiAnyBase_nonneg (hbase : 2 ≤ base ∧ base ≤ 36) {ds : List Nat}
    (hds : takeApart (digit base) (next base) (digits base num) num = some ds) (hlength : ds.length = digits base num) :
    atoiAnyBase (ds.map digitChar ++ str.drop (digits base num)) base = some num ↔
      atoiLoop base num (older base num str) = some num := by
  by_cases hzero : num = 0
  · subst hzero
    rw [digits_zero] at hlength ⊢
    obtain rfl := List.length_eq_zero_iff.mp hlength
    rw [List.map_nil, List.nil_append, List.drop_zero, older, if_pos rfl, afterSign]
    by_cases hhead : str.head? = some 45
    · obtain ⟨tail, rfl⟩ := List.head?_eq_some_iff.mp hhead
      rw [if_pos hhead, atoiAnyBase_minus hbase, List.tail_cons, Option.map_eq_some_iff]
      constructor
      · rintro ⟨a, ha, hminus⟩
        rw [mul_neg_one, neg_eq_zero] at hminus
        rw [ha, hminus]
      · exact fun h => ⟨0, h, rfl⟩
    · rw [if_neg hhead, atoiAnyBase_no_minus hbase hhead]
  · have hne : ds ≠ [] := by
      rintro rfl
      have hvalue : value (BitVec.ofNat 32 base) (([] : List Nat).map (BitVec.ofNat 32)) = num :=
        value_takeApart (next_digit base) hds
      exact hzero hvalue.symm
    rw [older, if_neg hzero, atoiAnyBase_no_minus hbase (head?_digits hbase hds hne _), atoiLoop_written hbase hds]

/-- **Another number** makes the round trip if and only if the old text is harmless. -/
theorem roundTrips_nonneg_iff (hbase : 2 ≤ base ∧ base ≤ 36) (hnonneg : num.slt 0 = false)
    (hroom : digits base num ≤ str.length) : RoundTrips base num str ↔ Harmless base num str := by
  obtain ⟨ds, hds, hlength, heq⟩ := itoaAnyBase_nonneg hbase hnonneg hroom
  have hread : RoundTrips base num str ↔ atoiLoop base num (older base num str) = some num := by
    rw [← atoiAnyBase_nonneg hbase hds hlength]
    constructor
    · rintro ⟨str', hitoa, -, hatoi⟩
      obtain rfl := Option.some.inj (heq.symm.trans hitoa)
      exact hatoi
    · exact fun hatoi => ⟨_, heq, nul_of_atoiAnyBase hatoi, hatoi⟩
  exact hread.trans atoiLoop_iff

/-- A NUL behind the digits is harmless. -/
theorem harmless_of_nul (h : older base num str = 0 :: rest) : Harmless base num str := by
  refine ⟨[], rest, h, nofun, ?_⟩
  rw [List.map_nil, value, List.length_nil, pow_zero, mul_one, add_zero]

/-- The numbers and old texts that make the round trip. -/
def Returns (base : Nat) (num : BitVec 32) (str : List (BitVec 8)) : Prop :=
  if num.slt 0 then num ≠ BitVec.intMin 32 ∨ base ∈ minEnds else Harmless base num str

/-- **A number makes the round trip if and only if** it is negative and the loop ends on it, or it is not negative and
    the old text behind its digits is harmless. -/
theorem anyBase_iff (base : Nat) (num : BitVec 32) (str : List (BitVec 8)) (hbase : 2 ≤ base ∧ base ≤ 36)
    (hroom : LargeEnough base num str) : RoundTrips base num str ↔ Returns base num str := by
  rw [LargeEnough] at hroom
  rw [Returns]
  cases hneg : num.slt 0
  · exact roundTrips_nonneg_iff hbase hneg (by omega)
  · rw [hneg, if_pos rfl] at hroom
    exact roundTrips_negative_iff hbase hneg hroom

theorem anyBase_sample : RoundTrips 16 255 [0, 0, 0] :=
  (anyBase_iff 16 255 [0, 0, 0] (by decide) (by unfold LargeEnough; decide)).mpr
    (harmless_of_nul (show _ = [0] from rfl))

/-- The old text goes on behind the digits. -/
theorem older_text_is_read : ¬ ∀ base num str, 2 ≤ base ∧ base ≤ 36 → LargeEnough base num str →
    RoundTrips base num str := by
  intro hall
  obtain ⟨str', hitoa, -, hatoi⟩ := hall 10 5 [57, 57, 0] (by decide) (by unfold LargeEnough; decide)
  have hwritten : itoaAnyBase 5 [57, 57, 0] 10 = some [53, 57, 0] := by decide
  obtain rfl := Option.some.inj (hitoa.symm.trans hwritten)
  exact absurd hatoi (by decide)

end Workbench.AnyBase
