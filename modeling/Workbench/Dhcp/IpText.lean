import Workbench.Dhcp.Trie
import Workbench.Lib.Decimal

/-!
# `Dhcp.IpText` — addresses as text

A text is the bytes in front of its `NUL`. An address is written as its four bytes, and read with sums and shifts that
wrap around.

## Main results
* `stringToIp_dotted` — the value of four numerals with dots between them;
* `ipToString_eq` — the four numerals of an address;
* `text_inverse` — reading and writing are inverse.
-/

namespace Workbench.Dhcp

open Decimal

/-! ## The functions -/

/-- `sprintf` with `%u`. -/
def printed (byte : Ip) : List Char := Nat.toDigits 10 byte.toNat

def ipToString (ip : Ip) : List Char :=
  let byte1 := (ip >>> (3 * 8)) &&& 0xff#32
  let byte2 := (ip >>> (2 * 8)) &&& 0xff#32
  let byte3 := (ip >>> 8) &&& 0xff#32
  let byte4 := ip &&& 0xff#32
  printed byte1 ++ '.' :: (printed byte2 ++ '.' :: (printed byte3 ++ '.' :: printed byte4))

/-- A byte of the text as an `unsigned int`: it is a signed `char`. -/
def charValue (c : Char) : Ip := (BitVec.ofNat 8 c.toNat).signExtend 32

/-- The inner loop of `StringToIp`: `byte_num`, and where `ip` is. -/
def byteLoop : List Char → Ip → Ip × List Char
  | [], byteNum => (byteNum, [])
  | c :: ip, byteNum =>
      if c ≠ '.' then byteLoop ip (byteNum * 10 + (charValue c - charValue '0')) else (byteNum, c :: ip)

theorem byteLoop_length (ip : List Char) (byteNum : Ip) : (byteLoop ip byteNum).2.length ≤ ip.length := by
  induction ip generalizing byteNum with
  | nil => exact Nat.le_refl _
  | cons c ip ih =>
      rw [byteLoop]
      split
      · exact Nat.le_succ_of_le (ih _)
      · exact Nat.le_refl _

/-- The outer loop of `StringToIp`. -/
def stringToIpLoop : List Char → Ip → Ip
  | [], ipNum => ipNum
  | c :: ip, ipNum =>
      let read := byteLoop (c :: ip) 0
      -- behind a dot, or at the end
      stringToIpLoop read.2.tail ((ipNum <<< 8) + read.1)
termination_by ip => ip.length
decreasing_by
  have hlen := byteLoop_length (c :: ip) 0
  rw [List.length_tail]
  rw [List.length_cons] at hlen ⊢
  omega

def stringToIp (ip : List Char) : Ip := stringToIpLoop ip 0

/-! ## Reading -/

variable {a b c d s rest : List Char} {ip ipNum : Ip} {n : Nat}

/-- A numeral of a byte. -/
structure IsByte (s : List Char) : Prop extends IsNumeral s where
  le : Nat.ofDigitChars 10 s 0 ≤ 255

/-- Four numbers with dots between them. -/
def dotted (a b c d : List Char) : List Char := a ++ '.' :: (b ++ '.' :: (c ++ '.' :: d))

/-- Four decimal numbers from 0 to 255 without leading zeros, with single dots between them. -/
def IsDotted (s : List Char) : Prop :=
  ∃ a b c d, IsByte a ∧ IsByte b ∧ IsByte c ∧ IsByte d ∧ s = dotted a b c d

theorem charValue_digit {c : Char} (h : c.isDigit = true) :
    charValue c - charValue '0' = BitVec.ofNat 32 (c.toNat - 48) := by
  have hall : ∀ d < 10, charValue d.digitChar - charValue '0' = BitVec.ofNat 32 d := by decide
  have hdigit := hall (c.toNat - 48) (by have := toNat_of_isDigit h; omega)
  rw [digitChar_of_isDigit h] at hdigit
  exact hdigit

/-- **The digits** are folded into the number. -/
theorem byteLoop_digits (hs : ∀ c ∈ s, c.isDigit = true) :
    byteLoop (s ++ rest) (BitVec.ofNat 32 n) = byteLoop rest (BitVec.ofNat 32 (Nat.ofDigitChars 10 s n)) := by
  induction s generalizing n with
  | nil => rfl
  | cons c s ih =>
      have hdigit := hs c List.mem_cons_self
      have hdot : c ≠ '.' := by
        rintro rfl
        exact absurd hdigit (by decide)
      have hnext : BitVec.ofNat 32 n * 10 + (charValue c - charValue '0') =
          BitVec.ofNat 32 (10 * n + (c.toNat - '0'.toNat)) := by
        rw [charValue_digit hdigit, Nat.mul_comm, BitVec.ofNat_add, BitVec.ofNat_mul]
        rfl
      rw [List.cons_append, byteLoop, if_pos hdot, hnext, ih fun c' hc' => hs c' (List.mem_cons_of_mem c hc'),
        Nat.ofDigitChars_cons]

theorem stringToIpLoop_eq (hs : s ≠ []) : stringToIpLoop s ipNum =
    stringToIpLoop (byteLoop s 0).2.tail ((ipNum <<< 8) + (byteLoop s 0).1) := by
  cases s with
  | nil => exact absurd rfl hs
  | cons c s => rw [stringToIpLoop]

/-- A number and the dot behind it. -/
theorem stringToIpLoop_dot (hs : IsByte s) : stringToIpLoop (s ++ '.' :: rest) ipNum =
    stringToIpLoop rest ((ipNum <<< 8) + BitVec.ofNat 32 (Nat.ofDigitChars 10 s 0)) := by
  have hread : byteLoop (s ++ '.' :: rest) 0 = (BitVec.ofNat 32 (Nat.ofDigitChars 10 s 0), '.' :: rest) := by
    refine (byteLoop_digits (n := 0) hs.digits).trans ?_
    rw [byteLoop, if_neg (not_not.mpr rfl)]
  rw [stringToIpLoop_eq (List.append_ne_nil_of_left_ne_nil hs.ne_nil _), hread]
  rfl

/-- The last number. -/
theorem stringToIpLoop_end (hs : IsByte s) :
    stringToIpLoop s ipNum = (ipNum <<< 8) + BitVec.ofNat 32 (Nat.ofDigitChars 10 s 0) := by
  have hread : byteLoop s 0 = (BitVec.ofNat 32 (Nat.ofDigitChars 10 s 0), []) := by
    have hdigits : byteLoop (s ++ []) 0 = _ := byteLoop_digits (n := 0) hs.digits
    rw [List.append_nil] at hdigits
    exact hdigits
  rw [stringToIpLoop_eq hs.ne_nil, hread, List.tail_nil, stringToIpLoop]

/-- One byte is put behind the others. -/
theorem toNat_shiftIn {x : Nat} (hip : ip.toNat = x) (hx : x < 16777216) (hn : n ≤ 255) :
    ((ip <<< 8) + BitVec.ofNat 32 n).toNat = x * 256 + n := by
  rw [BitVec.toNat_add, BitVec.toNat_shiftLeft, BitVec.toNat_ofNat, Nat.shiftLeft_eq, hip]
  omega

/-- **Four numerals** are the bytes of the address. -/
theorem stringToIp_dotted (ha : IsByte a) (hb : IsByte b) (hc : IsByte c) (hd : IsByte d) :
    (stringToIp (dotted a b c d)).toNat =
      ((Nat.ofDigitChars 10 a 0 * 256 + Nat.ofDigitChars 10 b 0) * 256 + Nat.ofDigitChars 10 c 0) * 256 +
        Nat.ofDigitChars 10 d 0 := by
  have hale := ha.le
  have hble := hb.le
  have hcle := hc.le
  have hone : (((0 : Ip) <<< 8) + BitVec.ofNat 32 (Nat.ofDigitChars 10 a 0)).toNat = Nat.ofDigitChars 10 a 0 := by
    rw [toNat_shiftIn rfl (by decide) hale]
    show 0 * 256 + _ = _
    omega
  unfold stringToIp dotted
  rw [stringToIpLoop_dot ha, stringToIpLoop_dot hb, stringToIpLoop_dot hc, stringToIpLoop_end hd]
  exact toNat_shiftIn (toNat_shiftIn (toNat_shiftIn hone (by omega) hble) (by omega) hcle) (by omega) hd.le

/-! ## Writing -/

theorem toNat_byte (k : Nat) : ((ip >>> k) &&& 0xff#32).toNat = (ip.toNat >>> k) % 256 := by
  rw [BitVec.toNat_and, BitVec.toNat_ushiftRight]
  exact Nat.and_two_pow_sub_one_eq_mod _ 8

/-- **An address** is written as its four bytes. -/
theorem ipToString_eq (ip : Ip) : ipToString ip =
    dotted (Nat.toDigits 10 (ip.toNat / 16777216 % 256)) (Nat.toDigits 10 (ip.toNat / 65536 % 256))
      (Nat.toDigits 10 (ip.toNat / 256 % 256)) (Nat.toDigits 10 (ip.toNat % 256)) := by
  have hone : ip.toNat >>> (3 * 8) = ip.toNat / 16777216 := Nat.shiftRight_eq_div_pow _ 24
  have htwo : ip.toNat >>> (2 * 8) = ip.toNat / 65536 := Nat.shiftRight_eq_div_pow _ 16
  have hthree : ip.toNat >>> 8 = ip.toNat / 256 := Nat.shiftRight_eq_div_pow _ 8
  have hlast : (ip &&& 0xff#32).toNat = ip.toNat % 256 := by
    rw [BitVec.toNat_and]
    exact Nat.and_two_pow_sub_one_eq_mod _ 8
  unfold ipToString printed dotted
  dsimp only
  rw [toNat_byte, toNat_byte, toNat_byte, hone, htwo, hthree, hlast]

theorem isByte_toDigits (hn : n ≤ 255) : IsByte (Nat.toDigits 10 n) where
  toIsNumeral := isNumeral_toDigits n
  le := by
    rw [Nat.ofDigitChars_ten_toDigits]
    exact hn

/-! ## Both directions -/

theorem stringToIp_ipToString (ip : Ip) : stringToIp (ipToString ip) = ip := by
  have hlt := ip.isLt
  apply BitVec.eq_of_toNat_eq
  rw [ipToString_eq, stringToIp_dotted (isByte_toDigits (by omega)) (isByte_toDigits (by omega))
    (isByte_toDigits (by omega)) (isByte_toDigits (by omega))]
  simp only [Nat.ofDigitChars_ten_toDigits]
  omega

theorem ipToString_stringToIp (hs : IsDotted s) : ipToString (stringToIp s) = s := by
  obtain ⟨a, b, c, d, ha, hb, hc, hd, rfl⟩ := hs
  have hale := ha.le
  have hble := hb.le
  have hcle := hc.le
  have hdle := hd.le
  rw [ipToString_eq, stringToIp_dotted ha hb hc hd]
  -- a byte is what is left of the others
  have hbytes {x y z w : Nat} (hx : x ≤ 255) (hy : y ≤ 255) (hz : z ≤ 255) (hw : w ≤ 255) :
      (((x * 256 + y) * 256 + z) * 256 + w) / 16777216 % 256 = x ∧
        (((x * 256 + y) * 256 + z) * 256 + w) / 65536 % 256 = y ∧
        (((x * 256 + y) * 256 + z) * 256 + w) / 256 % 256 = z ∧
        (((x * 256 + y) * 256 + z) * 256 + w) % 256 = w := by
    omega
  obtain ⟨hone, htwo, hthree, hfour⟩ := hbytes hale hble hcle hdle
  rw [hone, htwo, hthree, hfour, toDigits_ofDigitChars ha.toIsNumeral, toDigits_ofDigitChars hb.toIsNumeral,
    toDigits_ofDigitChars hc.toIsNumeral, toDigits_ofDigitChars hd.toIsNumeral]

/-- **`IPToString` and `StringToIp` are inverse**, on all addresses and on all texts of four numbers. -/
theorem text_inverse :
    (∀ ip, stringToIp (ipToString ip) = ip) ∧ ∀ s, IsDotted s → ipToString (stringToIp s) = s :=
  ⟨stringToIp_ipToString, fun _ hs => ipToString_stringToIp hs⟩

theorem text_inverse_sample : ipToString (stringToIp ['1', '0', '.', '0', '.', '7', '.', '2', '5', '5']) =
    ['1', '0', '.', '0', '.', '7', '.', '2', '5', '5'] := by
  refine text_inverse.2 _ ⟨['1', '0'], ['0'], ['7'], ['2', '5', '5'], ?_, ?_, ?_, ?_, rfl⟩
  · exact isByte_toDigits (show 10 ≤ 255 by decide)
  · exact isByte_toDigits (show 0 ≤ 255 by decide)
  · exact isByte_toDigits (show 7 ≤ 255 by decide)
  · exact isByte_toDigits (show 255 ≤ 255 by decide)

end Workbench.Dhcp
