import Workbench.Lib.Space

/-!
# `Buffer.MemCalls` — `Memset`, `Memcpy` and `Memmove`

A range is worked on byte by byte up to an address that is a multiple of 8, then word by word, and the rest byte by byte
again. The pointers go on by their lowest byte only, which comes around after 255. The lengths are `size_t`, so that one
less than 0 is the greatest one. A range does not reach the end of the addresses. The first argument is returned.

## Contents
* `memset`, `memcpy`, `memmove` — the functions;
* `memset_iff` — when `Memset` fills the range;
* `memcpy_iff` — when `Memcpy` copies the range to one that is apart from it;
* `memmove_iff` — when `Memmove` copies the range.
-/

namespace Workbench.MemCalls

open Space

/-! ## The functions -/

/-- `++*(char *)&p`: the lowest byte of the pointer. -/
def nextLow (p : Nat) : Nat := p - p % 256 + (p % 256 + 1) % 256

/-- The values of `size_t` are those below this one. -/
def sizeLimit : Nat := 18446744073709551616

/-- `--n`. -/
def decr (n : Nat) : Nat := (n + sizeLimit - 1) % sizeLimit

/-- The first loop of `Memset`, with the pointer and the length that it leaves. -/
def memsetHead (c : BitVec 8) : Space → Nat → Nat → Option (Space × Nat × Nat)
  | sp, runOver, 0 => some (sp, runOver, 0)
  | sp, runOver, n + 1 =>
      if runOver % 8 ≠ 0 then do
        let sp ← sp.writeByte runOver c
        memsetHead c sp (nextLow runOver) n
      else some (sp, runOver, n + 1)

/-- The word, which gets one byte more in each turn. -/
def wordLoop (c : BitVec 8) (n : Nat) : Nat → BitVec 64 → BitVec 64
  | 0, wordC => wordC
  | turns + 1, wordC => if n ≠ 0 then wordLoop c n turns ((wordC <<< 8) ||| c.setWidth 64) else wordC

def memsetWords (wordC : BitVec 64) (sp : Space) (runOver n : Nat) : Option (Space × Nat × Nat) :=
  if 8 ≤ n then do
    let sp ← sp.writeWord runOver wordC
    memsetWords wordC sp (runOver + 8) (n - 8)
  else some (sp, runOver, n)
termination_by n
decreasing_by omega

def memsetTail (c : BitVec 8) : Space → Nat → Nat → Option Space
  | sp, _, 0 => some sp
  | sp, runOver, n + 1 => do
      let sp ← sp.writeByte runOver c
      memsetTail c sp (nextLow runOver) n

/-- `c & 0xFF`. -/
def memset (sp : Space) (s : Nat) (c : Int) (n : Nat) : Option Space := do
  let (sp, runOver, n) ← memsetHead (BitVec.ofInt 8 c) sp s n
  let wordC := wordLoop (BitVec.ofInt 8 c) n 8 0
  let (sp, runOver, n) ← memsetWords wordC sp runOver n
  memsetTail (BitVec.ofInt 8 c) sp runOver n

theorem nextLow_mod (p : Nat) : nextLow p % 8 = (p + 1) % 8 := by
  unfold nextLow
  omega

/-- The first loop of `Memcpy`. It does not look at the length. -/
def memcpyHead (sp : Space) (dest src n : Nat) : Option (Space × Nat × Nat × Nat) :=
  if dest % 8 ≠ 0 then do
    let sp ← sp.copyByte dest src
    memcpyHead sp (nextLow dest) (nextLow src) (decr n)
  else some (sp, dest, src, n)
termination_by (8 - dest % 8) % 8
decreasing_by
  have hmod := nextLow_mod dest
  omega

def memcpyWords (sp : Space) (dest src n : Nat) : Option (Space × Nat × Nat × Nat) :=
  if 8 ≤ n then do
    let sp ← sp.copyWord dest src
    memcpyWords sp (dest + 8) (src + 8) (n - 8)
  else some (sp, dest, src, n)
termination_by n
decreasing_by omega

def memcpyTail : Space → Nat → Nat → Nat → Option Space
  | sp, _, _, 0 => some sp
  | sp, dest, src, n + 1 => do
      let sp ← sp.copyByte dest src
      memcpyTail sp (nextLow dest) (nextLow src) n

def memcpy (sp : Space) (dest src n : Nat) : Option Space := do
  let (sp, dest, src, n) ← memcpyHead sp dest src n
  let (sp, dest, src, n) ← memcpyWords sp dest src n
  memcpyTail sp dest src n

/-- The address `n - k` behind `p`. -/
def back (p n k : Nat) : Nat := (p + n + sizeLimit - k) % sizeLimit

/-- The first loop of `Memmove`. It does not look at the length. -/
def memmoveHead (sp : Space) (dest src n : Nat) : Option (Space × Nat) :=
  if (dest + n) % 8 ≠ 0 then do
    let sp ← sp.copyByte (back dest n 1) (back src n 1)
    memmoveHead sp dest src (decr n)
  else some (sp, n)
termination_by (dest + n) % 8
decreasing_by
  unfold decr sizeLimit
  omega

def memmoveWords (sp : Space) (dest src n : Nat) : Option (Space × Nat) :=
  if 8 ≤ n then do
    let sp ← sp.copyWord (back dest n 8) (back src n 8)
    memmoveWords sp dest src (n - 8)
  else some (sp, n)
termination_by n
decreasing_by omega

def memmoveTail (dest src : Nat) : Space → Nat → Option Space
  | sp, 0 => some sp
  | sp, n + 1 => do
      let sp ← sp.copyByte (back dest (n + 1) 1) (back src (n + 1) 1)
      memmoveTail dest src sp n

/-- `Memmove` takes `memcpy` from the library. -/
def memmove (libMemcpy : Space → Nat → Nat → Nat → Option Space) (sp : Space) (dest src n : Nat) : Option Space :=
  if dest < src ∨ (src + n) % sizeLimit < dest then libMemcpy sp dest src n
  else do
    let (sp, n) ← memmoveHead sp dest src n
    let (sp, n) ← memmoveWords sp dest src n
    memmoveTail dest src sp n

/-! ## Pointers that go on by their lowest byte -/

variable {sp : Space} {s d n k p i lo : Nat} {c : BitVec 8}

/-- So many times on. -/
def low (p i : Nat) : Nat := p - p % 256 + (p % 256 + i) % 256

@[simp] theorem low_zero (p : Nat) : low p 0 = p := by
  unfold low
  omega

theorem nextLow_low (p i : Nat) : nextLow (low p i) = low p (i + 1) := by
  unfold nextLow low
  omega

theorem low_eq (h : p % 256 + i < 256) : low p i = p + i := by
  unfold low
  omega

/-- The number of bytes up to a multiple of 8. -/
def headLength (p : Nat) : Nat := (8 - p % 8) % 8

/-! ## `Memset` -/

theorem memsetHead_turns (hwrite : All sp.writable s n) (hk : k ≤ n) (hhead : k ≤ headLength s)
    (hlow : s % 256 + k ≤ 256) :
    memsetHead c sp s n = memsetHead c (sp.filled s c k) (low s k) (n - k) := by
  induction k with
  | zero => rw [filled_zero, low_zero, Nat.sub_zero]
  | succ k ih =>
      unfold headLength at hhead ih
      obtain ⟨rest, hrest⟩ : ∃ rest, n - k = rest + 1 := ⟨n - k - 1, by omega⟩
      have hat : low s k = s + k := low_eq (by omega)
      rw [ih (by omega) (by omega) (by omega), hrest, memsetHead, hat, if_pos (by omega),
        writeByte_filled (hwrite k (by omega)), Option.bind_eq_bind, Option.bind_some, ← hat, nextLow_low,
        show n - (k + 1) = rest by omega]

theorem memsetHead_stop (h : s % 8 = 0 ∨ n = 0) : memsetHead c sp s n = some (sp, s, n) := by
  cases n with
  | zero => rfl
  | succ n => rw [memsetHead, if_neg (by omega)]

/-- The first loop ends at a multiple of 8, or with the range. -/
theorem memsetHead_eq (hwrite : All sp.writable s n) :
    memsetHead c sp s n =
      some (sp.filled s c (min (headLength s) n), low s (min (headLength s) n), n - headLength s) := by
  rw [memsetHead_turns hwrite (Nat.min_le_right ..) (Nat.min_le_left ..), memsetHead_stop]
  · rw [show n - min (headLength s) n = n - headLength s by omega]
  · unfold headLength low
    omega
  · unfold headLength
    omega

/-- One byte more. -/
theorem toNat_shift (wordC : BitVec 64) (c : BitVec 8) (h : 256 * wordC.toNat < sizeLimit) :
    ((wordC <<< 8) ||| c.setWidth 64).toNat = c.toNat + 256 * wordC.toNat := by
  have hshift : (wordC <<< 8).toNat = 256 * wordC.toNat := by
    rw [BitVec.toNat_shiftLeft, Nat.shiftLeft_eq, Nat.mul_comm]
    exact Nat.mod_eq_of_lt h
  have hc : (c.setWidth 64).toNat = c.toNat := by
    rw [BitVec.toNat_setWidth]
    exact Nat.mod_eq_of_lt (Nat.lt_of_lt_of_le c.isLt (by decide))
  rw [BitVec.toNat_or, hshift, hc, Nat.add_comm]
  exact (Nat.two_pow_add_eq_or_of_lt c.isLt wordC.toNat).symm

theorem wordLoop_toNat (hn : n ≠ 0) {turns : Nat} {wordC : BitVec 64}
    (hword : wordC.toNat = Mem.readBytes (fun _ => c) 0 k) (hturns : k + turns ≤ 8) :
    (wordLoop c n turns wordC).toNat = Mem.readBytes (fun _ => c) 0 (k + turns) := by
  induction turns generalizing k wordC with
  | zero => exact hword
  | succ turns ih =>
      have hmore : Mem.readBytes (fun _ => c) 0 (k + 1) = c.toNat + 256 * wordC.toNat := by
        rw [Mem.readBytes, hword, Mem.readBytes_const c (0 + 1) 0]
      have hlt : Mem.readBytes (fun _ => c) 0 (k + 1) < sizeLimit :=
        Nat.lt_of_lt_of_le (Mem.readBytes_lt _ 0 (k + 1)) (Mem.byteLimit_le (show k + 1 ≤ 8 by omega))
      rw [wordLoop, if_pos hn, ih (k := k + 1) ((toNat_shift wordC c (by omega)).trans hmore.symm) (by omega),
        Nat.add_right_comm, Nat.add_assoc]

/-- The word is the byte, eight times. -/
theorem wordLoop_eq (hn : n ≠ 0) : wordLoop c n 8 0 = Mem.load (fun _ => c) 0 := by
  refine BitVec.eq_of_toNat_eq ?_
  rw [wordLoop_toNat (k := 0) hn rfl (Nat.le_refl 8), Mem.load, BitVec.toNat_ofNat]
  exact (Nat.mod_eq_of_lt (Mem.readBytes_lt _ 0 8)).symm

theorem memsetWords_short {wordC : BitVec 64} (h : n < 8) : memsetWords wordC sp p n = some (sp, p, n) := by
  rw [memsetWords, if_neg (Nat.not_le_of_lt h)]

/-- The words that fit in. -/
theorem memsetWords_eq {wordC : BitVec 64} (hword : 8 ≤ n → wordC = Mem.load (fun _ => c) 0)
    (hwrite : All sp.writable s (lo + n)) :
    memsetWords wordC (sp.filled s c lo) (s + lo) n =
      some (sp.filled s c (lo + (n - n % 8)), s + lo + (n - n % 8), n % 8) := by
  induction n using Nat.strongRecOn generalizing lo with
  | _ n ih =>
      rw [memsetWords]
      split
      · next h8 =>
          have hmod : (n - 8) % 8 = n % 8 := by omega
          have hrest : All sp.writable s (lo + 8 + (n - 8)) := by rwa [show lo + 8 + (n - 8) = lo + n by omega]
          rw [writeWord_filled (hword h8) (hwrite.part (by omega)), Option.bind_eq_bind, Option.bind_some,
            Nat.add_assoc s, ih (n - 8) (by omega) (fun _ => hword h8) hrest, hmod,
            show lo + 8 + (n - 8 - n % 8) = lo + (n - n % 8) by omega,
            show s + (lo + 8) + (n - 8 - n % 8) = s + lo + (n - n % 8) by omega]
      · rw [show n % 8 = n by omega, Nat.sub_self, Nat.add_zero, Nat.add_zero]

theorem memsetTail_eq (hwrite : All sp.writable s (lo + n)) (hlow : (s + lo) % 256 + n ≤ 256) :
    memsetTail c (sp.filled s c lo) (s + lo) n = some (sp.filled s c (lo + n)) := by
  induction n generalizing lo with
  | zero => rfl
  | succ n ih =>
      rw [memsetTail, writeByte_filled (hwrite lo (by omega)), Option.bind_eq_bind, Option.bind_some]
      cases n with
      | zero => rfl
      | succ n =>
          have hnext : nextLow (s + lo) = s + (lo + 1) := by
            unfold nextLow
            omega
          rw [hnext, ih (by rwa [show lo + 1 + (n + 1) = lo + (n + 1 + 1) by omega]) (by omega),
            show lo + 1 + (n + 1) = lo + (n + 1 + 1) by omega]

/-- The first loop, where the pointer does not come around before the range ends. -/
theorem memset_right (hwrite : All sp.writable s n) (x : Int) (h : s % 256 ≤ 248 ∨ s % 256 + n ≤ 256) :
    memset sp s x n = some (sp.filled s (BitVec.ofInt 8 x) n) := by
  rw [memset, memsetHead_eq hwrite, Option.bind_eq_bind, Option.bind_some]
  rcases Nat.le_total n (headLength s) with hle | hle
  · -- the range ends first
    have hnone : n - headLength s = 0 := Nat.sub_eq_zero_of_le hle
    rw [Nat.min_eq_right hle, hnone]
    simp only [memsetWords_short (show 0 < 8 by omega), memsetTail, Option.bind_some]
  · obtain ⟨m, rfl⟩ := Nat.exists_eq_add_of_le hle
    have hlength : headLength s < 8 := Nat.mod_lt _ (by omega)
    cases m with
    | zero =>
        rw [Nat.add_zero, Nat.min_self, Nat.sub_self]
        simp only [memsetWords_short (show 0 < 8 by omega), memsetTail, Option.bind_some]
    | succ m =>
        have hpointer : low s (headLength s) = s + headLength s := by
          refine low_eq ?_
          unfold headLength at h ⊢
          omega
        have haligned : (s + headLength s) % 8 = 0 := by
          unfold headLength
          omega
        rw [Nat.min_eq_left hle, hpointer, Nat.add_sub_cancel_left]
        simp only [memsetWords_eq (fun _ => wordLoop_eq (Nat.succ_ne_zero m)) hwrite, Option.bind_some]
        rw [Nat.add_assoc s, memsetTail_eq ?_ (by omega)]
        · rw [Nat.add_assoc, Nat.sub_add_cancel (Nat.mod_le _ 8)]
        · rwa [Nat.add_assoc, Nat.sub_add_cancel (Nat.mod_le _ 8)]

/-- **`Memset` fills the range**, in every memory where it may be written, if and only if the pointer does not come
    around with a part of the range behind it. -/
theorem memset_iff (s : Nat) (x : Int) (n : Nat) :
    (∀ sp, All sp.writable s n → memset sp s x n = some (sp.filled s (BitVec.ofInt 8 x) n)) ↔
      s % 256 ≤ 248 ∨ s % 256 + n ≤ 256 := by
  constructor
  · intro hfills
    by_contra hno
    obtain ⟨hlow, hn⟩ := not_or.mp hno
    -- nothing but the range can be written
    let sp : Space := ⟨fun _ => 0, fun _ => true, fun a => decide (s ≤ a ∧ a < s + n)⟩
    have hwrite : All sp.writable s n := fun i hi => decide_eq_true (by omega)
    have hret := hfills sp hwrite
    have hlength : headLength s = 256 - s % 256 := by
      unfold headLength
      omega
    have hpointer : low s (headLength s) = s - s % 256 := by
      unfold low
      omega
    have hunwritable : sp.writable (s - s % 256) = false := decide_eq_false (by omega)
    rw [memset, memsetHead_eq hwrite, Option.bind_eq_bind, Option.bind_some, Nat.min_eq_left (by omega),
      hpointer] at hret
    obtain ⟨m, hm⟩ : ∃ m, n - headLength s = m + 1 := ⟨n - headLength s - 1, by omega⟩
    simp only [hm] at hret
    by_cases h8 : 8 ≤ m + 1
    · have hword : ¬ All (sp.filled s (BitVec.ofInt 8 x) (headLength s)).writable (s - s % 256) 8 := fun hall => by
        have hfirst := hall 0 (by omega)
        rw [Nat.add_zero, filled_writable, hunwritable] at hfirst
        cases hfirst
      rw [memsetWords, if_pos h8, writeWord, if_neg hword] at hret
      cases hret
    · rw [memsetWords_short (Nat.lt_of_not_le h8)] at hret
      simp only [Option.bind_eq_bind, Option.bind_some, memsetTail, writeByte, filled_writable, hunwritable] at hret
      cases hret
  · exact fun h sp hwrite => memset_right hwrite x h

/-! ## `Memcpy` -/

theorem decr_eq (hn : 0 < n) (hlimit : n < sizeLimit) : decr n = n - 1 := by
  unfold decr sizeLimit at *
  omega

section

variable (hread : All sp.readable s n) (hwrite : All sp.writable d n) (hapart : s + n ≤ d ∨ d + n ≤ s)
  (hlimit : n < sizeLimit)
include hread hwrite hapart hlimit

theorem memcpyHead_turns (hk : k ≤ n) (hhead : k ≤ headLength d) (hlow : s % 256 + k ≤ 256) :
    memcpyHead sp d s n = memcpyHead (sp.part d s 0 k) (low d k) (low s k) (n - k) := by
  induction k with
  | zero => rw [part_empty (Nat.le_refl 0), low_zero, low_zero, Nat.sub_zero]
  | succ k ih =>
      unfold headLength at hhead ih
      have hdest : low d k = d + k := low_eq (by omega)
      have hsrc : low s k = s + k := low_eq (by omega)
      rw [ih (by omega) (by omega) (by omega), memcpyHead, hdest, hsrc, if_pos (by omega),
        copyByte_up hread hwrite (by omega) hapart, Option.bind_eq_bind, Option.bind_some, ← hdest, ← hsrc, nextLow_low,
        nextLow_low, decr_eq (by omega) (by omega), Nat.sub_sub]

/-- The first loop gets to an address that may not be read. -/
theorem memcpyHead_stuck (hk : k ≤ n) (hhead : k < headLength d) (hlow : s % 256 + k ≤ 256)
    (hunreadable : sp.readable (low s k) = false) : memcpyHead sp d s n = none := by
  unfold headLength at hhead
  have hdest : low d k = d + k := low_eq (by omega)
  rw [memcpyHead_turns hread hwrite hapart hlimit hk (Nat.le_of_lt hhead) hlow, memcpyHead, hdest, if_pos (by omega),
    copyByte_unreadable (show (sp.part d s 0 k).readable (low s k) = false from hunreadable)]
  rfl

/-- The first loop ends at a multiple of 8. -/
theorem memcpyHead_eq (hhead : headLength d ≤ n) (hlow : s % 256 + headLength d ≤ 256) :
    memcpyHead sp d s n =
      some (sp.part d s 0 (headLength d), low d (headLength d), low s (headLength d), n - headLength d) := by
  have haligned : low d (headLength d) % 8 = 0 := by
    unfold headLength low
    omega
  rw [memcpyHead_turns hread hwrite hapart hlimit hhead (Nat.le_refl _) hlow, memcpyHead, haligned, if_neg (by omega)]

end

theorem memcpyWords_short (h : n < 8) : memcpyWords sp d s n = some (sp, d, s, n) := by
  rw [memcpyWords, if_neg (Nat.not_le_of_lt h)]

/-- The words that fit in. -/
theorem memcpyWords_eq {m : Nat} (hread : All sp.readable s n) (hwrite : All sp.writable d n)
    (hapart : s + n ≤ d ∨ d + n ≤ s) (hn : lo + m = n) :
    memcpyWords (sp.part d s 0 lo) (d + lo) (s + lo) m =
      some (sp.part d s 0 (n - m % 8), d + (n - m % 8), s + (n - m % 8), m % 8) := by
  induction m using Nat.strongRecOn generalizing lo with
  | _ m ih =>
      rw [memcpyWords]
      split
      · have hmod : (m - 8) % 8 = m % 8 := by omega
        rw [copyWord_up hread hwrite (by omega) hapart, Option.bind_eq_bind, Option.bind_some, Nat.add_assoc d,
          Nat.add_assoc s, ih (m - 8) (by omega) (by omega), hmod]
      · rw [show m % 8 = m by omega, show n - m = lo by omega]

theorem memcpyTail_eq {m : Nat} (hread : All sp.readable s n) (hwrite : All sp.writable d n)
    (hapart : s + n ≤ d ∨ d + n ≤ s) (hn : lo + m = n) (hdest : (d + lo) % 256 + m ≤ 256)
    (hsrc : (s + lo) % 256 + m ≤ 256) :
    memcpyTail (sp.part d s 0 lo) (d + lo) (s + lo) m = some (sp.copied d s n) := by
  induction m generalizing lo with
  | zero =>
      obtain rfl : lo = n := by omega
      rfl
  | succ m ih =>
      rw [memcpyTail, copyByte_up hread hwrite (by omega) hapart, Option.bind_eq_bind, Option.bind_some]
      cases m with
      | zero =>
          obtain rfl : lo + 1 = n := by omega
          rfl
      | succ m =>
          have hnextDest : nextLow (d + lo) = d + (lo + 1) := by
            unfold nextLow
            omega
          have hnextSrc : nextLow (s + lo) = s + (lo + 1) := by
            unfold nextLow
            omega
          rw [hnextDest, hnextSrc, ih (by omega) (by omega) (by omega)]

/-- What `Memcpy` does behind its first loop. -/
def memcpyRest (sp : Space) (dest src n : Nat) : Option Space := do
  let (sp, dest, src, n) ← memcpyWords sp dest src n
  memcpyTail sp dest src n

theorem memcpy_of_head {sp' : Space} {d' s' m : Nat} (h : memcpyHead sp d s n = some (sp', d', s', m)) :
    memcpy sp d s n = memcpyRest sp' d' s' m := by
  rw [memcpy, h]
  rfl

/-- When `Memcpy` copies:

    * the range is not shorter than the way up to a multiple of 8;
    * the destination does not come around with a part of the range behind it;
    * the source does not do so on the way up;
    * the source does not do so in the bytes behind the last word. -/
structure CopiesRight (d s n : Nat) : Prop where
  long : headLength d ≤ n
  dest : d % 256 ≤ 248 ∨ n = headLength d
  src : s % 256 + headLength d < 256 ∨ s % 256 + n ≤ 256
  tail : (s + (n - (n - headLength d) % 8)) % 256 + (n - headLength d) % 8 ≤ 256

theorem memcpy_right (h : CopiesRight d s n) (hread : All sp.readable s n) (hwrite : All sp.writable d n)
    (hapart : s + n ≤ d ∨ d + n ≤ s) (hlimit : n < sizeLimit) : memcpy sp d s n = some (sp.copied d s n) := by
  obtain ⟨hlong, hdest, hsrc, htail⟩ := h
  have hlength : headLength d < 8 := Nat.mod_lt _ (by omega)
  rw [memcpy_of_head (memcpyHead_eq hread hwrite hapart hlimit hlong (by omega)), memcpyRest]
  rcases Nat.lt_or_ge (headLength d) n with hlt | hge
  · have hpointer : low d (headLength d) = d + headLength d := by
      refine low_eq ?_
      unfold headLength at *
      omega
    have hpointer' : low s (headLength d) = s + headLength d := low_eq (by omega)
    have haligned : (d + headLength d) % 8 = 0 := by
      unfold headLength
      omega
    rw [hpointer, hpointer', memcpyWords_eq hread hwrite hapart (Nat.add_sub_cancel' hlong)]
    exact memcpyTail_eq hread hwrite hapart (by omega) (by omega) htail
  · obtain rfl : n = headLength d := by omega
    rw [Nat.sub_self, memcpyWords_short (show 0 < 8 by omega)]
    rfl

/-- **The last byte** that the last loop copies, if it ends, is the one that the pointer has come to. -/
theorem memcpyTail_last {m : Nat} (haligned : d % 8 = 0) (hk : k ≤ 8) (hm : i + (m + 1) = k)
    (hapart : ∀ a, sp.readable a = true → a < d ∨ d + k ≤ a) :
    memcpyTail sp (low d i) (low s i) (m + 1) = none ∨
      ∃ sp', memcpyTail sp (low d i) (low s i) (m + 1) = some sp' ∧ sp.readable (low s (k - 1)) = true ∧
        sp'.bytes (d + (k - 1)) = sp.bytes (low s (k - 1)) := by
  have hdest (j : Nat) (hj : j < 8) : low d j = d + j := low_eq (by omega)
  induction m generalizing sp i with
  | zero =>
      obtain rfl : k = i + 1 := hm.symm
      rw [memcpyTail, hdest i (by omega), Nat.add_sub_cancel]
      cases hcopy : sp.copyByte (d + i) (low s i) with
      | none => exact .inl rfl
      | some sp' =>
          obtain ⟨hread, -, rfl⟩ := copyByte_some hcopy
          exact .inr ⟨_, rfl, hread, Mem.setByte_self ..⟩
  | succ m ih =>
      rw [memcpyTail, hdest i (by omega)]
      cases hcopy : sp.copyByte (d + i) (low s i) with
      | none => exact .inl rfl
      | some sp' =>
          obtain ⟨-, -, hsp'⟩ := copyByte_some hcopy
          have hsame : sp'.readable = sp.readable := by rw [hsp']
          rw [Option.bind_eq_bind, Option.bind_some, ← hdest i (by omega), nextLow_low, nextLow_low]
          rcases ih (i := i + 1) (by omega) (hsame ▸ hapart) with hnone | ⟨sp'', hrun, hread, hlast⟩
          · exact .inl hnone
          · rw [hsame] at hread
            refine .inr ⟨sp'', hrun, hread, hlast.trans ?_⟩
            have hoff := hapart _ hread
            rw [hsp']
            exact Mem.setByte_ne _ _ (by omega)

/-- A memory where the source may be read, and the destination written, and nothing else. Bytes that are 256 addresses
    apart are not the same. -/
def tight (d s n : Nat) : Space where
  bytes a := BitVec.ofNat 8 (a / 256)
  readable a := decide (s ≤ a ∧ a < s + n)
  writable a := decide (d ≤ a ∧ a < d + n)

theorem tight_readable (d s n : Nat) : All (tight d s n).readable s n := fun i hi => decide_eq_true (by omega)

theorem tight_writable (d s n : Nat) : All (tight d s n).writable d n := fun i hi => decide_eq_true (by omega)

theorem tight_unreadable {a : Nat} (h : a < s ∨ s + n ≤ a) : (tight d s n).readable a = false :=
  decide_eq_false (by omega)

theorem tight_unwritable {a : Nat} (h : a < d ∨ d + n ≤ a) : (tight d s n).writable a = false :=
  decide_eq_false (by omega)

/-- What goes on from a pointer that may not be used. -/
theorem memcpyRest_stuck {m : Nat} (hm : 0 < m) (hbad : sp.readable s = false ∨ sp.writable d = false) :
    memcpyRest sp d s m = none := by
  unfold memcpyRest
  by_cases h8 : 8 ≤ m
  · rw [memcpyWords, if_pos h8]
    have hword : sp.copyWord d s = none := hbad.elim (copyWord_unreadable · d) (copyWord_unwritable · s)
    rw [hword]
    rfl
  · obtain ⟨m, rfl⟩ := Nat.exists_eq_add_of_lt hm
    have hbyte : sp.copyByte d s = none := hbad.elim (copyByte_unreadable · d) (copyByte_unwritable · s)
    rw [memcpyWords_short (Nat.lt_of_not_le h8), Option.bind_eq_bind, Option.bind_some, Nat.zero_add]
    simp only [memcpyTail, hbyte, Option.bind_eq_bind, Option.bind_none]

section

variable (hapart : s + n ≤ d ∨ d + n ≤ s) (hlimit : n < sizeLimit)
include hapart hlimit

/-- The source comes around on the way up. -/
theorem memcpyHead_around (hn : 256 < s % 256 + n) (hhead : 256 < s % 256 + headLength d) :
    memcpyHead (tight d s n) d s n = none := by
  have hlength : headLength d < 8 := Nat.mod_lt _ (by omega)
  refine memcpyHead_stuck (tight_readable d s n) (tight_writable d s n) hapart hlimit
    (show 256 - s % 256 ≤ n by omega) (by omega) (by omega) (tight_unreadable (.inl ?_))
  unfold low
  omega

/-- The way up is longer than the range. -/
theorem memcpyHead_short (hshort : n < headLength d) : memcpyHead (tight d s n) d s n = none := by
  have hlength : headLength d < 8 := Nat.mod_lt _ (by omega)
  rcases Nat.lt_or_ge 256 (s % 256 + n) with hn | hn
  · exact memcpyHead_around hapart hlimit hn (by omega)
  · refine memcpyHead_stuck (tight_readable d s n) (tight_writable d s n) hapart hlimit (Nat.le_refl n) hshort hn
      (tight_unreadable ?_)
    unfold low
    omega

/-- What is copied where not all of it is copied right. -/
theorem memcpy_tight (h : ¬ CopiesRight d s n) : memcpy (tight d s n) d s n ≠ some ((tight d s n).copied d s n) := by
  have hread := tight_readable d s n
  have hwrite := tight_writable d s n
  have hlength : headLength d < 8 := Nat.mod_lt _ (by omega)
  rcases Nat.lt_or_ge n (headLength d) with hshort | hlong
  · rw [memcpy, memcpyHead_short hapart hlimit hshort]
    nofun
  rcases Nat.lt_or_ge 256 (s % 256 + headLength d) with haround | haround
  · rw [memcpy, memcpyHead_around hapart hlimit (by omega) haround]
    nofun
  rw [memcpy_of_head (memcpyHead_eq hread hwrite hapart hlimit hlong haround)]
  by_cases hdest : d % 256 ≤ 248 ∨ n = headLength d
  swap
  · -- the destination has come around
    have hbad : ((tight d s n).part d s 0 (headLength d)).writable (low d (headLength d)) = false := by
      refine tight_unwritable (s := s) (.inl ?_)
      unfold headLength low at *
      omega
    rw [memcpyRest_stuck (by omega) (.inr hbad)]
    nofun
  by_cases hsrc : s % 256 + headLength d < 256 ∨ s % 256 + n ≤ 256
  swap
  · -- the source has come around
    have hbad : ((tight d s n).part d s 0 (headLength d)).readable (low s (headLength d)) = false := by
      refine tight_unreadable (d := d) (.inl ?_)
      unfold low
      omega
    rw [memcpyRest_stuck (by omega) (.inl hbad)]
    nofun
  -- the source comes around behind the last word
  have htail : 256 < (s + (n - (n - headLength d) % 8)) % 256 + (n - headLength d) % 8 :=
    Nat.lt_of_not_le fun htail => h ⟨hlong, hdest, hsrc, htail⟩
  have hlt : headLength d < n := by omega
  have hpointer : low d (headLength d) = d + headLength d := by
    refine low_eq ?_
    unfold headLength at *
    omega
  have hpointer' : low s (headLength d) = s + headLength d := low_eq (by omega)
  have haligned : (d + headLength d) % 8 = 0 := by
    unfold headLength
    omega
  rw [memcpyRest, hpointer, hpointer', memcpyWords_eq hread hwrite hapart (Nat.add_sub_cancel' hlong)]
  set t := (n - headLength d) % 8 with ht
  have ht8 : t < 8 := Nat.mod_lt _ (by omega)
  obtain ⟨m, hm⟩ : ∃ m, t = m + 1 := ⟨t - 1, by omega⟩
  have hoff : ∀ a, ((tight d s n).part d s 0 (n - t)).readable a = true → a < d + (n - t) ∨ d + (n - t) + t ≤ a := by
    intro a ha
    obtain ⟨hfrom, hto⟩ := of_decide_eq_true ha
    omega
  have hlast := memcpyTail_last (s := s + (n - t)) (i := 0) (show (d + (n - t)) % 8 = 0 by omega) (Nat.le_of_lt ht8)
    (show 0 + (m + 1) = t by omega) hoff
  rw [low_zero, low_zero, ← hm] at hlast
  rcases hlast with hnone | ⟨sp', hrun, hread', hbyte⟩
  · intro hcopied
    cases hnone.symm.trans hcopied
  · intro hcopied
    obtain rfl := Option.some.inj (hrun.symm.trans hcopied)
    -- the last byte is the one 256 addresses in front of the right one
    have hwrong : low (s + (n - t)) (t - 1) + 256 = s + (n - 1) := by
      unfold low
      omega
    obtain ⟨hfrom, hto⟩ := of_decide_eq_true hread'
    have hold : ((tight d s n).part d s 0 (n - t)).bytes (low (s + (n - t)) (t - 1)) =
        BitVec.ofNat 8 (low (s + (n - t)) (t - 1) / 256) := part_bytes_of_outside (by omega)
    have hnew : ((tight d s n).copied d s n).bytes (d + (n - t) + (t - 1)) = BitVec.ofNat 8 ((s + (n - 1)) / 256) := by
      refine (if_pos (by omega)).trans ?_
      rw [show s + (d + (n - t) + (t - 1) - d) = s + (n - 1) by omega]
      rfl
    have heq := congrArg BitVec.toNat (hnew.symm.trans (hbyte.trans hold))
    rw [BitVec.toNat_ofNat, BitVec.toNat_ofNat, ← hwrong] at heq
    omega

end

/-- **`Memcpy` copies the range** to one that is apart from it, in every memory where the one may be read and the other
    one written, if and only if it is `CopiesRight`. -/
theorem memcpy_iff (hapart : s + n ≤ d ∨ d + n ≤ s) (hlimit : n < sizeLimit) :
    (∀ sp, All sp.readable s n → All sp.writable d n → memcpy sp d s n = some (sp.copied d s n)) ↔
      CopiesRight d s n := by
  constructor
  · intro hcopies
    by_contra hno
    exact memcpy_tight hapart hlimit hno (hcopies _ (tight_readable d s n) (tight_writable d s n))
  · exact fun h sp hread hwrite => memcpy_right h hread hwrite hapart hlimit

/-- 20 bytes to 64. -/
theorem memcpy_sample : memcpy (tight 64 512 20) 64 512 20 = some ((tight 64 512 20).copied 64 512 20) :=
  (memcpy_iff (.inr (by decide)) (by decide)).mpr ⟨by decide, by decide, by decide, by decide⟩ _
    (tight_readable 64 512 20) (tight_writable 64 512 20)

/-! ## `Memmove` -/

theorem back_eq (hk : k ≤ n) (hlimit : p + n < sizeLimit) : back p n k = p + (n - k) := by
  unfold back sizeLimit at *
  omega

section

variable (hread : All sp.readable s n) (hwrite : All sp.writable d n) (hbehind : s ≤ d) (hlimit : d + n < sizeLimit)
include hread hwrite hbehind hlimit

theorem memmoveHead_turns (hk : k ≤ n) (hhead : k ≤ (d + n) % 8) :
    memmoveHead sp d s n = memmoveHead (sp.part d s (n - k) n) d s (n - k) := by
  induction k with
  | zero => rw [Nat.sub_zero, part_empty (Nat.le_refl n)]
  | succ k ih =>
      have hlo : n - k = n - (k + 1) + 1 := by omega
      rw [ih (by omega) (by omega), memmoveHead, if_pos (by omega), back_eq (by omega) (by omega),
        back_eq (by omega) (by omega), decr_eq (by omega) (by omega), hlo, Nat.add_sub_cancel,
        copyByte_down hread hwrite (by omega) hbehind, Option.bind_eq_bind, Option.bind_some]

/-- The first loop ends at a multiple of 8. -/
theorem memmoveHead_eq (hhead : (d + n) % 8 ≤ n) :
    memmoveHead sp d s n = some (sp.part d s (n - (d + n) % 8) n, n - (d + n) % 8) := by
  rw [memmoveHead_turns hread hwrite hbehind hlimit hhead (Nat.le_refl _), memmoveHead, if_neg (by omega)]

/-- The words that fit in. -/
theorem memmoveWords_eq {m : Nat} (hm : m ≤ n) :
    memmoveWords (sp.part d s m n) d s m = some (sp.part d s (m % 8) n, m % 8) := by
  induction m using Nat.strongRecOn with
  | _ m ih =>
      rw [memmoveWords]
      split
      · have hmod : (m - 8) % 8 = m % 8 := by omega
        have hcopy := copyWord_down hread hwrite (show m - 8 + 8 ≤ n by omega) hbehind
        rw [show m - 8 + 8 = m by omega] at hcopy
        rw [back_eq (by omega) (by omega), back_eq (by omega) (by omega), hcopy, Option.bind_eq_bind, Option.bind_some,
          ih (m - 8) (by omega) (by omega), hmod]
      · rw [show m % 8 = m by omega]

theorem memmoveTail_eq {m : Nat} (hm : m ≤ n) : memmoveTail d s (sp.part d s m n) m = some (sp.copied d s n) := by
  induction m with
  | zero => rfl
  | succ m ih =>
      rw [memmoveTail, back_eq (by omega) (by omega), back_eq (by omega) (by omega), Nat.add_sub_cancel,
        copyByte_down hread hwrite (by omega) hbehind, Option.bind_eq_bind, Option.bind_some, ih (by omega)]

end

/-- The first loop goes on in front of the range. -/
theorem memmoveHead_short (hbehind : s ≤ d) (hlimit : d + n < sizeLimit) (hshort : n < (d + n) % 8) :
    memmoveHead (tight d s n) d s n = none := by
  have hbad : ((tight d s n).part d s (n - n) n).readable (back s (n - n) 1) = false := by
    refine tight_unreadable (d := d) ?_
    unfold back sizeLimit at *
    omega
  rw [memmoveHead_turns (tight_readable d s n) (tight_writable d s n) hbehind hlimit (Nat.le_refl n)
    (Nat.le_of_lt hshort), memmoveHead, if_pos (by omega), copyByte_unreadable hbad]
  rfl

/-- What `memcpy` of the library promises: it copies a range to one that is apart from it. -/
def Library (libMemcpy : Space → Nat → Nat → Nat → Option Space) : Prop :=
  ∀ sp d s n, All sp.readable s n → All sp.writable d n → s + n ≤ d ∨ d + n ≤ s →
    libMemcpy sp d s n = some (sp.copied d s n)

/-- A `memcpy` that does nothing else. -/
def carefulMemcpy (sp : Space) (d s n : Nat) : Option Space :=
  if All sp.readable s n ∧ All sp.writable d n ∧ (s + n ≤ d ∨ d + n ≤ s) then some (sp.copied d s n) else none

theorem carefulMemcpy_library : Library carefulMemcpy := fun _ _ _ _ hread hwrite hapart =>
  if_pos ⟨hread, hwrite, hapart⟩

/-- When `Memmove` copies:

    * in front of the source, the destination ends before it;
    * otherwise, it starts behind the end of the source, or the range is not shorter than the way down to a multiple
      of 8. -/
def MovesRight (d s n : Nat) : Prop := if d < s then d + n ≤ s else s + n < d ∨ (d + n) % 8 ≤ n

instance (d s n : Nat) : Decidable (MovesRight d s n) := by
  unfold MovesRight
  infer_instance

/-- **`Memmove` copies the range**, with every `memcpy` that does what it promises, and in every memory where the source
    may be read and the destination written, if and only if it is `MovesRight`. -/
theorem memmove_iff (hd : d + n < sizeLimit) (hs : s + n < sizeLimit) :
    (∀ libMemcpy, Library libMemcpy → ∀ sp, All sp.readable s n → All sp.writable d n →
      memmove libMemcpy sp d s n = some (sp.copied d s n)) ↔ MovesRight d s n := by
  have hcond : (d < s ∨ (s + n) % sizeLimit < d) ↔ d < s ∨ s + n < d := by rw [Nat.mod_eq_of_lt hs]
  unfold MovesRight
  constructor
  · intro hmoves
    have hret := hmoves carefulMemcpy carefulMemcpy_library _ (tight_readable d s n) (tight_writable d s n)
    split
    · next hfront =>
        rw [memmove, if_pos (.inl hfront), carefulMemcpy] at hret
        obtain ⟨-, -, hapart⟩ := (Option.ite_none_right_eq_some.mp hret).1
        omega
    · next hfront =>
        by_contra hno
        obtain ⟨hend, hshort⟩ := not_or.mp hno
        rw [memmove, if_neg (hcond.not.mpr (not_or.mpr ⟨hfront, hend⟩)),
          memmoveHead_short (by omega) hd (Nat.lt_of_not_le hshort)] at hret
        cases hret
  · intro hright libMemcpy hlib sp hread hwrite
    by_cases happly : d < s ∨ s + n < d
    · rw [memmove, if_pos (hcond.mpr happly)]
      refine hlib sp d s n hread hwrite ?_
      split at hright <;> omega
    · obtain ⟨hfront, hend⟩ := not_or.mp happly
      rw [if_neg hfront] at hright
      have hhead := hright.resolve_left hend
      rw [memmove, if_neg (hcond.not.mpr happly), memmoveHead_eq hread hwrite (by omega) hd hhead,
        Option.bind_eq_bind, Option.bind_some]
      simp only [memmoveWords_eq hread hwrite (show s ≤ d by omega) hd (Nat.sub_le n _), Option.bind_some]
      exact memmoveTail_eq hread hwrite (by omega) hd (by omega)

/-- 20 bytes, one behind where they are. -/
theorem memmove_sample : memmove carefulMemcpy (tight 101 100 20) 101 100 20 =
    some ((tight 101 100 20).copied 101 100 20) :=
  (memmove_iff (by decide) (by decide)).mpr (by decide) carefulMemcpy carefulMemcpy_library _
    (tight_readable 101 100 20) (tight_writable 101 100 20)

end Workbench.MemCalls
