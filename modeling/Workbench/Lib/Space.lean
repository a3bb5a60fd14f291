import Workbench.Lib.Bytes

/-!
# `Lib.Space` — a memory of which parts can be read and written

What reads or writes an address that it may not is no result. Two calls on ranges: to fill one, and to copy one to
another one, also where they overlap. Both are done in parts, a byte or a word at a time.

## Main results
* `writeByte_filled`, `writeWord_filled` — a part more is filled;
* `copyByte_up`, `copyWord_up`, `copyByte_down`, `copyWord_down` — a part more is copied, behind or in front of what is.
-/

namespace Workbench

/-- A memory, and what may be read and written. -/
structure Space where
  bytes : Mem
  readable : Nat → Bool
  writable : Nat → Bool

namespace Space

variable {sp : Space} {a d k lo hi n s : Nat} {x : BitVec 8} {w : BitVec 64} {bytes : Mem}

/-- The addresses from `a` on. -/
def All (p : Nat → Bool) (a n : Nat) : Prop := ∀ i, i < n → p (a + i) = true

instance (p : Nat → Bool) (a n : Nat) : Decidable (All p a n) :=
  decidable_of_iff (∀ i : Fin n, p (a + i) = true) ⟨fun h i hi => h ⟨i, hi⟩, fun h i => h i i.isLt⟩

theorem All.part {p : Nat → Bool} (h : All p a n) (hk : lo + k ≤ n) : All p (a + lo) k := by
  intro i hi
  rw [Nat.add_assoc]
  exact h (lo + i) (by omega)

def readByte (sp : Space) (a : Nat) : Option (BitVec 8) := if sp.readable a then some (sp.bytes a) else none

def writeByte (sp : Space) (a : Nat) (x : BitVec 8) : Option Space :=
  if sp.writable a then some { sp with bytes := sp.bytes.setByte a x } else none

def readWord (sp : Space) (a : Nat) : Option (BitVec 64) :=
  if All sp.readable a 8 then some (sp.bytes.load a) else none

def writeWord (sp : Space) (a : Nat) (w : BitVec 64) : Option Space :=
  if All sp.writable a 8 then some { sp with bytes := sp.bytes.store a w } else none

/-- `*d = *s`, for a byte. -/
def copyByte (sp : Space) (d s : Nat) : Option Space := do
  let x ← sp.readByte s
  sp.writeByte d x

/-- `*d = *s`, for a word. -/
def copyWord (sp : Space) (d s : Nat) : Option Space := do
  let w ← sp.readWord s
  sp.writeWord d w

/-! ## Filling -/

/-- The range from `s` on is filled with the byte. -/
def filled (sp : Space) (s : Nat) (x : BitVec 8) (n : Nat) : Space :=
  { sp with bytes := fun a => if s ≤ a ∧ a < s + n then x else sp.bytes a }

@[simp] theorem filled_writable : (sp.filled s x n).writable = sp.writable := rfl

theorem filled_zero : sp.filled s x 0 = sp := by
  have hnone : (fun a => if s ≤ a ∧ a < s + 0 then x else sp.bytes a) = sp.bytes :=
    funext fun a => if_neg (by omega)
  rw [filled, hnone]

/-- What is filled behind a range that is filled. -/
theorem filled_extend (hin : ∀ i, i < k → bytes (s + n + i) = x)
    (hout : ∀ a, a < s + n ∨ s + n + k ≤ a → bytes a = (sp.filled s x n).bytes a) :
    { sp.filled s x n with bytes } = sp.filled s x (n + k) := by
  have hbytes : bytes = (sp.filled s x (n + k)).bytes := by
    funext a
    by_cases ha : s + n ≤ a ∧ a < s + n + k
    · obtain ⟨i, rfl⟩ := Nat.exists_eq_add_of_le ha.1
      rw [hin i (by omega)]
      exact (if_pos (by omega)).symm
    · rw [hout a (by omega)]
      exact if_congr (by omega) rfl rfl
  rw [hbytes]
  rfl

theorem writeByte_filled (h : sp.writable (s + n) = true) :
    (sp.filled s x n).writeByte (s + n) x = some (sp.filled s x (n + 1)) := by
  rw [writeByte, filled_writable, if_pos h]
  refine congrArg some (filled_extend (fun i hi => ?_) fun a ha => ?_)
  · obtain rfl : i = 0 := by omega
    exact Mem.setByte_self ..
  · exact Mem.setByte_ne _ _ (by omega)

/-- The word is the byte, eight times. -/
theorem writeWord_filled (hw : w = Mem.load (fun _ => x) 0) (h : All sp.writable (s + n) 8) :
    (sp.filled s x n).writeWord (s + n) w = some (sp.filled s x (n + 8)) := by
  rw [writeWord, filled_writable, if_pos h, hw]
  refine congrArg some (filled_extend (fun i hi => ?_) fun a ha => ?_)
  · exact Mem.store_load hi
  · exact Mem.store_outside _ (by omega)

/-! ## Copying -/

/-- From `lo` up to `hi`, the range at `s` is copied to `d`. -/
def part (sp : Space) (d s lo hi : Nat) : Space :=
  { sp with bytes := fun a => if d + lo ≤ a ∧ a < d + hi then sp.bytes (s + (a - d)) else sp.bytes a }

/-- The range at `s` is copied to `d`. -/
def copied (sp : Space) (d s n : Nat) : Space := sp.part d s 0 n

@[simp] theorem part_readable : (sp.part d s lo hi).readable = sp.readable := rfl

@[simp] theorem part_writable : (sp.part d s lo hi).writable = sp.writable := rfl

theorem part_empty (h : hi ≤ lo) : sp.part d s lo hi = sp := by
  have hnone : (fun a => if d + lo ≤ a ∧ a < d + hi then sp.bytes (s + (a - d)) else sp.bytes a) = sp.bytes :=
    funext fun a => if_neg (by omega)
  rw [part, hnone]

/-- Outside of what is copied, the bytes are as they were. -/
theorem part_bytes_of_outside (h : a < d + lo ∨ d + hi ≤ a) : (sp.part d s lo hi).bytes a = sp.bytes a :=
  if_neg (by omega)

/-- So many bytes are copied, and no others are changed. -/
def CopiesAt (bytes bytes' : Mem) (d s k : Nat) : Prop :=
  (∀ i, i < k → bytes' (d + i) = bytes (s + i)) ∧ ∀ a, a < d ∨ d + k ≤ a → bytes' a = bytes a

theorem copyByte_spec (hread : sp.readable s = true) (hwrite : sp.writable d = true) :
    ∃ bytes, sp.copyByte d s = some { sp with bytes } ∧ CopiesAt sp.bytes bytes d s 1 := by
  refine ⟨sp.bytes.setByte d (sp.bytes s), ?_, fun i hi => ?_, fun a ha => Mem.setByte_ne _ _ (by omega)⟩
  · rw [copyByte, readByte, if_pos hread]
    exact if_pos hwrite
  · obtain rfl : i = 0 := by omega
    exact Mem.setByte_self ..

theorem copyWord_spec (hread : All sp.readable s 8) (hwrite : All sp.writable d 8) :
    ∃ bytes, sp.copyWord d s = some { sp with bytes } ∧ CopiesAt sp.bytes bytes d s 8 := by
  refine ⟨sp.bytes.store d (sp.bytes.load s), ?_, fun i hi => Mem.store_load hi,
    fun a ha => Mem.store_outside _ (by omega)⟩
  rw [copyWord, readWord, if_pos hread]
  exact if_pos hwrite

/-- A byte that was copied could be read and written. -/
theorem copyByte_some {sp' : Space} (h : sp.copyByte d s = some sp') :
    sp.readable s = true ∧ sp.writable d = true ∧ sp' = { sp with bytes := sp.bytes.setByte d (sp.bytes s) } := by
  obtain ⟨x, hread, hwrite⟩ := Option.bind_eq_some_iff.mp h
  obtain ⟨hs, hx⟩ := Option.ite_none_right_eq_some.mp hread
  obtain ⟨hd, hsp⟩ := Option.ite_none_right_eq_some.mp hwrite
  obtain rfl := Option.some.inj hx
  exact ⟨hs, hd, (Option.some.inj hsp).symm⟩

theorem copyByte_unreadable (h : sp.readable s = false) (d : Nat) : sp.copyByte d s = none := by
  cases hcopy : sp.copyByte d s with
  | none => rfl
  | some sp' =>
      rw [(copyByte_some hcopy).1] at h
      cases h

theorem copyByte_unwritable (h : sp.writable d = false) (s : Nat) : sp.copyByte d s = none := by
  cases hcopy : sp.copyByte d s with
  | none => rfl
  | some sp' =>
      rw [(copyByte_some hcopy).2.1] at h
      cases h

/-- The first byte is enough. -/
theorem copyWord_unreadable (h : sp.readable s = false) (d : Nat) : sp.copyWord d s = none := by
  have hnot : ¬ All sp.readable s 8 := fun hall => by
    have hfirst := hall 0 (by omega)
    rw [Nat.add_zero, h] at hfirst
    cases hfirst
  rw [copyWord, readWord, if_neg hnot]
  rfl

theorem copyWord_unwritable (h : sp.writable d = false) (s : Nat) : sp.copyWord d s = none := by
  have hnot : ¬ All sp.writable d 8 := fun hall => by
    have hfirst := hall 0 (by omega)
    rw [Nat.add_zero, h] at hfirst
    cases hfirst
  rw [copyWord]
  cases sp.readWord s with
  | none => rfl
  | some w => exact if_neg hnot

/-- What is copied behind a part. It is read where nothing was written. -/
theorem part_up (h : CopiesAt (sp.part d s lo hi).bytes bytes (d + hi) (s + hi) k) (hle : lo ≤ hi)
    (hread : s + hi + k ≤ d + lo ∨ d + hi ≤ s + hi) :
    { sp.part d s lo hi with bytes } = sp.part d s lo (hi + k) := by
  obtain ⟨hin, hout⟩ := h
  have hbytes : bytes = (sp.part d s lo (hi + k)).bytes := by
    funext a
    by_cases ha : d + hi ≤ a ∧ a < d + hi + k
    · obtain ⟨i, rfl⟩ := Nat.exists_eq_add_of_le ha.1
      rw [hin i (by omega), part_bytes_of_outside (by omega)]
      refine ((if_pos (by omega)).trans (congrArg sp.bytes ?_)).symm
      omega
    · rw [hout a (by omega)]
      exact if_congr (by omega) rfl rfl
  rw [hbytes]
  rfl

/-- What is copied in front of a part. -/
theorem part_down (h : CopiesAt (sp.part d s (lo + k) hi).bytes bytes (d + lo) (s + lo) k) (hle : lo + k ≤ hi)
    (hread : s + lo + k ≤ d + lo + k ∨ d + hi ≤ s + lo) :
    { sp.part d s (lo + k) hi with bytes } = sp.part d s lo hi := by
  obtain ⟨hin, hout⟩ := h
  have hbytes : bytes = (sp.part d s lo hi).bytes := by
    funext a
    by_cases ha : d + lo ≤ a ∧ a < d + lo + k
    · obtain ⟨i, rfl⟩ := Nat.exists_eq_add_of_le ha.1
      rw [hin i (by omega), part_bytes_of_outside (by omega)]
      refine ((if_pos (by omega)).trans (congrArg sp.bytes ?_)).symm
      omega
    · rw [hout a (by omega)]
      exact if_congr (by omega) rfl rfl
  rw [hbytes]
  rfl

section

variable (hread : All sp.readable s n) (hwrite : All sp.writable d n)
include hread hwrite

theorem copyByte_up (hhi : hi < n) (hapart : s + n ≤ d ∨ d + n ≤ s) :
    (sp.part d s 0 hi).copyByte (d + hi) (s + hi) = some (sp.part d s 0 (hi + 1)) := by
  obtain ⟨bytes, hcopy, hcopies⟩ := copyByte_spec
    (show (sp.part d s 0 hi).readable (s + hi) = true from hread hi hhi) (hwrite hi hhi)
  rw [hcopy, part_up hcopies (Nat.zero_le hi) (by omega)]

theorem copyWord_up (hhi : hi + 8 ≤ n) (hapart : s + n ≤ d ∨ d + n ≤ s) :
    (sp.part d s 0 hi).copyWord (d + hi) (s + hi) = some (sp.part d s 0 (hi + 8)) := by
  obtain ⟨bytes, hcopy, hcopies⟩ := copyWord_spec
    (show All (sp.part d s 0 hi).readable (s + hi) 8 from hread.part hhi) (hwrite.part hhi)
  rw [hcopy, part_up hcopies (Nat.zero_le hi) (by omega)]

theorem copyByte_down (hlo : lo < n) (hbehind : s ≤ d) :
    (sp.part d s (lo + 1) n).copyByte (d + lo) (s + lo) = some (sp.part d s lo n) := by
  obtain ⟨bytes, hcopy, hcopies⟩ := copyByte_spec
    (show (sp.part d s (lo + 1) n).readable (s + lo) = true from hread lo hlo) (hwrite lo hlo)
  rw [hcopy, part_down hcopies hlo (by omega)]

theorem copyWord_down (hlo : lo + 8 ≤ n) (hbehind : s ≤ d) :
    (sp.part d s (lo + 8) n).copyWord (d + lo) (s + lo) = some (sp.part d s lo n) := by
  obtain ⟨bytes, hcopy, hcopies⟩ := copyWord_spec
    (show All (sp.part d s (lo + 8) n).readable (s + lo) 8 from hread.part hlo) (hwrite.part hlo)
  rw [hcopy, part_down hcopies hlo (by omega)]

end

end Space

end Workbench
