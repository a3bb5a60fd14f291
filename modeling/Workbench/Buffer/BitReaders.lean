import Workbench.Buffer.BitArray

/-!
# `Buffer.BitReaders` — reading one bit of a `BitArray`

A bit is read through the const array, through a proxy as it is and negated, and in the text of the whole array. A call
that throws has no result here.

## Main results
* `getBit_eq`, `getNot_eq`, `toString_eq` — what the proxies and the text give;
* `readersAgree_iff` — the const array agrees with them exactly if no higher bit of the word is in the way.
-/

namespace Workbench.BitArray

/-! ## The readers -/

/-- `operator[]` of a const array. `==` binds tighter than `&`. -/
def constGet (N : Nat) (words : List Word) (pos : Nat) : Option Bool :=
  if checkPosThrows N pos then none else do
    let word ← words[getIndex pos]?
    let equal : Word := if 1 == word >>> getShiftNum pos then 1 else 0
    return equal &&& 1 != 0

/-- The loop of `To_String`: `left` bits of the word are left, and the next character is the one at `counter`. -/
def toStringLoop (size : Nat) : Nat → List Char → Nat → Word → Option (List Char × Nat)
  | 0, dest, counter, _ => some (dest, counter)
  | left + 1, dest, counter, num =>
      if counter < size then
        if counter < dest.length then
          toStringLoop size left (dest.set counter (Char.ofNat ((num &&& 1).toNat + '0'.toNat))) (counter + 1)
            (num >>> 1)
        else none
      else some (dest, counter)

/-- The accumulation over the words. The counter is in the functor, which `accumulate` keeps. -/
def toStringWords (size : Nat) : List Word → List Char → Nat → Option (List Char)
  | [], dest, _ => some dest
  | num :: words, dest, counter => do
      let (dest, counter) ← toStringLoop size 64 dest counter num
      toStringWords size words dest counter

def toString (N : Nat) (words : List Word) : Option (List Char) := do
  let dest ← toStringWords N words (List.replicate N (Char.ofNat 0)) 0
  return dest.take N

/-! ## One bit of a word -/

variable {N pos : Nat} {words : List Word} {dest : List Char} {counter : Nat}

/-- The word of a position that is of the array. -/
theorem exists_word (hlength : words.length = getSize N) (hpos : pos < N) : ∃ word, words[getIndex pos]? = some word :=
  ⟨_, List.getElem?_eq_getElem (hlength ▸ getIndex_lt hpos)⟩

theorem shifted_and_one (word : Word) (i : Nat) : word >>> i &&& 1 = if word.getLsbD i then 1 else 0 := by
  have hbit : (word >>> i).getLsbD 0 = word.getLsbD i := by rw [BitVec.getLsbD_ushiftRight, Nat.add_zero]
  show word >>> i &&& 1#64 = _
  rw [BitVec.and_one_eq_setWidth_ofBool_getLsbD, hbit]
  cases word.getLsbD i <;> rfl

theorem getBit_eq (hlength : words.length = getSize N) (hpos : pos < N) : getBit words pos = some (bit words pos) := by
  obtain ⟨word, hword⟩ := exists_word hlength hpos
  have hbit : bit words pos = word.getLsbD (getShiftNum pos) := bit_eq hword
  rw [getBit, hword, hbit]
  show some (1 == (word >>> getShiftNum pos &&& 1)) = _
  rw [shifted_and_one]
  cases word.getLsbD (getShiftNum pos) <;> rfl

theorem getNot_eq (hlength : words.length = getSize N) (hpos : pos < N) :
    getNot words pos = some (!bit words pos) := by
  obtain ⟨word, hword⟩ := exists_word hlength hpos
  have hbit : bit words pos = word.getLsbD (getShiftNum pos) := bit_eq hword
  rw [getNot, hword, hbit]
  show some (0 == (word >>> getShiftNum pos &&& 1)) = _
  rw [shifted_and_one]
  cases word.getLsbD (getShiftNum pos) <;> rfl

/-- What is left of a word is 1 exactly if its lowest bit is the only one. -/
theorem shifted_eq_one_iff (word : Word) (i : Nat) :
    1 = word >>> i ↔ word.getLsbD i = true ∧ ∀ k, i < k → k < 64 → word.getLsbD k = false := by
  constructor
  · intro h
    have hget : ∀ k, word.getLsbD (i + k) = (1 : Word).getLsbD k := fun k => by
      rw [h, BitVec.getLsbD_ushiftRight]
    refine ⟨hget 0, fun k hk _ => ?_⟩
    obtain ⟨d, rfl⟩ := Nat.exists_eq_add_of_lt hk
    have hd := hget (d + 1)
    rw [Nat.add_assoc, hd]
    exact BitVec.getLsbD_one.trans (by simp)
  · rintro ⟨hbit, hothers⟩
    refine BitVec.eq_of_getLsbD_eq fun k hk => ?_
    rw [BitVec.getLsbD_ushiftRight]
    rcases Nat.eq_zero_or_pos k with rfl | hpositive
    · exact hbit.symm
    · have hone : (1 : Word).getLsbD k = false := BitVec.getLsbD_one.trans (by simp; omega)
      rw [hone]
      rcases Nat.lt_or_ge (i + k) 64 with hlt | hge
      · exact (hothers (i + k) (by omega) hlt).symm
      · exact (BitVec.getLsbD_of_ge word (i + k) hge).symm

/-- **The const array gives the bit** unless it is 1 and a higher bit of its word is 1 too. -/
theorem constGet_eq_iff (hlength : words.length = getSize N) (hpos : pos < N) :
    constGet N words pos = some (bit words pos) ↔
      (bit words pos = true → ∀ k, pos < k → k / 64 = pos / 64 → bit words k = false) := by
  obtain ⟨word, hword⟩ := exists_word hlength hpos
  have hbit : ∀ k, k / 64 = pos / 64 → bit words k = word.getLsbD (k % 64) := fun k hk => bit_eq (hk ▸ hword)
  have hread : constGet N words pos = some (decide (1 = word >>> getShiftNum pos)) := by
    rw [constGet, if_neg (not_throws (Nat.le_of_lt hpos)), hword]
    show some ((if 1 == word >>> getShiftNum pos then (1 : Word) else 0) &&& 1 != 0) = _
    by_cases h : 1 = word >>> getShiftNum pos
    · rw [if_pos (beq_iff_eq.mpr h), decide_eq_true h]
      rfl
    · rw [if_neg (fun hbeq => h (beq_iff_eq.mp hbeq)), decide_eq_false h]
      rfl
  -- the higher bits of the word, by their positions
  have hhigher : (∀ k, pos < k → k / 64 = pos / 64 → bit words k = false) ↔
      ∀ k, pos % 64 < k → k < 64 → word.getLsbD k = false := by
    constructor
    · intro h k hk hlt
      have hdiv : (pos / 64 * 64 + k) / 64 = pos / 64 := by omega
      have hmod : (pos / 64 * 64 + k) % 64 = k := by omega
      rw [← hmod, ← hbit _ hdiv]
      exact h _ (by omega) hdiv
    · intro h k hk hdiv
      rw [hbit k hdiv]
      exact h _ (by omega) (Nat.mod_lt k (by decide))
  rw [hread, hhigher, hbit pos rfl, Option.some.injEq, getShiftNum]
  cases hvalue : word.getLsbD (pos % 64) with
  | false =>
      have hne : ¬ 1 = word >>> (pos % 64) := fun h => by
        rw [((shifted_eq_one_iff word _).mp h).1] at hvalue
        cases hvalue
      rw [decide_eq_false hne]
      simp
  | true =>
      rw [decide_eq_true_iff, shifted_eq_one_iff, hvalue]
      exact ⟨fun h _ => h.2, fun h => ⟨rfl, h rfl⟩⟩

/-! ## The text -/

/-- The character of a bit. -/
def digit (value : Bool) : Char := if value then '1' else '0'

theorem and_one_char (num : Word) : Char.ofNat ((num &&& 1).toNat + '0'.toNat) = digit (num.getLsbD 0) := by
  have hand : num &&& 1 = if num.getLsbD 0 then 1 else 0 := by
    have h := shifted_and_one num 0
    rwa [BitVec.ushiftRight_zero] at h
  rw [hand]
  cases num.getLsbD 0 <;> rfl

/-- The loop writes the lowest `left` bits of the word, as far as there are characters. -/
theorem toStringLoop_eq (left : Nat) (num : Word) (hlength : dest.length = N) (hcounter : counter ≤ N) :
    ∃ dest', toStringLoop N left dest counter num = some (dest', min N (counter + left)) ∧ dest'.length = N ∧
      (∀ k, k < counter → dest'[k]? = dest[k]?) ∧
      ∀ k, k < left → counter + k < N → dest'[counter + k]? = some (digit (num.getLsbD k)) := by
  induction left generalizing dest counter num with
  | zero => exact ⟨dest, by rw [Nat.add_zero, Nat.min_eq_right hcounter]; rfl, hlength, fun _ _ => rfl, nofun⟩
  | succ left ih =>
      by_cases hlt : counter < N
      · obtain ⟨dest', hloop, hlength', hbefore, hafter⟩ := ih (num >>> 1)
          (show (dest.set counter (Char.ofNat ((num &&& 1).toNat + '0'.toNat))).length = N by rwa [List.length_set])
          (show counter + 1 ≤ N from hlt)
        refine ⟨dest', ?_, hlength', fun k hk => ?_, fun k hk hkN => ?_⟩
        · rw [toStringLoop, if_pos hlt, if_pos (by omega), hloop]
          congr 3
          omega
        · rw [hbefore k (by omega), List.getElem?_set_ne (by omega)]
        · cases k with
          | zero =>
              rw [Nat.add_zero, hbefore counter (Nat.lt_succ_self counter), List.getElem?_set_self (by omega),
                and_one_char]
          | succ k =>
              have hnext := hafter k (by omega) (by omega)
              rw [BitVec.getLsbD_ushiftRight] at hnext
              rw [show counter + (k + 1) = counter + 1 + k by omega, hnext, Nat.add_comm 1 k]
      · refine ⟨dest, ?_, hlength, fun _ _ => rfl, fun k hk hkN => by omega⟩
        rw [toStringLoop, if_neg hlt]
        congr 2
        omega

/-- The words from the one that starts at `start` on. -/
theorem toStringWords_eq (words : List Word) (start : Nat) (hlength : dest.length = N)
    (hcounter : counter = min N start) :
    ∃ dest', toStringWords N words dest counter = some dest' ∧ dest'.length = N ∧
      (∀ k, k < counter → dest'[k]? = dest[k]?) ∧
      ∀ k, k < 64 * words.length → start + k < N → dest'[start + k]? = some (digit (bit words k)) := by
  induction words generalizing dest counter start with
  | nil => exact ⟨dest, rfl, hlength, fun _ _ => rfl, nofun⟩
  | cons num words ih =>
      obtain ⟨dest₁, hloop, hlength₁, hbefore₁, hword⟩ := toStringLoop_eq 64 num hlength
        (show counter ≤ N by omega)
      obtain ⟨dest', hrest, hlength', hbefore, hwords⟩ := ih (start + 64) hlength₁
        (show min N (counter + 64) = min N (start + 64) by omega)
      refine ⟨dest', ?_, hlength', fun k hk => ?_, fun k hk hkN => ?_⟩
      · rw [toStringWords, hloop]
        exact hrest
      · rw [hbefore k (by omega), hbefore₁ k hk]
      · rw [List.length_cons] at hk
        rcases Nat.lt_or_ge k 64 with hlt | hge
        · have hbit : bit (num :: words) k = num.getLsbD k := by
            rw [bit, Nat.div_eq_of_lt hlt, Nat.mod_eq_of_lt hlt]
            rfl
          have hstart : counter = start := by omega
          rw [hbefore _ (by omega), hbit, ← hword k hlt (by omega), hstart]
        · obtain ⟨d, rfl⟩ := Nat.exists_eq_add_of_le hge
          have hbit : bit (num :: words) (64 + d) = bit words d := by
            rw [bit, bit, show (64 + d) / 64 = d / 64 + 1 by omega, show (64 + d) % 64 = d % 64 by omega]
            rfl
          rw [hbit, ← hwords d (by omega) (by omega), Nat.add_assoc]

/-- **The text has the characters of the bits.** -/
theorem toString_eq (hlength : words.length = getSize N) :
    toString N words = some ((List.range N).map fun pos => digit (bit words pos)) := by
  obtain ⟨dest, hwords, hdest, -, hget⟩ := toStringWords_eq words 0
    (List.length_replicate (n := N) (a := Char.ofNat 0)) (show 0 = min N 0 by omega)
  rw [toString, hwords]
  show some (dest.take N) = _
  rw [List.take_of_length_le (Nat.le_of_eq hdest)]
  refine congrArg some (List.ext_getElem? fun pos => ?_)
  rcases Nat.lt_or_ge pos N with hlt | hge
  · have hin : pos < 64 * words.length := by
      have h := getIndex_lt hlt
      rw [getIndex, ← hlength] at h
      omega
    have hpos := hget pos hin (by omega)
    rw [Nat.zero_add] at hpos
    rw [hpos, List.getElem?_map, List.getElem?_range hlt]
    rfl
  · rw [List.getElem?_eq_none (by omega), List.getElem?_eq_none (by simpa using hge)]

/-! ## All four -/

/-- **The readers give the bit.** -/
structure ReadersAgree (N : Nat) (words : List Word) (pos : Nat) : Prop where
  const : constGet N words pos = some (bit words pos)
  proxy : getBit words pos = some (bit words pos)
  not : (getNot words pos).map (!·) = some (bit words pos)
  string : ∃ text c, toString N words = some text ∧ text[pos]? = some c ∧ decide (c = '1') = bit words pos

/-- **The readers agree if and only if** the bit is 0 or the highest one of its word that is 1. -/
theorem readersAgree_iff (hlength : words.length = getSize N) (hpos : pos < N) :
    ReadersAgree N words pos ↔ (bit words pos = true → ∀ k, pos < k → k / 64 = pos / 64 → bit words k = false) := by
  constructor
  · intro h
    exact (constGet_eq_iff hlength hpos).mp h.const
  · intro h
    refine ⟨(constGet_eq_iff hlength hpos).mpr h, getBit_eq hlength hpos, ?_, ?_⟩
    · rw [getNot_eq hlength hpos, Option.map_some, Bool.not_not]
    · refine ⟨_, digit (bit words pos), toString_eq hlength, ?_, ?_⟩
      · rw [List.getElem?_map, List.getElem?_range hpos]
        rfl
      · cases bit words pos <;> decide

theorem readersAgree_sample : ReadersAgree 70 [0x21, 0x20] 69 := by
  refine (readersAgree_iff rfl (by decide)).mpr fun _ k hk hdiv => ?_
  have hlt : k < 128 := by omega
  have hall : ∀ k < 128, 69 < k → bit [0x21, 0x20] k = false := by decide
  exact hall k hlt hk

/-- The bit 0 is 1, and the const array does not see it below the bit 1. -/
theorem constGet_below :
    ¬ ∀ N (words : List Word) pos, words.length = getSize N → pos < N → ReadersAgree N words pos := by
  intro h
  have hconst := (h 2 [3] 0 rfl (by decide)).const
  revert hconst
  decide

end Workbench.BitArray
