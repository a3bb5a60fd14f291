import Mathlib.Logic.Function.Basic
import Workbench.Lib.System

/-!
# `Buffer.BitArray` — `BitArray<N>`, bits in words

The last word has bits that are not of the array. They have to be 0, so that arrays with the same bits have the same
words. Where a word index is not below the size of the vector, or a word is shifted by its width, a call has no result
here.

## Contents
* `setLastIndex`, `setBit`, … — the functions of the source;
* `Call`, `exec` — the public operations on any number of arrays;
* `Clean` — no bit from `N` on is 1;
* `Meets`, `Sound` — what a call should do, and the calls that do it;
* `bitArrays_clean` — the main result, and `position_accepted`, where it fails.
-/

namespace Workbench.BitArray

abbrev Word := BitVec 64

def allOne : Word := 0xffffffffffffffff

def getIndex (pos : Nat) : Nat := pos / 64

def getShiftNum (pos : Nat) : Nat := pos % 64

def getSize (N : Nat) : Nat := getIndex N + if N % 64 = 0 then 0 else 1

/-- The constructor. -/
def bitArray (N : Nat) : List Word := List.replicate (getSize N) 0

/-- `CheckPos` throws. -/
def checkPosThrows (N pos : Nat) : Bool := N < pos

def setLastIndex (N : Nat) (words : List Word) : Option (List Word) :=
  if 64 - getShiftNum N < 64 then do
    let mask := allOne >>> (64 - getShiftNum N)
    let word ← words[getIndex N]?
    return words.set (getIndex N) (word &&& mask)
  else none

/-- `operator bool` of a proxy. -/
def getBit (words : List Word) (pos : Nat) : Option Bool := do
  let word ← words[getIndex pos]?
  return 1 == (word >>> getShiftNum pos &&& 1)

/-- `operator!` of a proxy. -/
def getNot (words : List Word) (pos : Nat) : Option Bool := do
  let word ← words[getIndex pos]?
  return 0 == (word >>> getShiftNum pos &&& 1)

/-- `operator=` of a proxy. -/
def setBit (words : List Word) (pos : Nat) (value : Bool) : Option (List Word) := do
  let mask : Word := 1 <<< getShiftNum pos
  let value : Word := if value then 1 else 0
  let word ← words[getIndex pos]?
  return words.set (getIndex pos) (word &&& ~~~mask ||| value <<< getShiftNum pos)

/-! ## The public operations -/

/-- The operations on the arrays `ι`. Both `Get` and `operator[]` give a proxy that is written. -/
inductive Call (ι : Type)
  | setAll (i : ι)
  | set (i : ι) (pos : Nat) (value : Bool)
  | flipAll (i : ι)
  | flip (i : ι) (pos : Nat)
  | write (i : ι) (pos : Nat) (value : Bool)
  | writeProxy (i : ι) (pos : Nat) (other : ι) (otherPos : Nat)
  | and (i other : ι)
  | or (i other : ι)

inductive Answer
  | done
  | outOfRange
  deriving DecidableEq

/-- The words of the arrays. -/
abbrev State (ι : Type) := ι → List Word

variable {ι : Type} [DecidableEq ι]

/-- The words of one array are others, or the call throws. -/
def store (s : State ι) (i : ι) (words : List Word) : State ι × Answer := (Function.update s i words, .done)

def exec (N : Nat) (s : State ι) : Call ι → Option (State ι × Answer)
  | .setAll i => (setLastIndex N ((s i).map fun _ => allOne)).map (store s i)
  | .set i pos value | .write i pos value =>
      if checkPosThrows N pos then some (s, .outOfRange) else (setBit (s i) pos value).map (store s i)
  | .flipAll i => (setLastIndex N ((s i).map fun word => ~~~word)).map (store s i)
  | .flip i pos =>
      if checkPosThrows N pos then some (s, .outOfRange) else do
        let value ← getNot (s i) pos
        let words ← setBit (s i) pos value
        return store s i words
  | .writeProxy i pos other otherPos =>
      if checkPosThrows N pos || checkPosThrows N otherPos then some (s, .outOfRange) else do
        let value ← getBit (s other) otherPos
        let words ← setBit (s i) pos value
        return store s i words
  | .and i other => some (store s i (List.zipWith (· &&& ·) (s other) (s i)))
  | .or i other => some (store s i (List.zipWith (· ||| ·) (s other) (s i)))

/-- The runs of the operations. -/
def bitArrays (ι : Type) [DecidableEq ι] (N : Nat) : System (State ι) (Call ι) where
  init s := s = fun _ => bitArray N
  step s call s' := ∃ ans, exec N s call = some (s', ans)

/-! ## What the calls should do -/

/-- The bit at a position of the words. -/
def bit (words : List Word) (k : Nat) : Bool := ((words[k / 64]?).getD 0).getLsbD (k % 64)

/-- **No bit from `N` on is 1.** -/
structure Clean (N : Nat) (words : List Word) : Prop where
  length : words.length = getSize N
  tail : ∀ k, N ≤ k → bit words k = false

/-- The invariant. -/
def AllClean (N : Nat) (s : State ι) : Prop := ∀ i, Clean N (s i)

/-- The positions in a call. -/
def Call.positions : Call ι → List Nat
  | .set _ pos _ | .flip _ pos | .write _ pos _ => [pos]
  | .writeProxy _ pos _ otherPos => [pos, otherPos]
  | _ => []

/-- **What a call should do**: all word indices are below the size of the vector, no bit from `N` on is 1 afterwards,
    and a position from `N` on is rejected. -/
def Meets (N : Nat) (s : State ι) (call : Call ι) : Prop :=
  ∃ s' ans, exec N s call = some (s', ans) ∧ AllClean N s' ∧
    ((∃ pos ∈ call.positions, N ≤ pos) → ans = .outOfRange)

/-- The calls that do: no position is `N`, if none is above, and all bits are written only if the last word is a partial
    one. -/
def Sound (N : Nat) : Call ι → Prop
  | .setAll _ | .flipAll _ => N % 64 ≠ 0
  | call => N ∉ call.positions ∨ ∃ pos ∈ call.positions, N < pos

/-! ## The writers -/

variable {N pos : Nat} {words other : List Word} {s s' : State ι} {call : Call ι}

theorem checkPosThrows_iff : checkPosThrows N pos = true ↔ N < pos := decide_eq_true_iff

theorem not_throws (hpos : pos ≤ N) : ¬ checkPosThrows N pos = true :=
  mt checkPosThrows_iff.mp (Nat.not_lt_of_le hpos)

theorem neither_throws {otherPos : Nat} (hpos : pos ≤ N) (hother : otherPos ≤ N) :
    ¬ (checkPosThrows N pos || checkPosThrows N otherPos) = true := by
  rw [Bool.or_eq_true]
  exact not_or.mpr ⟨not_throws hpos, not_throws hother⟩

theorem getIndex_lt (hpos : pos < N) : getIndex pos < getSize N := by
  simp only [getIndex, getSize]
  split <;> omega

theorem bit_set {i : Nat} (hi : i < words.length) (word : Word) (k : Nat) :
    bit (words.set i word) k = if k / 64 = i then word.getLsbD (k % 64) else bit words k := by
  by_cases hk : k / 64 = i
  · rw [if_pos hk, bit, hk, List.getElem?_set_self hi, Option.getD_some]
  · rw [if_neg hk, bit, List.getElem?_set_ne (Ne.symm hk), bit]

theorem bit_of_length_le {k : Nat} (h : words.length ≤ k / 64) : bit words k = false := by
  rw [bit, List.getElem?_eq_none h, Option.getD_none]
  exact BitVec.getLsbD_zero

theorem bit_eq {k : Nat} {word : Word} (hword : words[k / 64]? = some word) : bit words k = word.getLsbD (k % 64) := by
  rw [bit, hword, Option.getD_some]

theorem getLsbD_allOne (i : Nat) : allOne.getLsbD i = decide (i < 64) := by
  rw [show allOne = BitVec.allOnes 64 from rfl, BitVec.getLsbD_allOnes]

/-- The last word is masked: the bits below `N` are as they were, and the others are 0. -/
theorem setLastIndex_masks (hN : N % 64 ≠ 0) (hlength : words.length = getSize N) :
    ∃ words', setLastIndex N words = some words' ∧ words'.length = words.length ∧
      ∀ k, bit words' k = (decide (k < N) && bit words k) := by
  have hsize : getSize N = getIndex N + 1 := by rw [getSize, if_neg hN]
  have hlt : getIndex N < words.length := by omega
  obtain ⟨word, hword⟩ : ∃ word, words[getIndex N]? = some word := ⟨_, List.getElem?_eq_getElem hlt⟩
  have hshift : 64 - getShiftNum N < 64 := by
    rw [getShiftNum]
    omega
  refine ⟨_, by rw [setLastIndex, if_pos hshift, hword]; rfl, List.length_set, fun k => ?_⟩
  rw [bit_set hlt]
  by_cases hindex : k / 64 = getIndex N
  · have hbit : bit words k = word.getLsbD (k % 64) := bit_eq (hindex ▸ hword)
    have hiff : 64 - getShiftNum N + k % 64 < 64 ↔ k < N := by
      rw [getIndex] at hindex
      rw [getShiftNum]
      omega
    rw [if_pos hindex, BitVec.getLsbD_and, BitVec.getLsbD_ushiftRight, getLsbD_allOne, hbit, Bool.and_comm,
      decide_eq_decide.mpr hiff]
  · rw [if_neg hindex]
    rw [getIndex] at hindex hsize
    rcases Nat.lt_or_ge k N with hbelow | habove
    · rw [decide_eq_true hbelow, Bool.true_and]
    · rw [bit_of_length_le (by omega), Bool.and_false]

theorem setLastIndex_clean (hN : N % 64 ≠ 0) (hlength : words.length = getSize N) :
    ∃ words', setLastIndex N words = some words' ∧ Clean N words' := by
  obtain ⟨words', hset, hlength', hbits⟩ := setLastIndex_masks hN hlength
  refine ⟨words', hset, hlength'.trans hlength, fun k hk => ?_⟩
  rw [hbits, decide_eq_false (Nat.not_lt_of_le hk), Bool.false_and]

theorem setLastIndex_none (hN : N % 64 = 0) : setLastIndex N words = none := by
  rw [setLastIndex, getShiftNum, hN]
  rfl

theorem mask_eq (i : Nat) : ((1 <<< i : Nat) : Word) = (1 : Word) <<< i :=
  BitVec.eq_of_toNat_eq (by simp)

/-- One bit of a word is written. -/
theorem getLsbD_write (word : Word) {i k : Nat} (hi : i < 64) (hk : k < 64) (value : Bool) :
    (word &&& ~~~((1 : Word) <<< i) ||| (if value then (1 : Word) else 0) <<< i).getLsbD k =
      if k = i then value else word.getLsbD k := by
  have hone : ∀ d, (1 : Word).getLsbD d = decide (d = 0) := fun d => BitVec.getLsbD_one.trans (by simp)
  have hvalue : ∀ d, (if value then (1 : Word) else 0).getLsbD d = (value && decide (d = 0)) := by
    intro d
    cases value
    · exact BitVec.getLsbD_zero
    · exact hone d
  rw [BitVec.getLsbD_or, BitVec.getLsbD_and, BitVec.getLsbD_not, BitVec.getLsbD_shiftLeft, BitVec.getLsbD_shiftLeft,
    hone, hvalue]
  rcases Nat.lt_trichotomy k i with hlt | rfl | hlt
  · simp [hk, hlt, Nat.ne_of_lt hlt]
  · simp [hk]
  · have hd : k - i ≠ 0 := Nat.sub_ne_zero_of_lt hlt
    simp [hk, Nat.ne_of_gt hlt, hd]

/-- **One bit is written**: it has the value, and everything else is as it was. -/
structure Sets (words : List Word) (pos : Nat) (value : Bool) (words' : List Word) : Prop where
  length : words'.length = words.length
  bits (k : Nat) : bit words' k = if k = pos then value else bit words k

theorem setBit_sets (hlength : words.length = getSize N) (hpos : pos < N) (value : Bool) :
    ∃ words', setBit words pos value = some words' ∧ Sets words pos value words' := by
  have hlt : getIndex pos < words.length := hlength ▸ getIndex_lt hpos
  obtain ⟨word, hword⟩ : ∃ word, words[getIndex pos]? = some word := ⟨_, List.getElem?_eq_getElem hlt⟩
  refine ⟨_, by rw [setBit, hword]; rfl, List.length_set, fun k => ?_⟩
  rw [bit_set hlt]
  have hmod : ∀ k, k % 64 < 64 := fun k => Nat.mod_lt k (by decide)
  by_cases hindex : k / 64 = getIndex pos
  · have hword' : words[k / 64]? = some word := hindex ▸ hword
    rw [if_pos hindex, mask_eq, getShiftNum, getLsbD_write word (hmod pos) (hmod k), bit_eq hword']
    rw [getIndex] at hindex
    exact if_congr (by omega) rfl rfl
  · have hne : k ≠ pos := fun heq => hindex (heq ▸ rfl)
    rw [if_neg hindex, if_neg hne]

/-- A bit below `N` is written. -/
theorem setBit_clean (h : Clean N words) (hpos : pos < N) (value : Bool) :
    ∃ words', setBit words pos value = some words' ∧ Clean N words' := by
  obtain ⟨words', hset, hsets⟩ := setBit_sets h.length hpos value
  refine ⟨words', hset, hsets.length.trans h.length, fun k hk => ?_⟩
  rw [hsets.bits, if_neg (Nat.ne_of_gt (Nat.lt_of_lt_of_le hpos hk))]
  exact h.tail k hk

theorem getBit_isSome (h : Clean N words) (hpos : pos < N) : ∃ value, getBit words pos = some value := by
  have hlt : getIndex pos < words.length := by
    rw [h.length]
    exact getIndex_lt hpos
  exact ⟨_, by rw [getBit, List.getElem?_eq_getElem hlt]; rfl⟩

theorem getNot_isSome (h : Clean N words) (hpos : pos < N) : ∃ value, getNot words pos = some value := by
  have hlt : getIndex pos < words.length := by
    rw [h.length]
    exact getIndex_lt hpos
  exact ⟨_, by rw [getNot, List.getElem?_eq_getElem hlt]; rfl⟩

/-- Words of two arrays are combined bit by bit, so that two zeros give a zero. -/
theorem bit_zipWith {f : Word → Word → Word} {b : Bool → Bool → Bool} (hb : b false false = false)
    (hf : ∀ x y k, (f x y).getLsbD k = b (x.getLsbD k) (y.getLsbD k)) (hlength : other.length = words.length)
    (k : Nat) :
    bit (List.zipWith f other words) k = b (bit other k) (bit words k) := by
  rcases Nat.lt_or_ge (k / 64) words.length with hlt | hge
  · have hlt' : k / 64 < other.length := by rwa [hlength]
    have hword : words[k / 64]? = some words[k / 64] := List.getElem?_eq_getElem hlt
    have hother : other[k / 64]? = some other[k / 64] := List.getElem?_eq_getElem hlt'
    have hboth : (List.zipWith f other words)[k / 64]? = some (f other[k / 64] words[k / 64]) := by
      rw [List.getElem?_zipWith, hother, hword]
    rw [bit_eq hboth, hf, bit_eq hother, bit_eq hword]
  · have hother : other.length ≤ k / 64 := by rwa [hlength]
    have hboth : (List.zipWith f other words).length ≤ k / 64 := by rwa [List.length_zipWith, hlength, Nat.min_self]
    rw [bit_of_length_le hboth, bit_of_length_le hother, bit_of_length_le hge, hb]

theorem zipWith_clean (f : Word → Word → Word) (b : Bool → Bool → Bool) (hb : b false false = false)
    (hf : ∀ x y k, (f x y).getLsbD k = b (x.getLsbD k) (y.getLsbD k)) (h : Clean N words) (hother : Clean N other) :
    Clean N (List.zipWith f other words) := by
  have hlength : other.length = words.length := hother.length.trans h.length.symm
  refine ⟨by rw [List.length_zipWith, hlength, Nat.min_self, h.length], fun k hk => ?_⟩
  rw [bit_zipWith hb hf hlength, h.tail k hk, hother.tail k hk, hb]

/-- Words with the same bits are the same. -/
theorem ext_bits (hlength : words.length = other.length) (hbits : ∀ k, bit words k = bit other k) :
    words = other := by
  refine List.ext_getElem hlength fun i hi hi' => ?_
  refine BitVec.eq_of_getLsbD_eq fun j hj => ?_
  have hdiv : (i * 64 + j) / 64 = i := by omega
  have hmod : (i * 64 + j) % 64 = j := by omega
  have hword : words[(i * 64 + j) / 64]? = some words[i] := by rw [hdiv]; exact List.getElem?_eq_getElem hi
  have hother : other[(i * 64 + j) / 64]? = some other[i] := by rw [hdiv]; exact List.getElem?_eq_getElem hi'
  have hbit := hbits (i * 64 + j)
  rwa [bit_eq hword, bit_eq hother, hmod] at hbit

/-- Arrays with the same bits have the same words. -/
theorem eq_of_bits (h : Clean N words) (hother : Clean N other) (hbits : ∀ k < N, bit words k = bit other k) :
    words = other := by
  refine ext_bits (h.length.trans hother.length.symm) fun k => ?_
  rcases Nat.lt_or_ge k N with hlt | hge
  · exact hbits k hlt
  · rw [h.tail k hge, hother.tail k hge]

/-! ## Calls and runs -/

theorem store_clean (h : AllClean N s) {i : ι} (hwords : Clean N words) (j : ι) :
    Clean N ((store s i words).1 j) := by
  show Clean N (Function.update s i words j)
  by_cases hj : j = i
  · rw [hj, Function.update_self]
    exact hwords
  · rw [Function.update_of_ne hj]
    exact h j

theorem meets_thrown (h : AllClean N s) (hexec : exec N s call = some (s, .outOfRange)) : Meets N s call :=
  ⟨s, .outOfRange, hexec, h, fun _ => rfl⟩

theorem meets_done (h : AllClean N s) {i : ι} (hexec : exec N s call = some (store s i words))
    (hwords : Clean N words) (hpositions : ∀ pos ∈ call.positions, pos < N) : Meets N s call := by
  refine ⟨_, .done, hexec, store_clean h hwords, ?_⟩
  rintro ⟨pos, hmem, hge⟩
  exact absurd (hpositions pos hmem) (Nat.not_lt_of_le hge)

/-- A call with positions: it throws if one is above `N`, and writes a clean array if all are below. -/
theorem meets_iff_positions (h : AllClean N s)
    (hsound : Sound N call ↔ N ∉ call.positions ∨ ∃ pos ∈ call.positions, N < pos)
    (hthrows : (∃ pos ∈ call.positions, N < pos) → exec N s call = some (s, .outOfRange))
    (hdone : (∀ pos ∈ call.positions, pos ≤ N) → ∀ s' ans, exec N s call = some (s', ans) → ans = .done)
    (hclean : (∀ pos ∈ call.positions, pos < N) →
      ∃ i words, exec N s call = some (store s i words) ∧ Clean N words) : Meets N s call ↔ Sound N call := by
  rw [hsound]
  by_cases habove : ∃ pos ∈ call.positions, N < pos
  · exact ⟨fun _ => .inr habove, fun _ => meets_thrown h (hthrows habove)⟩
  have hle : ∀ pos ∈ call.positions, pos ≤ N := fun pos hmem => Nat.le_of_not_lt fun hlt => habove ⟨pos, hmem, hlt⟩
  by_cases hmem : N ∈ call.positions
  · -- the position `N` is not rejected
    refine ⟨?_, fun hsound => absurd hmem (hsound.resolve_right habove)⟩
    rintro ⟨s', ans, hexec, -, hrejected⟩
    have hans := hrejected ⟨N, hmem, Nat.le_refl N⟩
    rw [hdone hle s' ans hexec] at hans
    cases hans
  · refine ⟨fun _ => .inl hmem, fun _ => ?_⟩
    have hlt : ∀ pos ∈ call.positions, pos < N := fun pos hpos =>
      Nat.lt_of_le_of_ne (hle pos hpos) fun heq => hmem (heq ▸ hpos)
    obtain ⟨i, words, hexec, hwords⟩ := hclean hlt
    exact meets_done h hexec hwords hlt

/-- All bits of an array are written. -/
theorem meets_iff_all (h : AllClean N s) {i : ι} (hsound : Sound N call ↔ N % 64 ≠ 0)
    (hlength : words.length = getSize N) (hpositions : call.positions = [])
    (hexec : exec N s call = (setLastIndex N words).map (store s i)) : Meets N s call ↔ Sound N call := by
  rw [hsound]
  constructor
  · rintro ⟨s', ans, hmeets, -⟩ hN
    rw [hexec, setLastIndex_none hN] at hmeets
    cases hmeets
  · intro hN
    obtain ⟨words', hset, hwords'⟩ := setLastIndex_clean hN hlength
    refine meets_done h (by rw [hexec, hset]; rfl) hwords' ?_
    rw [hpositions]
    exact fun pos hmem => absurd hmem List.not_mem_nil

/-- One bit is written. -/
theorem meets_iff_set (h : AllClean N s) {i : ι} {value : Bool} (hsound : Sound N call ↔
      N ∉ call.positions ∨ ∃ pos ∈ call.positions, N < pos) (hpositions : call.positions = [pos])
    (hexec : exec N s call = if checkPosThrows N pos then some (s, .outOfRange) else
      (setBit (s i) pos value).map (store s i)) : Meets N s call ↔ Sound N call := by
  have hmem : pos ∈ call.positions := by
    rw [hpositions]
    exact List.mem_singleton_self pos
  refine meets_iff_positions h hsound ?_ (fun hle s' ans hmeets => ?_) fun hlt => ?_
  · rintro ⟨pos', hpos', hlt⟩
    rw [hpositions] at hpos'
    obtain rfl := List.mem_singleton.mp hpos'
    rw [hexec, if_pos (checkPosThrows_iff.mpr hlt)]
  · rw [hexec, if_neg (not_throws (hle pos hmem))] at hmeets
    obtain ⟨words, -, heq⟩ := Option.map_eq_some_iff.mp hmeets
    exact (congrArg Prod.snd heq).symm
  · obtain ⟨words, hset, hwords⟩ := setBit_clean (h i) (hlt pos hmem) value
    refine ⟨i, words, ?_, hwords⟩
    rw [hexec, if_neg (not_throws (Nat.le_of_lt (hlt pos hmem))), hset]
    rfl

/-- A bit is inverted through its proxy. -/
theorem meets_iff_flip (h : AllClean N s) (i : ι) (pos : Nat) : Meets N s (.flip i pos) ↔ Sound N (.flip i pos) := by
  have hmem : pos ∈ (Call.flip i pos).positions := List.mem_singleton_self pos
  refine meets_iff_positions h Iff.rfl ?_ (fun hle s' ans hmeets => ?_) fun hlt => ?_
  · rintro ⟨pos', hpos', hlt⟩
    obtain rfl := List.mem_singleton.mp hpos'
    exact if_pos (checkPosThrows_iff.mpr hlt)
  · rw [exec, if_neg (not_throws (hle pos hmem))] at hmeets
    obtain ⟨value, -, hmeets⟩ := Option.bind_eq_some_iff.mp hmeets
    obtain ⟨words, -, heq⟩ := Option.bind_eq_some_iff.mp hmeets
    exact (congrArg Prod.snd (Option.some.inj heq)).symm
  · obtain ⟨value, hget⟩ := getNot_isSome (h i) (hlt pos hmem)
    obtain ⟨words, hset, hwords⟩ := setBit_clean (h i) (hlt pos hmem) value
    refine ⟨i, words, ?_, hwords⟩
    rw [exec, if_neg (not_throws (Nat.le_of_lt (hlt pos hmem)))]
    simp only [hget, Option.bind_eq_bind, Option.bind_some, hset, Option.pure_def]

/-- A bit is the one of another proxy. -/
theorem meets_iff_writeProxy (h : AllClean N s) (i other : ι) (pos otherPos : Nat) :
    Meets N s (.writeProxy i pos other otherPos) ↔ Sound N (.writeProxy i pos other otherPos) := by
  have hmem : pos ∈ (Call.writeProxy i pos other otherPos).positions := List.mem_cons_self
  have hmem' : otherPos ∈ (Call.writeProxy i pos other otherPos).positions :=
    List.mem_cons_of_mem _ (List.mem_singleton_self otherPos)
  refine meets_iff_positions h Iff.rfl ?_ (fun hle s' ans hmeets => ?_) fun hlt => ?_
  · rintro ⟨pos', hpos', hlt⟩
    have hthrows : (checkPosThrows N pos || checkPosThrows N otherPos) = true := by
      rw [Bool.or_eq_true]
      rcases List.mem_cons.mp hpos' with rfl | hpos'
      · exact .inl (checkPosThrows_iff.mpr hlt)
      · obtain rfl := List.mem_singleton.mp hpos'
        exact .inr (checkPosThrows_iff.mpr hlt)
    exact if_pos hthrows
  · have hpasses := neither_throws (hle pos hmem) (hle otherPos hmem')
    rw [exec, if_neg hpasses] at hmeets
    obtain ⟨value, -, hmeets⟩ := Option.bind_eq_some_iff.mp hmeets
    obtain ⟨words, -, heq⟩ := Option.bind_eq_some_iff.mp hmeets
    exact (congrArg Prod.snd (Option.some.inj heq)).symm
  · obtain ⟨value, hget⟩ := getBit_isSome (h other) (hlt otherPos hmem')
    obtain ⟨words, hset, hwords⟩ := setBit_clean (h i) (hlt pos hmem) value
    have hpasses := neither_throws (Nat.le_of_lt (hlt pos hmem)) (Nat.le_of_lt (hlt otherPos hmem'))
    refine ⟨i, words, ?_, hwords⟩
    simp only [exec, if_neg hpasses, hget, Option.bind_eq_bind, Option.bind_some, hset, Option.pure_def]

/-- **A call does what it should if and only if it is sound.** -/
theorem meets_iff (h : AllClean N s) (call : Call ι) : Meets N s call ↔ Sound N call := by
  cases call with
  | setAll i => exact meets_iff_all h Iff.rfl (by rw [List.length_map, (h i).length]) rfl rfl
  | flipAll i => exact meets_iff_all h Iff.rfl (by rw [List.length_map, (h i).length]) rfl rfl
  | set i pos value => exact meets_iff_set h Iff.rfl rfl rfl
  | write i pos value => exact meets_iff_set h Iff.rfl rfl rfl
  | flip i pos => exact meets_iff_flip h i pos
  | writeProxy i pos other otherPos => exact meets_iff_writeProxy h i other pos otherPos
  | and i other =>
      have hclean := zipWith_clean (· &&& ·) and rfl (fun _ _ _ => BitVec.getLsbD_and) (h i) (h other)
      refine ⟨fun _ => .inl List.not_mem_nil, fun _ => meets_done h rfl hclean fun _ hmem => ?_⟩
      exact absurd hmem List.not_mem_nil
  | or i other =>
      have hclean := zipWith_clean (· ||| ·) or rfl (fun _ _ _ => BitVec.getLsbD_or) (h i) (h other)
      refine ⟨fun _ => .inl List.not_mem_nil, fun _ => meets_done h rfl hclean fun _ hmem => ?_⟩
      exact absurd hmem List.not_mem_nil

theorem bitArray_clean (N : Nat) : Clean N (bitArray N) := by
  refine ⟨List.length_replicate, fun k _ => ?_⟩
  rcases Nat.lt_or_ge (k / 64) (getSize N) with hlt | hge
  · rw [bit, bitArray, List.getElem?_replicate_of_lt hlt, Option.getD_some]
    exact BitVec.getLsbD_zero
  · exact bit_of_length_le (by rw [bitArray, List.length_replicate]; exact hge)

/-- **In a run of sound calls, no bit from `N` on is 1**, arrays with the same bits are equal, and a further call does
    what it should if and only if it is sound. -/
theorem bitArrays_clean (h : (bitArrays ι N).Reachable (fun _ call => Sound N call) s) :
    (∀ i, Clean N (s i)) ∧ (∀ i j, (∀ k < N, bit (s i) k = bit (s j) k) → s i = s j) ∧
      ∀ call, Meets N s call ↔ Sound N call := by
  have hclean : AllClean N s := by
    refine System.invariant (fun s hinit i => ?_) (fun s call s' hs hsound hstep => ?_) h
    · obtain rfl := hinit
      exact bitArray_clean N
    · obtain ⟨ans, hexec⟩ := hstep
      obtain ⟨s'', ans', hmeets, hclean, -⟩ := (meets_iff hs call).mpr hsound
      obtain ⟨rfl, -⟩ := Prod.mk.inj (Option.some.inj (hexec.symm.trans hmeets))
      exact hclean
  exact ⟨hclean, fun i j => eq_of_bits (hclean i) (hclean j), meets_iff hclean⟩

theorem bitArrays_sample :
    ∃ s, (bitArrays Unit 70).Reachable (fun _ call => Sound 70 call) s ∧ bit (s ()) 69 = true ∧ Clean 70 (s ()) := by
  have hset : (bitArrays Unit 70).step (fun _ => bitArray 70) (.setAll ())
      (Function.update (fun _ => bitArray 70) () [allOne, 0x3f]) := ⟨.done, rfl⟩
  have hsound : Sound 70 (.setAll ()) := Nat.succ_ne_zero 5
  have hreachable : (bitArrays Unit 70).Reachable (fun _ call => Sound 70 call) _ := .step (.init rfl) hsound hset
  exact ⟨_, hreachable, by decide, (bitArrays_clean hreachable).1 ()⟩

/-- The position `N` is not rejected: a bit that is not of the array is 1. If the array ends with a word, `Set()` masks
    a word after the last one. -/
theorem position_accepted :
    (∃ s, (bitArrays Unit 1).Reachable System.Any s ∧ bit (s ()) 1 = true) ∧
      exec 64 (fun _ : Unit => bitArray 64) (.setAll ()) = none := by
  have hset : (bitArrays Unit 1).step (fun _ => bitArray 1) (.set () 1 true)
      (Function.update (fun _ => bitArray 1) () [2]) := ⟨.done, rfl⟩
  exact ⟨⟨_, .step (.init rfl) trivial hset, by decide⟩, rfl⟩

end Workbench.BitArray
