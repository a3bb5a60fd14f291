import Workbench.Buffer.BitReaders

/-!
# `Buffer.BitWriters` — writing one bit of a `BitArray`

A bit is written by the array, or through a proxy that `Get` or `operator[]` gave. `Flip` of a proxy takes the position
for the index of a word.

## Main results
* `writes_set`, `writes_assign`, `writes_assignProxy`, `writes_flip` — the others write their bit and nothing else;
* `writes_proxyFlip_iff` — when that one does too;
* `writes_iff` — all of them.
-/

namespace Workbench.BitArray

/-- `Flip` of a proxy. -/
def proxyFlip (words : List Word) (pos : Nat) : Option (List Word) := do
  let word ← words[pos]?
  return words.set pos (if word = 0 then 1 else 0)

/-- The writers of one bit. -/
inductive Writer (ι : Type)
  | set (i : ι) (pos : Nat) (value : Bool)
  | assign (i : ι) (pos : Nat) (value : Bool)
  | assignProxy (i : ι) (pos : Nat) (other : ι) (otherPos : Nat)
  | flip (i : ι) (pos : Nat)
  | proxyFlip (i : ι) (pos : Nat)

variable {ι : Type} [DecidableEq ι]

/-- All but the last are public operations of the array, the proxy included. -/
def Writer.run (N : Nat) (s : State ι) : Writer ι → Option (State ι × Answer)
  | .set i pos value => exec N s (.set i pos value)
  | .assign i pos value => exec N s (.write i pos value)
  | .assignProxy i pos other otherPos => exec N s (.writeProxy i pos other otherPos)
  | .flip i pos => exec N s (.flip i pos)
  | .proxyFlip i pos =>
      if checkPosThrows N pos then some (s, .outOfRange) else (BitArray.proxyFlip (s i) pos).map (store s i)

/-! ## What they should do -/

/-- The array that is written. -/
def Writer.array : Writer ι → ι
  | .set i _ _ | .assign i _ _ | .assignProxy i _ _ _ | .flip i _ | .proxyFlip i _ => i

def Writer.pos : Writer ι → Nat
  | .set _ pos _ | .assign _ pos _ | .assignProxy _ pos _ _ | .flip _ pos | .proxyFlip _ pos => pos

/-- What the bit should be. -/
def Writer.value (s : State ι) : Writer ι → Bool
  | .set _ _ value | .assign _ _ value => value
  | .assignProxy _ _ other otherPos => bit (s other) otherPos
  | .flip i pos | .proxyFlip i pos => !bit (s i) pos

/-- The positions are of the array. -/
def Writer.Below (N : Nat) : Writer ι → Prop
  | .assignProxy _ pos _ otherPos => pos < N ∧ otherPos < N
  | writer => writer.pos < N

def Writer.Flips : Writer ι → Prop
  | .flip _ _ | .proxyFlip _ _ => True
  | _ => False

/-- **What a writer should do**: the bit has the value, all the others are as they were, and all word indices are below
    the sizes of the vectors. What flips a bit restores the array the second time. -/
def Writes (N : Nat) (s : State ι) (writer : Writer ι) : Prop :=
  ∃ s', writer.run N s = some (s', .done) ∧ Sets (s writer.array) writer.pos (writer.value s) (s' writer.array) ∧
    (∀ j, j ≠ writer.array → s' j = s j) ∧ (writer.Flips → writer.run N s' = some (s, .done))

variable {N pos : Nat} {words words' : List Word} {value : Bool} {s : State ι} {writer : Writer ι} {i : ι}

/-! ## The writers that are as they should be -/

theorem store_self (s : State ι) (i : ι) (words : List Word) : (store s i words).1 i = words := by
  show Function.update s i words i = words
  exact Function.update_self i words s

/-- A call that stores words with one bit written. -/
theorem writes_store (hrun : writer.run N s = some (store s writer.array words))
    (hsets : Sets (s writer.array) writer.pos (writer.value s) words)
    (hflips : writer.Flips → writer.run N (store s writer.array words).1 = some (s, .done)) : Writes N s writer := by
  refine ⟨(store s writer.array words).1, hrun, ?_, fun j hj => Function.update_of_ne hj _ _, hflips⟩
  rwa [store_self]

theorem writes_set (hlength : (s i).length = getSize N) (hpos : pos < N) (value : Bool) :
    Writes N s (.set i pos value) := by
  obtain ⟨words, hset, hsets⟩ := setBit_sets hlength hpos value
  refine writes_store ?_ hsets nofun
  show exec N s (.set i pos value) = _
  rw [exec, if_neg (not_throws (Nat.le_of_lt hpos)), hset]
  rfl

theorem writes_assign (hlength : (s i).length = getSize N) (hpos : pos < N) (value : Bool) :
    Writes N s (.assign i pos value) := by
  obtain ⟨words, hset, hsets⟩ := setBit_sets hlength hpos value
  refine writes_store ?_ hsets nofun
  show exec N s (.write i pos value) = _
  rw [exec, if_neg (not_throws (Nat.le_of_lt hpos)), hset]
  rfl

theorem writes_assignProxy {other : ι} {otherPos : Nat} (hlength : (s i).length = getSize N)
    (hother : (s other).length = getSize N) (hpos : pos < N) (hotherPos : otherPos < N) :
    Writes N s (.assignProxy i pos other otherPos) := by
  obtain ⟨words, hset, hsets⟩ := setBit_sets hlength hpos (bit (s other) otherPos)
  refine writes_store ?_ hsets nofun
  show exec N s (.writeProxy i pos other otherPos) = _
  rw [exec, if_neg (neither_throws (Nat.le_of_lt hpos) (Nat.le_of_lt hotherPos)), getBit_eq hother hotherPos,
    Option.bind_eq_bind, Option.bind_some, hset]
  rfl

/-- What a bit that is flipped twice is in the end. -/
theorem Sets.flip_flip {words'' : List Word} (h : Sets words pos (!bit words pos) words')
    (h' : Sets words' pos (!bit words' pos) words'') : words'' = words := by
  refine ext_bits (h'.length.trans h.length) fun k => ?_
  rw [h'.bits, h.bits, h.bits]
  by_cases hk : k = pos
  · rw [if_pos hk, if_pos rfl, Bool.not_not, hk]
  · rw [if_neg hk, if_neg hk]

theorem flip_run (hlength : (s i).length = getSize N) (hpos : pos < N) :
    ∃ words, exec N s (.flip i pos) = some (store s i words) ∧ Sets (s i) pos (!bit (s i) pos) words := by
  obtain ⟨words, hset, hsets⟩ := setBit_sets hlength hpos (!bit (s i) pos)
  refine ⟨words, ?_, hsets⟩
  rw [exec, if_neg (not_throws (Nat.le_of_lt hpos)), getNot_eq hlength hpos, Option.bind_eq_bind, Option.bind_some,
    hset]
  rfl

/-- The words that were there are stored again. -/
theorem store_store (s : State ι) (i : ι) (words : List Word) : store (store s i words).1 i (s i) = (s, .done) := by
  show (Function.update (Function.update s i words) i (s i), Answer.done) = _
  rw [Function.update_idem, Function.update_eq_self]

theorem writes_flip (hlength : (s i).length = getSize N) (hpos : pos < N) : Writes N s (.flip i pos) := by
  obtain ⟨words, hflip, hsets⟩ := flip_run hlength hpos
  refine writes_store hflip hsets fun _ => ?_
  have hlength' : ((store s i words).1 i).length = getSize N := by rw [store_self, hsets.length, hlength]
  obtain ⟨words'', hflip', hsets'⟩ := flip_run hlength' hpos
  rw [store_self] at hsets'
  show exec N (store s i words).1 (.flip i pos) = _
  rw [hflip', hsets.flip_flip hsets', store_store]

/-! ## `Flip` of a proxy -/

/-- A word that is a truth value. -/
theorem getLsbD_ite (value : Prop) [Decidable value] (k : Nat) :
    (if value then (1 : Word) else 0).getLsbD k = (decide value && decide (k = 0)) := by
  by_cases h : value
  · rw [if_pos h, decide_eq_true h, Bool.true_and]
    exact BitVec.getLsbD_one.trans (by simp)
  · rw [if_neg h, decide_eq_false h, Bool.false_and]
    exact BitVec.getLsbD_zero

/-- The bit 0 is the only one that may be 1. -/
theorem word_of_bits {word : Word} (hbits : ∀ k, 0 < k → k < 64 → word.getLsbD k = false) :
    word = if word.getLsbD 0 then 1 else 0 := by
  refine BitVec.eq_of_getLsbD_eq fun k hk => ?_
  rw [getLsbD_ite, Bool.decide_eq_true]
  rcases Nat.eq_zero_or_pos k with rfl | hpositive
  · rw [decide_eq_true rfl, Bool.and_true]
  · rw [hbits k hpositive hk, decide_eq_false (Nat.ne_of_gt hpositive), Bool.and_false]

/-- The bits of the first word. -/
theorem bit_first {word : Word} {k : Nat} (hword : words[0]? = some word) (hk : k < 64) :
    bit words k = word.getLsbD k := by
  rw [bit, Nat.div_eq_of_lt hk, Nat.mod_eq_of_lt hk, hword]
  rfl

/-- Where the word is a truth value, its negation is the one of the bit 0. -/
theorem proxyFlip_first {word : Word} (hword : words[0]? = some word)
    (hbits : ∀ k, 0 < k → k < 64 → bit words k = false) :
    ∃ words', proxyFlip words 0 = some words' ∧ Sets words 0 (!bit words 0) words' := by
  obtain ⟨hlt, -⟩ := List.getElem?_eq_some_iff.mp hword
  have honly : word = if word.getLsbD 0 then 1 else 0 := word_of_bits fun k hk hlt64 => by
    rw [← bit_first hword hlt64]
    exact hbits k hk hlt64
  have hbit : bit words 0 = word.getLsbD 0 := bit_first hword (show 0 < 64 by decide)
  have hnot : decide (word = 0) = !word.getLsbD 0 := by
    rw [honly]
    cases word.getLsbD 0
    · exact decide_eq_true rfl
    · exact decide_eq_false (show (1 : Word) ≠ 0 by decide)
  refine ⟨_, by rw [proxyFlip, hword]; rfl, List.length_set, fun k => ?_⟩
  rw [bit_set hlt, getLsbD_ite, hnot, hbit]
  by_cases hindex : k / 64 = 0
  · have hlt64 : k < 64 := by omega
    rw [if_pos hindex, Nat.mod_eq_of_lt hlt64]
    by_cases hk : k = 0
    · rw [if_pos hk, decide_eq_true hk, Bool.and_true]
    · rw [if_neg hk, decide_eq_false hk, Bool.and_false]
      exact (hbits k (Nat.pos_of_ne_zero hk) hlt64).symm
  · have hk : k ≠ 0 := by omega
    rw [if_neg hindex, if_neg hk]

/-- Only in the first word the index of a bit may be the one of its word. -/
theorem proxyFlip_sets_iff (hlength : words.length = getSize N) (hpos : pos < N) :
    (∃ words', proxyFlip words pos = some words' ∧ Sets words pos (!bit words pos) words') ↔
      pos = 0 ∧ ∀ k, 0 < k → k < 64 → bit words k = false := by
  constructor
  · rintro ⟨words', hflip, hlength', hbits⟩
    obtain ⟨word, hword, hset⟩ := Option.bind_eq_some_iff.mp hflip
    obtain rfl := Option.some.inj hset
    obtain ⟨hlt, -⟩ := List.getElem?_eq_some_iff.mp hword
    have hset : ∀ k, bit (words.set pos (if word = 0 then 1 else 0)) k =
        if k / 64 = pos then (if word = 0 then (1 : Word) else 0).getLsbD (k % 64) else bit words k := bit_set hlt _
    have hzero : pos = 0 := by
      by_contra hne
      -- the bit is in an earlier word, which stays
      have hdiv : pos / 64 ≠ pos := by omega
      have hsame := hbits pos
      rw [hset, if_neg hdiv, if_pos rfl] at hsame
      cases hbit : bit words pos <;> rw [hbit] at hsame <;> cases hsame
    subst hzero
    refine ⟨rfl, fun k hk hlt64 => ?_⟩
    have hsame := hbits k
    rw [hset, if_pos (Nat.div_eq_of_lt hlt64), if_neg (Nat.ne_of_gt hk), Nat.mod_eq_of_lt hlt64] at hsame
    rw [getLsbD_ite, decide_eq_false (Nat.ne_of_gt hk), Bool.and_false] at hsame
    exact hsame.symm
  · rintro ⟨rfl, hbits⟩
    obtain ⟨word, hword⟩ := exists_word hlength hpos
    exact proxyFlip_first hword hbits

theorem proxyFlip_run (hpos : pos < N) :
    (Writer.proxyFlip i pos).run N s = (proxyFlip (s i) pos).map (store s i) :=
  if_neg (not_throws (Nat.le_of_lt hpos))

theorem writes_proxyFlip_iff (hlength : (s i).length = getSize N) (hpos : pos < N) :
    Writes N s (.proxyFlip i pos) ↔ pos = 0 ∧ ∀ k, 0 < k → k < 64 → bit (s i) k = false := by
  rw [← proxyFlip_sets_iff hlength hpos]
  constructor
  · rintro ⟨s', hrun, hsets, -⟩
    rw [proxyFlip_run hpos] at hrun
    obtain ⟨words, hflip, heq⟩ := Option.map_eq_some_iff.mp hrun
    obtain ⟨rfl, -⟩ := Prod.mk.inj heq
    have hsets : Sets (s i) pos (!bit (s i) pos) ((store s i words).1 i) := hsets
    rw [store_self] at hsets
    exact ⟨words, hflip, hsets⟩
  · rintro ⟨words, hflip, hsets⟩
    refine writes_store (by rw [proxyFlip_run hpos, hflip]; rfl) hsets fun _ => ?_
    -- the condition holds of what is there now, so that the second time is like the first one
    obtain ⟨rfl, hbits⟩ := (proxyFlip_sets_iff hlength hpos).mp ⟨words, hflip, hsets⟩
    obtain ⟨words'', hflip', hsets'⟩ := (proxyFlip_sets_iff (hsets.length.trans hlength) hpos).mpr
      ⟨rfl, fun k hk hlt => by rw [hsets.bits, if_neg (Nat.ne_of_gt hk), hbits k hk hlt]⟩
    show (Writer.proxyFlip i 0).run N (store s i words).1 = _
    rw [proxyFlip_run hpos, store_self, hflip', hsets.flip_flip hsets']
    show some (store (store s i words).1 i (s i)) = _
    rw [store_store]

/-! ## All the writers -/

/-- **A writer does what it should** unless it is `Flip` of a proxy, and that one does if and only if it is the proxy of
    the first bit and no other bit of the first word is 1. -/
theorem writes_iff (hlength : ∀ j, (s j).length = getSize N) (hbelow : writer.Below N) :
    Writes N s writer ↔ ∀ i pos, writer = .proxyFlip i pos → pos = 0 ∧ ∀ k, 0 < k → k < 64 → bit (s i) k = false := by
  cases writer with
  | set i pos value => exact ⟨fun _ _ _ => nofun, fun _ => writes_set (hlength i) hbelow value⟩
  | assign i pos value => exact ⟨fun _ _ _ => nofun, fun _ => writes_assign (hlength i) hbelow value⟩
  | assignProxy i pos other otherPos =>
      exact ⟨fun _ _ _ => nofun, fun _ => writes_assignProxy (hlength i) (hlength other) hbelow.1 hbelow.2⟩
  | flip i pos => exact ⟨fun _ _ _ => nofun, fun _ => writes_flip (hlength i) hbelow⟩
  | proxyFlip i pos =>
      have hpos : pos < N := hbelow
      rw [writes_proxyFlip_iff (hlength i) hpos]
      constructor
      · rintro h i' pos' heq
        obtain ⟨rfl, rfl⟩ := Writer.proxyFlip.inj heq
        exact h
      · intro h
        exact h i pos rfl

theorem writes_sample : Writes 70 (fun _ : Unit => [0x20, 1]) (.flip () 64) := by
  have hbelow : (Writer.flip () 64).Below 70 := show 64 < 70 by decide
  exact (writes_iff (fun _ => rfl) hbelow).mpr fun _ _ => nofun

/-- The proxy of the bit 1 flips the word 1, which is not there. -/
theorem proxyFlip_outside : ¬ ∀ N (s : State Unit) (writer : Writer Unit), (∀ j, (s j).length = getSize N) →
    writer.Below N → Writes N s writer := by
  intro h
  have hbelow : (Writer.proxyFlip () 1).Below 2 := show 1 < 2 by decide
  obtain ⟨s', hrun, -⟩ := h 2 (fun _ => bitArray 2) (.proxyFlip () 1) (fun _ => rfl) hbelow
  cases hrun

end Workbench.BitArray
