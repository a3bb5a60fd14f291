import Mathlib.Logic.Function.Basic
import Workbench.Lib.Refines
import Workbench.Lib.RingBuffer

/-!
# `Queue.MpmcSequential` — `MPMCQueue`, one thread

Calls do not overlap. Positions and sequence numbers are words of 64 bits, and their difference is a signed one, which
may overflow. A compare-exchange may fail without a reason, any number of times.

## Contents
* `enqueue`, `dequeue` — the two calls, with fuel for their loops;
* `Fifo` — a bounded first-in first-out queue, with the number of items that went in and out;
* `Sound` — the calls that the positions are good for;
* `refines_fifo` — the main result.
-/

namespace Workbench.Mpmc.Sequential

variable {T : Type}

/-! ## Words -/

/-- How many words there are, and how many are not negative as signed numbers. -/
def words : Nat := 18446744073709551616

def half : Nat := 9223372036854775808

def word (k : Nat) : BitVec 64 := BitVec.ofNat 64 k

/-- The difference of two words as signed numbers: none if it overflows. -/
def difference (seq pos : BitVec 64) : Option Int :=
  let diff := seq.toInt - pos.toInt
  if -(half : Int) ≤ diff ∧ diff < half then some diff else none

/-! ## The queue -/

structure Queue (T : Type) where
  sequence : Nat → BitVec 64
  data : Nat → T
  enqueuePos : BitVec 64
  dequeuePos : BitVec 64

/-- A new queue, whatever its cells hold. -/
def create (data : Nat → T) : Queue T := ⟨word, data, 0#64, 0#64⟩

/-- The cell of a position. -/
def cell (capacity : Nat) (pos : BitVec 64) : Nat := pos.toNat % capacity

/-- The loop of `enqueue`, where the next `failures` exchanges fail: the claimed position, or `none` if the queue is
full. -/
def enqueueLoop (capacity : Nat) (q : Queue T) : Nat → Nat → BitVec 64 → Option (Option (BitVec 64))
  | 0, _, _ => none
  | fuel + 1, failures, pos => do
      let diff ← difference (q.sequence (cell capacity pos)) pos
      if diff = 0 then
        match failures with
        | 0 => if q.enqueuePos = pos then return some pos else enqueueLoop capacity q fuel 0 q.enqueuePos
        | failures + 1 => enqueueLoop capacity q fuel failures q.enqueuePos
      else if diff < 0 then return none
      else enqueueLoop capacity q fuel failures q.enqueuePos

/-- What `enqueue` does with the position that it claims. -/
def Queue.put (capacity : Nat) (q : Queue T) (pos : BitVec 64) (item : T) : Queue T :=
  { q with
    enqueuePos := pos + 1#64
    data := Function.update q.data (cell capacity pos) item
    sequence := Function.update q.sequence (cell capacity pos) (pos + 1#64) }

def enqueue (capacity fuel failures : Nat) (q : Queue T) (item : T) : Option (Queue T × Bool) := do
  match ← enqueueLoop capacity q fuel failures q.enqueuePos with
  | none => return (q, false)
  | some pos => return (q.put capacity pos item, true)

/-- The loop of `dequeue`: the claimed position, or `none` if the queue is empty. -/
def dequeueLoop (capacity : Nat) (q : Queue T) : Nat → Nat → BitVec 64 → Option (Option (BitVec 64))
  | 0, _, _ => none
  | fuel + 1, failures, pos => do
      let diff ← difference (q.sequence (cell capacity pos)) (pos + 1#64)
      if diff = 0 then
        match failures with
        | 0 => if q.dequeuePos = pos then return some pos else dequeueLoop capacity q fuel 0 q.dequeuePos
        | failures + 1 => dequeueLoop capacity q fuel failures q.dequeuePos
      else if diff < 0 then return none
      else dequeueLoop capacity q fuel failures q.dequeuePos

/-- What `dequeue` does with the position that it claims. -/
def Queue.take (capacity : Nat) (q : Queue T) (pos : BitVec 64) : Queue T :=
  { q with
    dequeuePos := pos + 1#64
    sequence := Function.update q.sequence (cell capacity pos) (pos + word capacity) }

/-- The item, if the call returns true. -/
def dequeue (capacity fuel failures : Nat) (q : Queue T) : Option (Queue T × Option T) := do
  match ← dequeueLoop capacity q fuel failures q.dequeuePos with
  | none => return (q, none)
  | some pos => return (q.take capacity pos, some (q.data (cell capacity pos)))

/-- A call, with the number of exchanges that fail without a reason, and the fuel for the loop. -/
inductive Call (T : Type)
  | enqueue (item : T) (failures fuel : Nat)
  | dequeue (failures fuel : Nat)

/-- There is fuel for the exchanges that fail and for one more. -/
def Call.Fueled : Call T → Prop
  | .enqueue _ failures fuel => failures < fuel
  | .dequeue failures fuel => failures < fuel

inductive Answer (T : Type)
  | enqueued (done : Bool)
  | dequeued (item : Option T)

def exec (capacity : Nat) (q : Queue T) : Call T → Option (Queue T × Answer T)
  | .enqueue item failures fuel => (enqueue capacity fuel failures q item).map fun r => (r.1, .enqueued r.2)
  | .dequeue failures fuel => (dequeue capacity fuel failures q).map fun r => (r.1, .dequeued r.2)

/-- The queue with `capacity` cells, whatever they hold at first. -/
def component (T : Type) (capacity : Nat) : Component (Queue T) (Call T) (Answer T) where
  init q := ∃ data, q = create data
  exec := exec capacity

/-! ## The bounded queue -/

/-- The items, from the oldest on, and how many went in and out. -/
structure Fifo (T : Type) where
  items : List T
  enqueued : Nat
  dequeued : Nat

def Fifo.answer (capacity : Nat) (f : Fifo T) : Call T → Fifo T × Answer T
  | .enqueue item _ _ =>
      if f.items.length = capacity then (f, .enqueued false)
      else ({ f with items := f.items ++ [item], enqueued := f.enqueued + 1 }, .enqueued true)
  | .dequeue _ _ =>
      match f.items with
      | [] => (f, .dequeued none)
      | x :: items => ({ f with items, dequeued := f.dequeued + 1 }, .dequeued (some x))

def fifo (T : Type) (capacity : Nat) : Model (Fifo T) (Call T) (Answer T) where
  init := ⟨[], 0, 0⟩
  answer := Fifo.answer capacity

/-! ## The calls that the positions are good for -/

/-- The position has the cell that is its remainder: this stops when the words start again, unless the capacity divides
their number. -/
def Regular (capacity p : Nat) : Prop := capacity ∣ words ∨ p < words

instance (capacity p : Nat) : Decidable (Regular capacity p) := inferInstanceAs (Decidable (_ ∨ _))

/-- How far back the last position with the same cell is. -/
def gap (capacity p : Nat) : Nat := if Regular capacity p then capacity else p % capacity

/-- The words of the two positions are not on different sides of the overflow. -/
def SameHalf (p r : Nat) : Prop := (p + half) / words = (r + half) / words

instance (p r : Nat) : Decidable (SameHalf p r) := inferInstanceAs (Decidable (_ = _))

def Sound (capacity : Nat) (f : Fifo T) : Call T → Prop
  | .enqueue _ _ _ =>
      if f.items.length = capacity then
        2 ≤ gap capacity f.enqueued ∧ SameHalf (f.enqueued - gap capacity f.enqueued + 1) f.enqueued
      else Regular capacity f.enqueued
  | .dequeue _ _ =>
      if f.items = [] then Regular capacity f.dequeued ∧ SameHalf f.dequeued (f.dequeued + 1) else True

/-! ## Words and cells -/

variable {capacity fuel failures k m : Nat} {q : Queue T} {f : Fifo T}

theorem word_add (k m : Nat) : word k + word m = word (k + m) := (BitVec.ofNat_add k m).symm

theorem word_succ (k : Nat) : word k + 1#64 = word (k + 1) := word_add k 1

theorem cell_word (capacity k : Nat) : cell capacity (word k) = k % words % capacity := rfl

theorem Regular.cell (h : Regular capacity k) : cell capacity (word k) = k % capacity := by
  rw [cell_word]
  rcases h with hdvd | hlt
  · exact Nat.mod_mod_of_dvd k hdvd
  · rw [Nat.mod_eq_of_lt hlt]

theorem toInt_word (k : Nat) :
    (word k).toInt = if k % words < half then ((k % words : Nat) : Int) else (k % words : Nat) - (words : Int) := by
  have htoNat : (word k).toNat = k % words := rfl
  rw [BitVec.toInt_eq_toNat_cond, htoNat]
  by_cases hlt : k % words < half
  · rw [if_pos hlt, if_pos (by simp only [half] at hlt; omega)]
  · rw [if_neg hlt, if_neg (by simp only [half] at hlt; omega)]
    rfl

theorem difference_self (pos : BitVec 64) : difference pos pos = some 0 := by
  simp [difference, half]

/-- A word that is `m` behind another. -/
theorem difference_behind (hm : m < half) (h : SameHalf k (k + m)) :
    difference (word k) (word (k + m)) = some (-(m : Int)) := by
  have hdiff : (word k).toInt - (word (k + m)).toInt = -(m : Int) := by
    rw [toInt_word, toInt_word]
    simp only [SameHalf, words, half] at h hm ⊢
    split_ifs <;> omega
  simp only [difference, hdiff, half] at hm ⊢
  rw [if_pos (by omega)]

theorem difference_overflows (hm : m < half) (h : ¬ SameHalf k (k + m)) :
    difference (word k) (word (k + m)) = none := by
  have hdiff : (half : Int) ≤ (word k).toInt - (word (k + m)).toInt := by
    rw [toInt_word, toInt_word]
    simp only [SameHalf, words, half] at h hm ⊢
    split_ifs <;> omega
  simp only [difference]
  rw [if_neg (by omega)]

/-- Two words where the words start again. -/
theorem difference_restart {n : Nat} (hm : m < half) (hn : n < half) :
    difference (word (words + m)) (word (words + n)) = some ((m : Int) - n) := by
  have hdiff : (word (words + m)).toInt - (word (words + n)).toInt = (m : Int) - n := by
    rw [toInt_word, toInt_word]
    simp only [words, half] at hm hn ⊢
    split_ifs <;> omega
  simp only [difference, hdiff]
  rw [if_pos (by omega)]

/-! ## The loops -/

theorem enqueueLoop_claims (h : difference (q.sequence (cell capacity q.enqueuePos)) q.enqueuePos = some 0)
    (hfuel : failures < fuel) :
    enqueueLoop capacity q fuel failures q.enqueuePos = some (some q.enqueuePos) := by
  induction failures generalizing fuel with
  | zero =>
      obtain ⟨fuel, rfl⟩ : ∃ n, fuel = n + 1 := ⟨fuel - 1, by omega⟩
      simp [enqueueLoop, h]
  | succ failures ih =>
      obtain ⟨fuel, rfl⟩ : ∃ n, fuel = n + 1 := ⟨fuel - 1, by omega⟩
      simp [enqueueLoop, h, ih (by omega : failures < fuel)]

theorem enqueueLoop_full {diff : Int} (hneg : diff < 0)
    (h : difference (q.sequence (cell capacity q.enqueuePos)) q.enqueuePos = some diff) (hfuel : failures < fuel) :
    enqueueLoop capacity q fuel failures q.enqueuePos = some none := by
  obtain ⟨fuel, rfl⟩ : ∃ n, fuel = n + 1 := ⟨fuel - 1, by omega⟩
  simp [enqueueLoop, h, hneg, show diff ≠ 0 by omega]

theorem enqueueLoop_overflows (h : difference (q.sequence (cell capacity q.enqueuePos)) q.enqueuePos = none) :
    enqueueLoop capacity q fuel failures q.enqueuePos = none := by
  cases fuel with
  | zero => rfl
  | succ fuel => simp [enqueueLoop, h]

/-- The loop goes on for ever. -/
theorem enqueueLoop_stuck {diff : Int} (hpos : 0 < diff)
    (h : difference (q.sequence (cell capacity q.enqueuePos)) q.enqueuePos = some diff) :
    enqueueLoop capacity q fuel failures q.enqueuePos = none := by
  induction fuel with
  | zero => rfl
  | succ fuel ih => simp [enqueueLoop, h, ih, show diff ≠ 0 by omega, show ¬ diff < 0 by omega]

theorem dequeueLoop_claims
    (h : difference (q.sequence (cell capacity q.dequeuePos)) (q.dequeuePos + 1#64) = some 0)
    (hfuel : failures < fuel) :
    dequeueLoop capacity q fuel failures q.dequeuePos = some (some q.dequeuePos) := by
  induction failures generalizing fuel with
  | zero =>
      obtain ⟨fuel, rfl⟩ : ∃ n, fuel = n + 1 := ⟨fuel - 1, by omega⟩
      simp [dequeueLoop, h]
  | succ failures ih =>
      obtain ⟨fuel, rfl⟩ : ∃ n, fuel = n + 1 := ⟨fuel - 1, by omega⟩
      simp [dequeueLoop, h, ih (by omega : failures < fuel)]

theorem dequeueLoop_empty {diff : Int} (hneg : diff < 0)
    (h : difference (q.sequence (cell capacity q.dequeuePos)) (q.dequeuePos + 1#64) = some diff)
    (hfuel : failures < fuel) :
    dequeueLoop capacity q fuel failures q.dequeuePos = some none := by
  obtain ⟨fuel, rfl⟩ : ∃ n, fuel = n + 1 := ⟨fuel - 1, by omega⟩
  simp [dequeueLoop, h, hneg, show diff ≠ 0 by omega]

theorem dequeueLoop_overflows
    (h : difference (q.sequence (cell capacity q.dequeuePos)) (q.dequeuePos + 1#64) = none) :
    dequeueLoop capacity q fuel failures q.dequeuePos = none := by
  cases fuel with
  | zero => rfl
  | succ fuel => simp [dequeueLoop, h]

theorem dequeueLoop_stuck {diff : Int} (hpos : 0 < diff)
    (h : difference (q.sequence (cell capacity q.dequeuePos)) (q.dequeuePos + 1#64) = some diff) :
    dequeueLoop capacity q fuel failures q.dequeuePos = none := by
  induction fuel with
  | zero => rfl
  | succ fuel ih => simp [dequeueLoop, h, ih, show diff ≠ 0 by omega, show ¬ diff < 0 by omega]

theorem enqueue_claims (h : difference (q.sequence (cell capacity q.enqueuePos)) q.enqueuePos = some 0)
    (hfuel : failures < fuel) (item : T) :
    enqueue capacity fuel failures q item = some (q.put capacity q.enqueuePos item, true) := by
  simp only [enqueue, enqueueLoop_claims h hfuel, bind, Option.bind_some, pure]

theorem dequeue_claims (h : difference (q.sequence (cell capacity q.dequeuePos)) (q.dequeuePos + 1#64) = some 0)
    (hfuel : failures < fuel) : dequeue capacity fuel failures q =
      some (q.take capacity q.dequeuePos, some (q.data (cell capacity q.dequeuePos))) := by
  simp only [dequeue, dequeueLoop_claims h hfuel, bind, Option.bind_some, pure]

/-! ## What the queue holds -/

/-- **The queue holds the items**: what the sequence number of a cell is, depends on the number of the last item that
was put into it. -/
structure Represents (capacity : Nat) (q : Queue T) (f : Fifo T) : Prop where
  enqueuePos : q.enqueuePos = word f.enqueued
  dequeuePos : q.dequeuePos = word f.dequeued
  count : f.enqueued = f.dequeued + f.items.length
  room : f.items.length ≤ capacity
  regular : ∀ k < f.enqueued, Regular capacity k
  stored : ∀ k x, f.items[k]? = some x →
    q.data ((f.dequeued + k) % capacity) = x ∧ q.sequence ((f.dequeued + k) % capacity) = word (f.dequeued + k + 1)
  free : ∀ k, f.enqueued ≤ k → k < f.dequeued + capacity → q.sequence (k % capacity) = word k

theorem represents_create (data : Nat → T) : Represents capacity (create data) ⟨[], 0, 0⟩ where
  enqueuePos := rfl
  dequeuePos := rfl
  count := rfl
  room := Nat.zero_le _
  regular k hk := absurd hk (Nat.not_lt_zero k)
  stored k x hx := by simp at hx
  free k _ hk := by
    rw [Nat.mod_eq_of_lt (by simpa using hk)]
    rfl

/-- The first position with a cell of its own is where the words start again. -/
theorem Represents.eq_words (h : Represents capacity q f) (hregular : ¬ Regular capacity f.enqueued) :
    f.enqueued = words := by
  obtain ⟨hdvd, hle⟩ := not_or.mp hregular
  by_contra hne
  rcases h.regular words (by omega) with hdvd' | hlt
  · exact hdvd hdvd'
  · exact absurd hlt (Nat.lt_irrefl _)

theorem Represents.sequence_stored (h : Represents capacity q f) (hk : f.dequeued ≤ k) (hlt : k < f.enqueued) :
    q.sequence (k % capacity) = word (k + 1) := by
  have hcount := h.count
  obtain ⟨x, hx⟩ : ∃ x, f.items[k - f.dequeued]? = some x := ⟨_, List.getElem?_eq_getElem (by omega)⟩
  have hstored := (h.stored _ x hx).2
  rwa [Nat.add_sub_cancel' hk] at hstored

/-- Where the words start again, the cell is the first one, and the last position with it is less than a round back. -/
theorem Represents.restart (h : Represents capacity q f) (hregular : ¬ Regular capacity f.enqueued)
    (hcapacity : 1 ≤ capacity) : f.enqueued = words ∧ ∃ r, gap capacity f.enqueued = r ∧ 0 < r ∧ r < capacity ∧
      r ≤ words ∧ cell capacity (word words) = (words - r) % capacity := by
  have hwords := h.eq_words hregular
  obtain ⟨hdvd, -⟩ := not_or.mp hregular
  have hzero : (words - words % capacity) % capacity = 0 := Nat.sub_mod_eq_zero_of_mod_eq (Nat.mod_mod _ _).symm
  refine ⟨hwords, words % capacity, ?_, Nat.pos_of_ne_zero fun hzero => hdvd (Nat.dvd_of_mod_eq_zero hzero),
    Nat.mod_lt _ hcapacity, Nat.mod_le _ _, ?_⟩
  · rw [gap, if_neg hregular, hwords]
  · rw [hzero, cell_word, Nat.mod_self, Nat.zero_mod]

/-- In a full queue the cell of the next position has an item, which is `gap` positions older. -/
theorem Represents.found (h : Represents capacity q f) (hfull : f.items.length = capacity)
    (hcapacity : 1 ≤ capacity) : 1 ≤ gap capacity f.enqueued ∧ gap capacity f.enqueued ≤ capacity ∧
      gap capacity f.enqueued ≤ f.enqueued ∧
      q.sequence (cell capacity q.enqueuePos) = word (f.enqueued - gap capacity f.enqueued + 1) := by
  have hcount := h.count
  by_cases hregular : Regular capacity f.enqueued
  · have hback : f.enqueued - capacity = f.dequeued := by omega
    rw [gap, if_pos hregular, h.enqueuePos, hregular.cell, hback]
    refine ⟨hcapacity, Nat.le_refl _, by omega, ?_⟩
    rw [← h.sequence_stored (Nat.le_refl _) (by omega), hcount, hfull, Nat.add_mod_right]
  · obtain ⟨hwords, r, hgap, hpos, hmod, hle, hcell⟩ := h.restart hregular hcapacity
    rw [hgap, h.enqueuePos, hwords, hcell]
    exact ⟨hpos, Nat.le_of_lt hmod, hle, h.sequence_stored (by omega) (by omega)⟩

/-! ## The calls -/

/-- **A call of `enqueue` while there is room**. -/
theorem Represents.enqueues (h : Represents capacity q f) (hroom : f.items.length ≠ capacity)
    (hregular : Regular capacity f.enqueued) (hfuel : failures < fuel) (item : T) :
    ∃ q', enqueue capacity fuel failures q item = some (q', true) ∧
      Represents capacity q' { f with items := f.items ++ [item], enqueued := f.enqueued + 1 } := by
  have hcount := h.count
  have hlt : f.items.length < capacity := Nat.lt_of_le_of_ne h.room hroom
  have hcell : cell capacity q.enqueuePos = f.enqueued % capacity := by rw [h.enqueuePos, hregular.cell]
  have hempty : difference (q.sequence (cell capacity q.enqueuePos)) q.enqueuePos = some 0 := by
    rw [hcell, h.free _ (Nat.le_refl _) (by omega), h.enqueuePos, difference_self]
  refine ⟨q.put capacity q.enqueuePos item, enqueue_claims hempty hfuel item, ?_⟩
  -- the cells of the other positions in use are different ones
  have hother : ∀ k, f.dequeued ≤ k → k < f.dequeued + capacity → k ≠ f.enqueued →
      k % capacity ≠ f.enqueued % capacity := by
    intro k hk hk' hne hslot
    rcases Nat.le_total k f.enqueued with hle | hle
    · exact hne (RingBuffer.eq_of_slot_eq hle (by omega) hslot)
    · exact hne (RingBuffer.eq_of_slot_eq hle (by omega) hslot.symm).symm
  constructor
  · show q.enqueuePos + 1#64 = word (f.enqueued + 1)
    rw [h.enqueuePos, word_succ]
  · exact h.dequeuePos
  · show f.enqueued + 1 = f.dequeued + (f.items ++ [item]).length
    rw [List.length_append, List.length_singleton]
    omega
  · show (f.items ++ [item]).length ≤ capacity
    rw [List.length_append, List.length_singleton]
    omega
  · intro k hk
    rcases Nat.lt_succ_iff_lt_or_eq.mp hk with hk | rfl
    · exact h.regular k hk
    · exact hregular
  · intro k x hx
    have hx : (f.items ++ [item])[k]? = some x := hx
    show Function.update q.data (cell capacity q.enqueuePos) item ((f.dequeued + k) % capacity) = x ∧
      Function.update q.sequence (cell capacity q.enqueuePos) (q.enqueuePos + 1#64) ((f.dequeued + k) % capacity) =
        word (f.dequeued + k + 1)
    by_cases hk : k < f.items.length
    · rw [List.getElem?_append_left hk] at hx
      rw [hcell, Function.update_of_ne (hother _ (by omega) (by omega) (by omega)),
        Function.update_of_ne (hother _ (by omega) (by omega) (by omega))]
      exact h.stored k x hx
    · -- the new item
      have hlast : k = f.items.length := by
        have hbound := (List.getElem?_eq_some_iff.mp hx).1
        rw [List.length_append, List.length_singleton] at hbound
        omega
      rw [hlast, List.getElem?_concat_length] at hx
      rw [hlast, ← hcount, hcell, Function.update_self, Function.update_self, h.enqueuePos, word_succ]
      exact ⟨Option.some.inj hx, rfl⟩
  · intro k hk hk'
    have hk : f.enqueued + 1 ≤ k := hk
    have hk' : k < f.dequeued + capacity := hk'
    show Function.update q.sequence (cell capacity q.enqueuePos) (q.enqueuePos + 1#64) (k % capacity) = word k
    rw [hcell, Function.update_of_ne (hother k (by omega) hk' (by omega))]
    exact h.free k (by omega) hk'

/-- **A call of `enqueue` on a full queue**. -/
theorem Represents.enqueue_full (h : Represents capacity q f) (hfull : f.items.length = capacity)
    (hcapacity : 1 ≤ capacity) (hlt : capacity < half) (hgap : 2 ≤ gap capacity f.enqueued)
    (hhalf : SameHalf (f.enqueued - gap capacity f.enqueued + 1) f.enqueued) (hfuel : failures < fuel) (item : T) :
    enqueue capacity fuel failures q item = some (q, false) := by
  obtain ⟨-, hle, hback, hsequence⟩ := h.found hfull hcapacity
  have hposition : f.enqueued - gap capacity f.enqueued + 1 + (gap capacity f.enqueued - 1) = f.enqueued := by omega
  have hdiff : difference (q.sequence (cell capacity q.enqueuePos)) q.enqueuePos =
      some (-((gap capacity f.enqueued - 1 : Nat) : Int)) := by
    have hhalf' : SameHalf (f.enqueued - gap capacity f.enqueued + 1)
        (f.enqueued - gap capacity f.enqueued + 1 + (gap capacity f.enqueued - 1)) := by rwa [hposition]
    have hbehind := difference_behind (by omega) hhalf'
    rwa [hposition, ← hsequence, ← h.enqueuePos] at hbehind
  have hloop := enqueueLoop_full (by omega) hdiff hfuel
  simp only [enqueue, hloop, bind, Option.bind_some, pure]

/-- **A call of `dequeue` while there are items**. -/
theorem Represents.dequeues {x : T} {items : List T} (h : Represents capacity q f) (hitems : f.items = x :: items)
    (hfuel : failures < fuel) :
    ∃ q', dequeue capacity fuel failures q = some (q', some x) ∧
      Represents capacity q' { f with items, dequeued := f.dequeued + 1 } := by
  have hcount := h.count
  rw [hitems, List.length_cons] at hcount
  have hroom := h.room
  rw [hitems, List.length_cons] at hroom
  have hcell : cell capacity q.dequeuePos = f.dequeued % capacity := by
    rw [h.dequeuePos, (h.regular f.dequeued (by omega)).cell]
  obtain ⟨hdata, hsequence⟩ := h.stored 0 x (by rw [hitems]; rfl)
  rw [Nat.add_zero] at hdata hsequence
  have hready : difference (q.sequence (cell capacity q.dequeuePos)) (q.dequeuePos + 1#64) = some 0 := by
    rw [hcell, hsequence, h.dequeuePos, word_succ, difference_self]
  refine ⟨q.take capacity q.dequeuePos, by rw [dequeue_claims hready hfuel, hcell, hdata], ?_⟩
  have hother : ∀ k, f.dequeued < k → k < f.dequeued + capacity → k % capacity ≠ f.dequeued % capacity :=
    fun k hk hk' hslot => absurd (RingBuffer.eq_of_slot_eq (Nat.le_of_lt hk) hk' hslot.symm) (by omega)
  constructor
  · exact h.enqueuePos
  · show q.dequeuePos + 1#64 = word (f.dequeued + 1)
    rw [h.dequeuePos, word_succ]
  · show f.enqueued = f.dequeued + 1 + items.length
    omega
  · show items.length ≤ capacity
    omega
  · exact h.regular
  · intro k y hy
    have hy : items[k]? = some y := hy
    have hk := (List.getElem?_eq_some_iff.mp hy).1
    obtain ⟨hdata, hsequence⟩ := h.stored (k + 1) y (by rw [hitems, List.getElem?_cons_succ, hy])
    have hswap : f.dequeued + 1 + k = f.dequeued + (k + 1) := by omega
    show q.data ((f.dequeued + 1 + k) % capacity) = y ∧
      Function.update q.sequence (cell capacity q.dequeuePos) (q.dequeuePos + word capacity)
        ((f.dequeued + 1 + k) % capacity) = word (f.dequeued + 1 + k + 1)
    rw [hcell, hswap, Function.update_of_ne (hother _ (by omega) (by omega))]
    exact ⟨hdata, hsequence⟩
  · intro k hk hk'
    have hk : f.enqueued ≤ k := hk
    have hk' : k < f.dequeued + 1 + capacity := hk'
    show Function.update q.sequence (cell capacity q.dequeuePos) (q.dequeuePos + word capacity) (k % capacity) = word k
    rw [hcell]
    by_cases hround : k = f.dequeued + capacity
    · -- the cell is ready for the next round
      rw [hround, Nat.add_mod_right, Function.update_self, h.dequeuePos, word_add]
    · rw [Function.update_of_ne (hother k (by omega) (by omega))]
      exact h.free k hk (by omega)

/-- **A call of `dequeue` on an empty queue**. -/
theorem Represents.dequeue_empty (h : Represents capacity q f) (hitems : f.items = []) (hcapacity : 1 ≤ capacity)
    (hregular : Regular capacity f.dequeued) (hhalf : SameHalf f.dequeued (f.dequeued + 1))
    (hfuel : failures < fuel) : dequeue capacity fuel failures q = some (q, none) := by
  have hcount := h.count
  rw [hitems, List.length_nil] at hcount
  have hdiff : difference (q.sequence (cell capacity q.dequeuePos)) (q.dequeuePos + 1#64) =
      some (-((1 : Nat) : Int)) := by
    rw [h.dequeuePos, hregular.cell, h.free _ (by omega) (by omega), word_succ]
    exact difference_behind (by simp [half]) hhalf
  have hloop := dequeueLoop_empty (by omega) hdiff hfuel
  simp only [dequeue, hloop, bind, Option.bind_some, pure]

/-! ## The calls that are not sound -/

theorem exec_enqueue_iff {q' : Queue T} {item : T} {done : Bool} :
    exec capacity q (.enqueue item failures fuel) = some (q', .enqueued done) ↔
      enqueue capacity fuel failures q item = some (q', done) := by
  simp [exec]

theorem exec_dequeue_iff {q' : Queue T} {item : Option T} :
    exec capacity q (.dequeue failures fuel) = some (q', .dequeued item) ↔
      dequeue capacity fuel failures q = some (q', item) := by
  simp [exec]

/-- The call answers as the bounded queue does, and the cells hold what it holds. -/
def Kept (capacity : Nat) (q : Queue T) (f : Fifo T) (call : Call T) : Prop :=
  ∃ q', exec capacity q call = some (q', (f.answer capacity call).2) ∧
    Represents capacity q' (f.answer capacity call).1

/-- On a full queue the item replaces the oldest one, or the difference overflows. -/
theorem Represents.enqueue_unsound (h : Represents capacity q f) (hfull : f.items.length = capacity)
    (hcapacity : 1 ≤ capacity) (hlt : capacity < half)
    (hunsound : ¬ (2 ≤ gap capacity f.enqueued ∧
      SameHalf (f.enqueued - gap capacity f.enqueued + 1) f.enqueued))
    (hfuel : failures < fuel) (item : T) (q' : Queue T) :
    enqueue capacity fuel failures q item ≠ some (q', false) := by
  obtain ⟨hpos, hle, hback, hsequence⟩ := h.found hfull hcapacity
  by_cases hgap : gap capacity f.enqueued = 1
  · have hzero : difference (q.sequence (cell capacity q.enqueuePos)) q.enqueuePos = some 0 := by
      rw [hsequence, hgap, h.enqueuePos, show f.enqueued - 1 + 1 = f.enqueued by omega, difference_self]
    rw [enqueue_claims hzero hfuel]
    simp
  · have hposition : f.enqueued - gap capacity f.enqueued + 1 + (gap capacity f.enqueued - 1) = f.enqueued := by omega
    have hhalf : ¬ SameHalf (f.enqueued - gap capacity f.enqueued + 1)
        (f.enqueued - gap capacity f.enqueued + 1 + (gap capacity f.enqueued - 1)) := by
      rw [hposition]
      exact fun hsame => hunsound ⟨by omega, hsame⟩
    have hoverflows := difference_overflows (by omega) hhalf
    rw [hposition, ← hsequence, ← h.enqueuePos] at hoverflows
    simp [enqueue, enqueueLoop_overflows hoverflows]

theorem word_words_ne : word words ≠ word (words + 1) := by decide

/-- Where the words start again, the item is put over another one, or the call returns false or not at all. -/
theorem Represents.enqueue_restart (h : Represents capacity q f) (hroom : f.items.length ≠ capacity)
    (hcapacity : 1 ≤ capacity) (hlt : capacity < half) (hregular : ¬ Regular capacity f.enqueued)
    (hfuel : failures < fuel) (item : T) : ¬ Kept capacity q f (.enqueue item failures fuel) := by
  have hcount := h.count
  have hlength := h.room
  obtain ⟨hwords, r, -, hpos, hmod, hle, hcell⟩ := h.restart hregular hcapacity
  have hat : q.enqueuePos = word words := by rw [h.enqueuePos, hwords]
  rw [← hat] at hcell
  have hanswer : f.answer capacity (.enqueue item failures fuel) =
      ({ f with items := f.items ++ [item], enqueued := f.enqueued + 1 }, .enqueued true) := if_neg hroom
  rintro ⟨q', hexec, hrepresents⟩
  rw [hanswer] at hexec hrepresents
  have hcall := exec_enqueue_iff.mp hexec
  by_cases hstored : f.dequeued ≤ words - r
  · have hsequence := h.sequence_stored hstored (by omega)
    rw [← hcell] at hsequence
    have hposition : words - r + 1 + (r - 1) = words := by omega
    by_cases hhalf : SameHalf (words - r + 1) (words - r + 1 + (r - 1))
    · have hbehind := difference_behind (by omega) hhalf
      rw [hposition, ← hsequence, ← hat] at hbehind
      by_cases hone : r = 1
      · subst hone
        rw [enqueue_claims hbehind hfuel] at hcall
        obtain ⟨rfl, -⟩ := Prod.mk.inj (Option.some.inj hcall)
        -- the sequence number of the item that was there is gone
        have hold := hrepresents.sequence_stored hstored (by show _ < f.enqueued + 1; omega)
        have hnew : (q.put capacity q.enqueuePos item).sequence (cell capacity q.enqueuePos) = word (words + 1) := by
          show Function.update q.sequence (cell capacity q.enqueuePos) (q.enqueuePos + 1#64) _ = _
          rw [Function.update_self, hat, word_succ]
        rw [← hcell, hnew] at hold
        exact word_words_ne hold.symm
      · simp [enqueue, enqueueLoop_full (by omega) hbehind hfuel] at hcall
    · have hoverflows := difference_overflows (by omega) hhalf
      rw [hposition, ← hsequence, ← hat] at hoverflows
      simp [enqueue, enqueueLoop_overflows hoverflows] at hcall
  · -- the cell waits for a position that is ahead
    have hsequence := h.free (words - r + capacity) (by omega) (by omega)
    rw [Nat.add_mod_right, ← hcell, show words - r + capacity = words + (capacity - r) by omega] at hsequence
    have hahead := difference_restart (m := capacity - r) (n := 0) (by omega) (by omega)
    rw [← hsequence, Nat.add_zero, ← hat] at hahead
    simp [enqueue, enqueueLoop_stuck (by omega) hahead] at hcall

/-- On an empty queue the difference overflows, or the first cell is taken or waited for in vain. -/
theorem Represents.dequeue_unsound (h : Represents capacity q f) (hitems : f.items = []) (hcapacity : 1 ≤ capacity)
    (hlt : capacity < half)
    (hunsound : ¬ (Regular capacity f.dequeued ∧ SameHalf f.dequeued (f.dequeued + 1))) (hfuel : failures < fuel)
    (q' : Queue T) : dequeue capacity fuel failures q ≠ some (q', none) := by
  have hcount := h.count
  rw [hitems, List.length_nil, Nat.add_zero] at hcount
  by_cases hregular : Regular capacity f.dequeued
  · have hoverflows : difference (q.sequence (cell capacity q.dequeuePos)) (q.dequeuePos + 1#64) = none := by
      rw [h.dequeuePos, hregular.cell, h.free _ (by omega) (by omega), word_succ]
      exact difference_overflows (by simp [half]) fun hhalf => hunsound ⟨hregular, hhalf⟩
    simp [dequeue, dequeueLoop_overflows hoverflows]
  · rw [← hcount] at hregular
    obtain ⟨hwords, r, -, hpos, hmod, hle, hcell⟩ := h.restart hregular hcapacity
    have hat : q.dequeuePos = word words := by rw [h.dequeuePos, ← hcount, hwords]
    rw [← hat] at hcell
    have hsequence := h.free (words - r + capacity) (by omega) (by omega)
    rw [Nat.add_mod_right, ← hcell, show words - r + capacity = words + (capacity - r) by omega] at hsequence
    have hahead := difference_restart (m := capacity - r) (n := 1) (by omega) (by simp [half])
    rw [← hsequence, ← word_succ, ← hat] at hahead
    by_cases hone : capacity - r = 1
    · -- an item that is gone is taken
      rw [hone] at hahead
      simp [dequeue_claims hahead hfuel]
    · simp [dequeue, dequeueLoop_stuck (by omega) hahead]

/-! ## The main result -/

/-- A call of `enqueue`, on a full queue and on one with room. -/
theorem Represents.kept_enqueue_iff {item : T} (h : Represents capacity q f) (hcapacity : 1 ≤ capacity)
    (hlt : capacity < half) (hfuel : failures < fuel) :
    Kept capacity q f (.enqueue item failures fuel) ↔ Sound capacity f (.enqueue item failures fuel) := by
  by_cases hfull : f.items.length = capacity
  · have hanswer : f.answer capacity (.enqueue item failures fuel) = (f, .enqueued false) := if_pos hfull
    unfold Kept Sound
    rw [hanswer, if_pos hfull]
    constructor
    · rintro ⟨q', hexec, -⟩
      by_contra hunsound
      exact h.enqueue_unsound hfull hcapacity hlt hunsound hfuel item q' (exec_enqueue_iff.mp hexec)
    · rintro ⟨hgap, hhalf⟩
      exact ⟨q, exec_enqueue_iff.mpr (h.enqueue_full hfull hcapacity hlt hgap hhalf hfuel item), h⟩
  · have hanswer : f.answer capacity (.enqueue item failures fuel) =
        ({ f with items := f.items ++ [item], enqueued := f.enqueued + 1 }, .enqueued true) := if_neg hfull
    have hsound : Sound capacity f (.enqueue item failures fuel) ↔ Regular capacity f.enqueued := by
      unfold Sound
      rw [if_neg hfull]
    rw [hsound]
    constructor
    · intro hkept
      by_contra hregular
      exact h.enqueue_restart hfull hcapacity hlt hregular hfuel item hkept
    · intro hregular
      obtain ⟨q', hcall, hrepresents⟩ := h.enqueues hfull hregular hfuel item
      unfold Kept
      rw [hanswer]
      exact ⟨q', exec_enqueue_iff.mpr hcall, hrepresents⟩

/-- A call of `dequeue`, on an empty queue and on one with items. -/
theorem Represents.kept_dequeue_iff (h : Represents capacity q f) (hcapacity : 1 ≤ capacity)
    (hlt : capacity < half) (hfuel : failures < fuel) :
    Kept capacity q f (.dequeue failures fuel) ↔ Sound capacity f (.dequeue failures fuel : Call T) := by
  cases hitems : f.items with
  | nil =>
      have hanswer : f.answer capacity (.dequeue failures fuel) = (f, .dequeued none) := by
        unfold Fifo.answer
        rw [hitems]
      unfold Kept Sound
      rw [hanswer, if_pos hitems]
      constructor
      · rintro ⟨q', hexec, -⟩
        by_contra hunsound
        exact h.dequeue_unsound hitems hcapacity hlt hunsound hfuel q' (exec_dequeue_iff.mp hexec)
      · rintro ⟨hregular, hhalf⟩
        exact ⟨q, exec_dequeue_iff.mpr (h.dequeue_empty hitems hcapacity hregular hhalf hfuel), h⟩
  | cons x items =>
      have hanswer : f.answer capacity (.dequeue failures fuel) =
          ({ f with items, dequeued := f.dequeued + 1 }, .dequeued (some x)) := by
        unfold Fifo.answer
        rw [hitems]
      have hsound : Sound capacity f (.dequeue failures fuel) := by
        show if f.items = [] then _ else True
        rw [if_neg (by simp [hitems])]
        trivial
      obtain ⟨q', hcall, hrepresents⟩ := h.dequeues hitems hfuel
      unfold Kept
      rw [hanswer]
      exact iff_of_true ⟨q', exec_dequeue_iff.mpr hcall, hrepresents⟩ hsound

/-- **A call keeps to the bounded queue if and only if it is sound.** -/
theorem Represents.kept_iff {call : Call T} (h : Represents capacity q f) (hcapacity : 1 ≤ capacity)
    (hlt : capacity < half) (hfueled : call.Fueled) : Kept capacity q f call ↔ Sound capacity f call := by
  cases call with
  | enqueue item failures fuel => exact h.kept_enqueue_iff hcapacity hlt hfueled
  | dequeue failures fuel => exact h.kept_dequeue_iff hcapacity hlt hfueled

/-- With two cells or more, all calls are sound until the positions come near the overflow. -/
theorem sound_of_few (hcapacity : 2 ≤ capacity) (horder : f.dequeued ≤ f.enqueued) (hfew : f.enqueued + 1 < half)
    (call : Call T) : Sound capacity f call := by
  have hregular : ∀ p, p + 1 < half → Regular capacity p := by
    intro p hp
    simp only [half] at hp
    exact Or.inr (by simp only [words]; omega)
  have hsame : ∀ p r, p < half → r < half → SameHalf p r := by
    intro p r hp hr
    simp only [SameHalf, words, half] at hp hr ⊢
    omega
  cases call with
  | enqueue item failures fuel =>
      show if f.items.length = capacity then _ else Regular capacity f.enqueued
      split
      · rw [gap, if_pos (hregular _ hfew)]
        exact ⟨hcapacity, hsame _ _ (by omega) (by omega)⟩
      · exact hregular _ hfew
  | dequeue failures fuel =>
      show if f.items = [] then _ else True
      split
      · exact ⟨hregular _ (by omega), hsame _ _ (by omega) (by omega)⟩
      · trivial

/-- The calls that are sound, with fuel. -/
def Allowed (capacity : Nat) (_ : Queue T) (f : Fifo T) (call : Call T) : Prop := call.Fueled ∧ Sound capacity f call

/-- **One thread has a bounded queue** as long as its calls are sound: each call returns, with the answer of the
bounded queue. The next call keeps to that if and only if it is sound too. -/
theorem refines_fifo (hcapacity : 1 ≤ capacity) (hlt : capacity < half) :
    Refines (component T capacity) (fifo T capacity) (Allowed capacity) ∧
      ∀ s, (sideBySide (component T capacity) (fifo T capacity) (Allowed capacity)).Reachable System.Any s →
        ∀ call : Call T, call.Fueled → (Kept capacity s.1 s.2 call ↔ Sound capacity s.2 call) := by
  have hinit : ∀ q, (component T capacity).init q → Represents capacity q (fifo T capacity).init := by
    rintro q ⟨data, rfl⟩
    exact represents_create data
  have hstep : ∀ q f call, Represents capacity q f → Allowed capacity q f call →
      ∃ q', (component T capacity).exec q call = some (q', ((fifo T capacity).answer f call).2) ∧
        Represents capacity q' ((fifo T capacity).answer f call).1 := by
    rintro q f call h ⟨hfueled, hsound⟩
    exact (h.kept_iff hcapacity hlt hfueled).mpr hsound
  refine ⟨refines_of_simulation hinit hstep, fun s hs call hfueled => ?_⟩
  exact (keeps_of_simulation hinit hstep hs).kept_iff hcapacity hlt hfueled

/-- Two cells, and two items after 2^61 items went in and out. -/
theorem two_cells_sample : Refines (component Nat 2) (fifo Nat 2) (Allowed 2) ∧
    Sound 2 (⟨[7, 8], 2305843009213693954, 2305843009213693952⟩ : Fifo Nat) (.enqueue 9 0 1) :=
  ⟨(refines_fifo (by decide) (by decide)).1, sound_of_few (by decide) (by decide) (by decide) _⟩

/-- **One cell is not a bounded queue**: the second item replaces the first. -/
theorem one_cell : ¬ Refines (component Nat 1) (fifo Nat 1) fun _ _ call => call.Fueled := by
  intro hrefines
  have hnew : Represents 1 (create fun _ => 0) (⟨[], 0, 0⟩ : Fifo Nat) := represents_create _
  have hfuel : 0 < 1 := Nat.one_pos
  obtain ⟨q, hfirst, hone⟩ := hnew.enqueues (by decide) (by decide) hfuel 7
  have hexec : (component Nat 1).exec (create fun _ => 0) (.enqueue 7 0 1) = some (q, .enqueued true) := by
    simp [component, exec, hfirst]
  have hrun : (sideBySide (component Nat 1) (fifo Nat 1) fun _ _ call => call.Fueled).Reachable System.Any
      (q, ⟨[7], 1, 0⟩) :=
    .step (a := .enqueue 7 0 1) (.init (s := (create fun _ => 0, ⟨[], 0, 0⟩)) ⟨⟨_, rfl⟩, rfl⟩) trivial
      ⟨hfuel, ⟨.enqueued true, hexec⟩, rfl⟩
  obtain ⟨q', hexec'⟩ := hrefines _ hrun (.enqueue 8 0 1) hfuel
  obtain ⟨⟨q'', done⟩, hcall, hresult⟩ := Option.map_eq_some_iff.mp hexec'
  obtain rfl : done = false := Answer.enqueued.inj (Prod.mk.inj hresult).2
  exact hone.enqueue_unsound rfl (by decide) (by decide) (by decide) hfuel 8 q'' hcall

end Workbench.Mpmc.Sequential
