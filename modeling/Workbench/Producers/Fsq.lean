import Mathlib.Logic.Function.Basic
import Workbench.Lib.RingBuffer

/-!
# `Producers.Fsq` — the queue of `ex3_2.c` and `ex4.c`

Both programs have the same queue of a fixed size, and threads that put one number into it or take one out. What keeps
the threads apart is different. An index is moved in one step, and the array is accessed in another.

## Main results
* `Slots` — what is enqueued and not dequeued is in the slots behind `read`, in order;
* `Slots.moveWrite`, `Slots.store`, `Slots.moveRead`, `Slots.load` — each step keeps it, if there is room or an item.
-/

namespace Workbench.Producers

structure Fsq where
  arr : List Int32
  capacity : Nat
  write : Nat
  read : Nat
  deriving Repr, DecidableEq

def fsqCreat (size : Nat) : Fsq := ⟨List.replicate size 0, size, 0, 0⟩

namespace Fsq

/-- The first step of `FsqEnq`. -/
def moveWrite (fsq : Fsq) : Fsq := { fsq with write := (fsq.write + 1) % fsq.capacity }

/-- The second step of `FsqEnq`. -/
def store (fsq : Fsq) (data : Int32) : Option Fsq :=
  if fsq.write < fsq.arr.length then some { fsq with arr := fsq.arr.set fsq.write data } else none

/-- The first step of `FsqDeq`. -/
def moveRead (fsq : Fsq) : Fsq := { fsq with read := (fsq.read + 1) % fsq.capacity }

/-- The second step of `FsqDeq`. -/
def load (fsq : Fsq) : Option Int32 := fsq.arr[fsq.read]?

end Fsq

/-- **The slots**: what is enqueued and not dequeued is behind `read`, in order. A slot is unread if it has an item that
    is not dequeued, by its number. `storing` and `loading` are 1 when an index is moved and the array is not accessed
    yet. -/
structure Slots (M : Nat) (fsq : Fsq) (enqueued dequeued : List Int32) (unread : Nat → Option Nat)
    (storing loading : Nat) : Prop where
  capacity : fsq.capacity = M
  length : fsq.arr.length = M
  write : fsq.write = (enqueued.length + storing) % M
  read : fsq.read = (dequeued.length + loading) % M
  values : ∀ j data, dequeued.length ≤ j → enqueued[j]? = some data → fsq.arr[(j + 1) % M]? = some data
  full : ∀ j, dequeued.length ≤ j → j < enqueued.length → unread ((j + 1) % M) = some j
  empty : ∀ j, enqueued.length ≤ j → j < dequeued.length + M → unread ((j + 1) % M) = none
  fifo : dequeued <+: enqueued

namespace Slots

variable {M : Nat} {fsq fsq' : Fsq} {enqueued dequeued : List Int32} {unread : Nat → Option Nat}
  {storing loading : Nat}

theorem created (M : Nat) : Slots M (fsqCreat M) [] [] (fun _ => none) 0 0 where
  capacity := rfl
  length := List.length_replicate
  write := (Nat.zero_mod M).symm
  read := (Nat.zero_mod M).symm
  values j data _ hdata := by simp at hdata
  full j _ hj := absurd hj (Nat.not_lt_zero j)
  empty _ _ _ := rfl
  fifo := List.nil_prefix

theorem moveWrite (h : Slots M fsq enqueued dequeued unread storing loading) :
    Slots M fsq.moveWrite enqueued dequeued unread (storing + 1) loading :=
  { h with
    write := by
      show (fsq.write + 1) % fsq.capacity = _
      rw [h.write, h.capacity, RingBuffer.slot_succ, Nat.add_assoc] }

theorem moveRead (h : Slots M fsq enqueued dequeued unread storing loading) :
    Slots M fsq.moveRead enqueued dequeued unread storing (loading + 1) :=
  { h with
    read := by
      show (fsq.read + 1) % fsq.capacity = _
      rw [h.read, h.capacity, RingBuffer.slot_succ, Nat.add_assoc] }

/-- **A value is stored** in a slot that is read, or was never written. -/
theorem store (h : Slots M fsq enqueued dequeued unread 1 loading) (data : Int32)
    (hroom : enqueued.length < dequeued.length + M) :
    unread fsq.write = none ∧ ∃ fsq', fsq.store data = some fsq' ∧
      Slots M fsq' (enqueued ++ [data]) dequeued (Function.update unread fsq.write (some enqueued.length)) 0
        loading := by
  have hle := h.fifo.length_le
  have hwrite := h.write
  refine ⟨by rw [hwrite]; exact h.empty _ (Nat.le_refl _) hroom, _, if_pos ?_, ?_⟩
  · rw [h.length, hwrite]
    exact Nat.mod_lt _ (by omega)
  -- the other positions of the window are in other slots
  have hne : ∀ j, dequeued.length ≤ j → j < dequeued.length + M → j ≠ enqueued.length → (j + 1) % M ≠ fsq.write := by
    intro j hj hlt hnew hslot
    rw [hwrite] at hslot
    rcases Nat.lt_or_ge j enqueued.length with hold | hold
    · have heq := RingBuffer.eq_of_slot_eq (by omega) (by omega) hslot
      omega
    · have heq := RingBuffer.eq_of_slot_eq (by omega) (by omega) hslot.symm
      omega
  refine { h with length := ?_, write := ?_, values := ?_, full := ?_, empty := ?_, fifo := ?_ }
  · rw [List.length_set]
    exact h.length
  · rw [List.length_append, List.length_singleton, Nat.add_zero]
    exact hwrite
  · intro j data' hj hdata'
    rcases Nat.lt_trichotomy j enqueued.length with hold | rfl | hnew
    · rw [List.getElem?_append_left hold] at hdata'
      rw [List.getElem?_set_ne (Ne.symm (hne j hj (by omega) (by omega)))]
      exact h.values j data' hj hdata'
    · rw [List.getElem?_concat_length] at hdata'
      obtain rfl := Option.some.inj hdata'
      rw [← hwrite, List.getElem?_set_self]
      rw [h.length, hwrite]
      exact Nat.mod_lt _ (by omega)
    · rw [List.getElem?_eq_none (by rw [List.length_append, List.length_singleton]; omega)] at hdata'
      cases hdata'
  · intro j hj hlt
    rw [List.length_append, List.length_singleton] at hlt
    by_cases hnew : j = enqueued.length
    · rw [hnew, ← hwrite, Function.update_self]
    · rw [Function.update_of_ne (hne j hj (by omega) hnew)]
      exact h.full j hj (by omega)
  · intro j hj hlt
    rw [List.length_append, List.length_singleton] at hj
    rw [Function.update_of_ne (hne j (by omega) hlt (by omega))]
    exact h.empty j (by omega) hlt
  · exact h.fifo.trans (List.prefix_append _ _)

/-- **A value is loaded** from a slot that is unread: the oldest one. -/
theorem load (h : Slots M fsq enqueued dequeued unread storing 1) (hitem : dequeued.length < enqueued.length)
    (hroom : enqueued.length ≤ dequeued.length + M) :
    unread fsq.read = some dequeued.length ∧ ∃ data, fsq.load = some data ∧
      Slots M fsq enqueued (dequeued ++ [data]) (Function.update unread fsq.read none) storing 0 := by
  have hread := h.read
  obtain ⟨data, hdata⟩ : ∃ data, enqueued[dequeued.length]? = some data := ⟨_, List.getElem?_eq_getElem hitem⟩
  refine ⟨by rw [hread]; exact h.full _ (Nat.le_refl _) hitem, data, ?_, ?_⟩
  · rw [Fsq.load, hread]
    exact h.values _ _ (Nat.le_refl _) hdata
  have hne : ∀ j, dequeued.length < j → j < dequeued.length + M → (j + 1) % M ≠ fsq.read := by
    intro j hj hlt hslot
    rw [hread] at hslot
    have heq := RingBuffer.eq_of_slot_eq (by omega) (by omega) hslot.symm
    omega
  refine { h with read := ?_, values := ?_, full := ?_, empty := ?_, fifo := ?_ }
  · rw [List.length_append, List.length_singleton, Nat.add_zero]
    exact hread
  · intro j data' hj hdata'
    rw [List.length_append, List.length_singleton] at hj
    exact h.values j data' (by omega) hdata'
  · intro j hj hlt
    rw [List.length_append, List.length_singleton] at hj
    rw [Function.update_of_ne (hne j (by omega) (by omega))]
    exact h.full j (by omega) hlt
  · intro j hj hlt
    rw [List.length_append, List.length_singleton] at hlt
    by_cases hround : j = dequeued.length + M
    · have hslot : (j + 1) % M = fsq.read := by
        rw [hread, hround, Nat.add_right_comm, RingBuffer.slot_round]
      rw [hslot, Function.update_self]
    · rw [Function.update_of_ne (hne j (by omega) (by omega))]
      exact h.empty j hj (by omega)
  · obtain ⟨rest, hrest⟩ := h.fifo
    rw [← hrest, List.getElem?_append_right (Nat.le_refl _), Nat.sub_self] at hdata
    obtain ⟨rest', rfl⟩ : ∃ rest', rest = data :: rest' := by
      cases rest with
      | nil => simp at hdata
      | cons x rest' => exact ⟨rest', by rw [Option.some.inj hdata]⟩
    exact ⟨rest', by rw [List.append_assoc, List.singleton_append, hrest]⟩

end Slots

end Workbench.Producers
