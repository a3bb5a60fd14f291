import Mathlib.Data.List.Basic
import Workbench.Lib.RingBuffer
import Workbench.Lib.System

/-!
# `Queue.Spsc` — `CircularQueue` with one producer and one consumer

The threads take steps in any order; a step is one atomic load, one access to the buffer or one atomic store. Each
side knows the index of the other side from an earlier moment only.

## Contents
* `State`, `Step` — the queue, where each thread is, and its steps;
* `Inv` — the indices are remainders of the numbers of items, and a side that has seen room or an item still has it;
* `spsc_safe` — what is dequeued is what was enqueued, in order; slots are not written while they hold an unread item
  and not read before they are written; a queue that is reported full or empty is so.
-/

namespace Workbench.Spsc

open RingBuffer

variable {T : Type}

/-! ## The threads -/

/-- Where the producer is in `enqueue(item)`. -/
inductive Producer (T : Type)
  | idle
  | called (item : T)
  /-- `t` is loaded. -/
  | haveTail (item : T) (t : Nat)
  /-- There is room: the slot `t` is written next. -/
  | haveRoom (item : T) (t : Nat)
  /-- The slot is written, the tail is stored next. -/
  | wrote (item : T) (t : Nat)

/-- Where the consumer is in `dequeue`. -/
inductive Consumer (T : Type)
  | idle
  | called
  /-- `h` is loaded. -/
  | haveHead (h : Nat)
  /-- There is an item: the slot `h` is read next. -/
  | haveItem (h : Nat)
  /-- The item is read, the head is stored next. -/
  | read (h : Nat) (item : T)

structure State (T : Type) where
  head : Nat
  tail : Nat
  buffer : Nat → T
  producer : Producer T
  consumer : Consumer T
  /-- The items of the calls of `enqueue` that returned true, in order. -/
  enqueued : List T
  /-- The items of the calls of `dequeue` that returned true, in order. -/
  dequeued : List T
  /-- The slots with an item that was written and has not been read. -/
  unread : Nat → Bool

def set {α : Type} (f : Nat → α) (j : Nat) (x : α) : Nat → α := fun i => if i = j then x else f i

@[simp] theorem set_self {α : Type} (f : Nat → α) (j : Nat) (x : α) : set f j x j = x := if_pos rfl

@[simp] theorem set_ne {α : Type} (f : Nat → α) {i j : Nat} (x : α) (h : i ≠ j) : set f j x i = f i := if_neg h

inductive Act (T : Type)
  | callEnqueue (item : T)
  | loadTail
  /-- The producer loads the head, and `enqueue` returns false. -/
  | full
  /-- The producer loads the head, and goes on. -/
  | room
  | write
  | storeTail
  | callDequeue
  | loadHead
  /-- The consumer loads the tail, and `dequeue` returns false. -/
  | empty
  /-- The consumer loads the tail, and goes on. -/
  | item
  | read
  | storeHead

/-- The steps of `enqueue` and `dequeue`. -/
inductive Step (C : Nat) : State T → Act T → State T → Prop
  | callEnqueue {s : State T} {x : T} : s.producer = .idle →
      Step C s (.callEnqueue x) { s with producer := .called x }
  | loadTail {s : State T} {x : T} : s.producer = .called x →
      Step C s .loadTail { s with producer := .haveTail x s.tail }
  | full {s : State T} {x : T} {t : Nat} : s.producer = .haveTail x t → (t + 1) % C = s.head →
      Step C s .full { s with producer := .idle }
  | room {s : State T} {x : T} {t : Nat} : s.producer = .haveTail x t → (t + 1) % C ≠ s.head →
      Step C s .room { s with producer := .haveRoom x t }
  | write {s : State T} {x : T} {t : Nat} : s.producer = .haveRoom x t →
      Step C s .write
        { s with producer := .wrote x t, buffer := set s.buffer t x, unread := set s.unread t true }
  | storeTail {s : State T} {x : T} {t : Nat} : s.producer = .wrote x t →
      Step C s .storeTail { s with producer := .idle, tail := (t + 1) % C, enqueued := s.enqueued ++ [x] }
  | callDequeue {s : State T} : s.consumer = .idle → Step C s .callDequeue { s with consumer := .called }
  | loadHead {s : State T} : s.consumer = .called →
      Step C s .loadHead { s with consumer := .haveHead s.head }
  | empty {s : State T} {h : Nat} : s.consumer = .haveHead h → h = s.tail →
      Step C s .empty { s with consumer := .idle }
  | item {s : State T} {h : Nat} : s.consumer = .haveHead h → h ≠ s.tail →
      Step C s .item { s with consumer := .haveItem h }
  | read {s : State T} {h : Nat} : s.consumer = .haveItem h →
      Step C s .read { s with consumer := .read h (s.buffer h), unread := set s.unread h false }
  | storeHead {s : State T} {h : Nat} {x : T} : s.consumer = .read h x →
      Step C s .storeHead { s with consumer := .idle, head := (h + 1) % C, dequeued := s.dequeued ++ [x] }

/-- The runs of a queue of `C` slots, whatever is in the buffer at first. -/
def system (T : Type) (C : Nat) : System (State T) (Act T) where
  init := fun s => ∃ buffer, s = ⟨0, 0, buffer, .idle, .idle, [], [], fun _ => false⟩
  step := Step C

/-! ## The invariant -/

/-- How many items are written and not yet counted as enqueued. -/
def Producer.ahead : Producer T → Nat
  | .wrote _ _ => 1
  | _ => 0

/-- How many items are read and not yet counted as dequeued. -/
def Consumer.ahead : Consumer T → Nat
  | .read _ _ => 1
  | _ => 0

/-- What the producer knows. -/
def ProducerOk (C : Nat) (s : State T) : Producer T → Prop
  | .idle => True
  | .called _ => True
  | .haveTail _ t => t = s.tail
  | .haveRoom _ t => t = s.tail ∧ s.enqueued.length + 1 < s.dequeued.length + C
  | .wrote x t => t = s.tail ∧ s.enqueued.length + 1 < s.dequeued.length + C ∧ s.buffer t = x

/-- What the consumer knows. -/
def ConsumerOk (s : State T) : Consumer T → Prop
  | .idle => True
  | .called => True
  | .haveHead h => h = s.head
  | .haveItem h => h = s.head ∧ s.dequeued.length < s.enqueued.length
  | .read h x => h = s.head ∧ s.enqueued[s.dequeued.length]? = some x

/-- The items that are enqueued and not dequeued, at most one slot less than there are, are in their slots. -/
structure Inv (C : Nat) (s : State T) : Prop where
  fifo : s.dequeued <+: s.enqueued
  bound : s.enqueued.length < s.dequeued.length + C
  tail : s.tail = s.enqueued.length % C
  head : s.head = s.dequeued.length % C
  slots : ∀ k, s.dequeued.length ≤ k → k < s.enqueued.length → s.enqueued[k]? = some (s.buffer (k % C))
  producer : ProducerOk C s s.producer
  consumer : ConsumerOk s s.consumer
  unread : ∀ j, s.unread j = true ↔ ∃ k, s.dequeued.length + s.consumer.ahead ≤ k ∧
    k < s.enqueued.length + s.producer.ahead ∧ k % C = j

variable {C : Nat} {s s' : State T}

theorem Inv.le (h : Inv C s) : s.dequeued.length ≤ s.enqueued.length := h.fifo.length_le

/-- The consumer has read an item that is there. -/
theorem Inv.ahead_le (h : Inv C s) : s.dequeued.length + s.consumer.ahead ≤ s.enqueued.length := by
  have hle := h.le
  have hconsumer := h.consumer
  cases hpc : s.consumer with
  | read i x =>
      rw [hpc] at hconsumer
      have hlt := (List.getElem?_eq_some_iff.mp hconsumer.2).1
      exact hlt
  | _ => exact hle

/-- The slot that is written next holds no unread item. -/
theorem Inv.write_free (h : Inv C s) {x : T} {t : Nat} (hpc : s.producer = .haveRoom x t) : s.unread t = false := by
  have hproducer := h.producer
  have hbound := h.bound
  rw [hpc] at hproducer
  rw [Bool.eq_false_iff]
  intro hunread
  -- an unread item in this slot would be less than a round behind the new one
  obtain ⟨k, hlow, hhigh, hslot⟩ := (h.unread t).mp hunread
  rw [hpc] at hhigh
  rw [hproducer.1, h.tail] at hslot
  have hlt : k < s.enqueued.length := hhigh
  have heq : k = s.enqueued.length := eq_of_slot_eq (by omega) (by omega) hslot
  omega

/-- The slot that is read next holds an unread item. -/
theorem Inv.read_unread (h : Inv C s) {i : Nat} (hpc : s.consumer = .haveItem i) : s.unread i = true := by
  have hconsumer := h.consumer
  rw [hpc] at hconsumer
  refine (h.unread i).mpr ⟨s.dequeued.length, ?_, ?_, ?_⟩
  · rw [hpc]
    exact Nat.le_refl _
  · have hlt := hconsumer.2
    omega
  · rw [hconsumer.1, h.head]

/-- **Full is full**: the producer sees the head one slot behind the tail only if the queue holds its maximum. -/
theorem Inv.full_iff (h : Inv C s) : (s.tail + 1) % C = s.head ↔ s.enqueued.length + 1 = s.dequeued.length + C := by
  have hle := h.le
  have hbound := h.bound
  rw [h.tail, h.head, slot_succ]
  constructor
  · intro hslot
    have hgap : s.dequeued.length + C ≤ s.enqueued.length + 1 := gap_of_slot_eq (by omega) hslot.symm
    omega
  · intro heq
    rw [heq, slot_round]

/-- **Empty is empty.** -/
theorem Inv.empty_iff (h : Inv C s) : s.head = s.tail ↔ s.dequeued.length = s.enqueued.length := by
  rw [h.tail, h.head]
  constructor
  · intro hslot
    exact eq_of_slot_eq h.le h.bound hslot
  · intro heq
    rw [heq]

theorem inv_init (hC : 1 ≤ C) (h : (system T C).init s) : Inv C s := by
  obtain ⟨buffer, rfl⟩ := h
  refine ⟨List.prefix_rfl, ?_, (Nat.zero_mod C).symm, (Nat.zero_mod C).symm, ?_, trivial, trivial, ?_⟩
  · show 0 < 0 + C
    omega
  · intro k _ hk
    cases hk
  · intro j
    constructor
    · intro hj
      cases hj
    · rintro ⟨k, -, hk, -⟩
      cases hk

/-! ## The steps -/

/-- The producer goes on without a change of anything else. -/
theorem Inv.setProducer (h : Inv C s) {p : Producer T} (hp : ProducerOk C s p)
    (hahead : p.ahead = s.producer.ahead) : Inv C { s with producer := p } where
  fifo := h.fifo
  bound := h.bound
  tail := h.tail
  head := h.head
  slots := h.slots
  producer := by
    cases p <;> exact hp
  consumer := by
    show ConsumerOk { s with producer := p } s.consumer
    have hconsumer := h.consumer
    cases hpc : s.consumer <;> rw [hpc] at hconsumer <;> exact hconsumer
  unread := by
    intro j
    show s.unread j = true ↔ ∃ k, _ ∧ k < s.enqueued.length + p.ahead ∧ _
    rw [hahead]
    exact h.unread j

/-- The consumer goes on without a change of anything else. -/
theorem Inv.setConsumer (h : Inv C s) {c : Consumer T} (hc : ConsumerOk s c)
    (hahead : c.ahead = s.consumer.ahead) : Inv C { s with consumer := c } where
  fifo := h.fifo
  bound := h.bound
  tail := h.tail
  head := h.head
  slots := h.slots
  producer := by
    show ProducerOk C { s with consumer := c } s.producer
    have hproducer := h.producer
    cases hpc : s.producer <;> rw [hpc] at hproducer <;> exact hproducer
  consumer := by
    cases c <;> exact hc
  unread := by
    intro j
    show s.unread j = true ↔ ∃ k, s.dequeued.length + c.ahead ≤ k ∧ _ ∧ _
    rw [hahead]
    exact h.unread j

theorem Inv.write (h : Inv C s) {x : T} {t : Nat} (hpc : s.producer = .haveRoom x t) :
    Inv C { s with producer := .wrote x t, buffer := set s.buffer t x, unread := set s.unread t true } := by
  have hproducer := h.producer
  have hahead := h.ahead_le
  have hle := h.le
  rw [hpc] at hproducer
  obtain ⟨rfl, hroom⟩ := hproducer
  have hold := h.unread
  rw [hpc] at hold
  refine ⟨h.fifo, h.bound, h.tail, h.head, ?_, ⟨rfl, hroom, set_self ..⟩, ?_, ?_⟩
  · -- the slots of the items are other slots
    intro k (hlow : s.dequeued.length ≤ k) (hhigh : k < s.enqueued.length)
    have hne : k % C ≠ s.tail := by
      rw [h.tail]
      intro hslot
      have heq : k = s.enqueued.length := eq_of_slot_eq (by omega) (by omega) hslot
      omega
    show s.enqueued[k]? = some (set s.buffer s.tail x (k % C))
    rw [set_ne _ _ hne]
    exact h.slots k hlow hhigh
  · -- the consumer knows nothing about the buffer
    show ConsumerOk _ s.consumer
    have hconsumer := h.consumer
    cases hcons : s.consumer <;> rw [hcons] at hconsumer <;> exact hconsumer
  · -- the slot that is written becomes unread, and no other does
    intro j
    show set s.unread s.tail true j = true ↔
      ∃ k, s.dequeued.length + s.consumer.ahead ≤ k ∧ k < s.enqueued.length + 1 ∧ k % C = j
    by_cases hj : j = s.tail
    · subst hj
      rw [set_self]
      exact ⟨fun _ => ⟨s.enqueued.length, hahead, Nat.lt_succ_self _, h.tail.symm⟩, fun _ => rfl⟩
    · rw [set_ne _ _ hj, hold j]
      constructor
      · rintro ⟨k, hlow, hhigh, hslot⟩
        exact ⟨k, hlow, Nat.lt_succ_of_lt hhigh, hslot⟩
      · rintro ⟨k, hlow, hhigh, hslot⟩
        refine ⟨k, hlow, ?_, hslot⟩
        have hne : k ≠ s.enqueued.length := by
          rintro rfl
          exact hj (hslot.symm.trans h.tail.symm)
        show k < s.enqueued.length
        omega

theorem Inv.storeTail (h : Inv C s) {x : T} {t : Nat} (hpc : s.producer = .wrote x t) :
    Inv C { s with producer := .idle, tail := (t + 1) % C, enqueued := s.enqueued ++ [x] } := by
  have hproducer := h.producer
  have hle := h.le
  rw [hpc] at hproducer
  obtain ⟨rfl, hroom, hbuffer⟩ := hproducer
  have hlen : (s.enqueued ++ [x]).length = s.enqueued.length + 1 := by simp
  have hold := h.unread
  rw [hpc] at hold
  refine ⟨h.fifo.trans (List.prefix_append _ _), ?_, ?_, h.head, ?_, trivial, ?_, ?_⟩
  · show (s.enqueued ++ [x]).length < s.dequeued.length + C
    rw [hlen]
    exact hroom
  · show (s.tail + 1) % C = (s.enqueued ++ [x]).length % C
    rw [hlen, h.tail, slot_succ]
  · -- the new item is in the slot that was written before
    intro k hlow hhigh
    have hhigh : k < s.enqueued.length + 1 := hlen ▸ hhigh
    show (s.enqueued ++ [x])[k]? = some (s.buffer (k % C))
    by_cases hk : k = s.enqueued.length
    · rw [hk, List.getElem?_concat_length, ← h.tail, hbuffer]
    · rw [List.getElem?_append_left (by omega)]
      exact h.slots k hlow (by omega)
  · -- an item that the consumer has seen is still there
    show ConsumerOk _ s.consumer
    have hconsumer := h.consumer
    cases hcons : s.consumer with
    | idle => trivial
    | called => trivial
    | haveHead i =>
        rw [hcons] at hconsumer
        exact hconsumer
    | haveItem i =>
        rw [hcons] at hconsumer
        refine ⟨hconsumer.1, ?_⟩
        show s.dequeued.length < (s.enqueued ++ [x]).length
        rw [hlen]
        exact Nat.lt_succ_of_lt hconsumer.2
    | read i y =>
        rw [hcons] at hconsumer
        refine ⟨hconsumer.1, ?_⟩
        have hlt := (List.getElem?_eq_some_iff.mp hconsumer.2).1
        show (s.enqueued ++ [x])[s.dequeued.length]? = some y
        rw [List.getElem?_append_left hlt]
        exact hconsumer.2
  · -- the item was unread already, as one that is ahead
    intro j
    rw [show s.unread j = true ↔ _ from hold j]
    show _ ↔ ∃ k, _ ∧ k < (s.enqueued ++ [x]).length + 0 ∧ _
    rw [hlen]
    rfl

theorem Inv.read (h : Inv C s) {i : Nat} (hpc : s.consumer = .haveItem i) :
    Inv C { s with consumer := .read i (s.buffer i), unread := set s.unread i false } := by
  have hconsumer := h.consumer
  have hbound := h.bound
  rw [hpc] at hconsumer
  obtain ⟨rfl, hlt⟩ := hconsumer
  have hold := h.unread
  rw [hpc] at hold
  -- the producer may be ahead by one item, for which it has seen room
  have hroom : s.enqueued.length + s.producer.ahead < s.dequeued.length + C := by
    have hproducer := h.producer
    cases hprod : s.producer with
    | wrote x t =>
        rw [hprod] at hproducer
        exact hproducer.2.1
    | _ => exact hbound
  refine ⟨h.fifo, h.bound, h.tail, h.head, h.slots, ?_, ⟨rfl, ?_⟩, ?_⟩
  · show ProducerOk C _ s.producer
    have hproducer := h.producer
    cases hprod : s.producer <;> rw [hprod] at hproducer <;> exact hproducer
  · show s.enqueued[s.dequeued.length]? = some (s.buffer s.head)
    rw [h.head]
    exact h.slots _ (Nat.le_refl _) hlt
  · intro j
    show set s.unread s.head false j = true ↔
      ∃ k, s.dequeued.length + 1 ≤ k ∧ k < s.enqueued.length + s.producer.ahead ∧ k % C = j
    by_cases hj : j = s.head
    · -- the slot of the item that is read has no other item
      subst hj
      rw [set_self]
      constructor
      · intro hfalse
        cases hfalse
      · rintro ⟨k, hlow, hhigh, hslot⟩
        rw [h.head] at hslot
        have heq : s.dequeued.length = k := eq_of_slot_eq (by omega) (by omega) hslot.symm
        omega
    · rw [set_ne _ _ hj, hold j]
      constructor
      · rintro ⟨k, hlow, hhigh, hslot⟩
        have hlow : s.dequeued.length ≤ k := hlow
        refine ⟨k, ?_, hhigh, hslot⟩
        have hne : k ≠ s.dequeued.length := by
          rintro rfl
          exact hj (hslot.symm.trans h.head.symm)
        omega
      · rintro ⟨k, hlow, hhigh, hslot⟩
        exact ⟨k, Nat.le_of_succ_le hlow, hhigh, hslot⟩

theorem Inv.storeHead (h : Inv C s) {i : Nat} {x : T} (hpc : s.consumer = .read i x) :
    Inv C { s with consumer := .idle, head := (i + 1) % C, dequeued := s.dequeued ++ [x] } := by
  have hconsumer := h.consumer
  have hbound := h.bound
  rw [hpc] at hconsumer
  obtain ⟨rfl, hitem⟩ := hconsumer
  have hlt : s.dequeued.length < s.enqueued.length := (List.getElem?_eq_some_iff.mp hitem).1
  have hlen : (s.dequeued ++ [x]).length = s.dequeued.length + 1 := by simp
  have hold := h.unread
  rw [hpc] at hold
  refine ⟨?_, ?_, h.tail, ?_, ?_, ?_, trivial, ?_⟩
  · -- the item that was read is the next one of the enqueued items
    obtain ⟨rest, hrest⟩ := h.fifo
    have hfirst : rest[0]? = some x := by
      rw [← hrest, List.getElem?_append_right (Nat.le_refl _), Nat.sub_self] at hitem
      exact hitem
    cases rest with
    | nil => cases hfirst
    | cons y rest =>
        obtain rfl := Option.some.inj hfirst
        exact ⟨rest, by rw [← hrest, List.append_assoc]; rfl⟩
  · show s.enqueued.length < (s.dequeued ++ [x]).length + C
    omega
  · show (s.head + 1) % C = (s.dequeued ++ [x]).length % C
    rw [hlen, h.head, slot_succ]
  · intro k (hlow : (s.dequeued ++ [x]).length ≤ k) hhigh
    exact h.slots k (by omega) hhigh
  · -- the room that the producer has seen only grows
    show ProducerOk C _ s.producer
    have hproducer := h.producer
    cases hprod : s.producer with
    | idle => trivial
    | called y => trivial
    | haveTail y t =>
        rw [hprod] at hproducer
        exact hproducer
    | haveRoom y t =>
        rw [hprod] at hproducer
        refine ⟨hproducer.1, ?_⟩
        have hroom := hproducer.2
        show s.enqueued.length + 1 < (s.dequeued ++ [x]).length + C
        omega
    | wrote y t =>
        rw [hprod] at hproducer
        refine ⟨hproducer.1, ?_, hproducer.2.2⟩
        have hroom := hproducer.2.1
        show s.enqueued.length + 1 < (s.dequeued ++ [x]).length + C
        omega
  · -- the item was read already, as one that is ahead
    intro j
    rw [show s.unread j = true ↔ _ from hold j]
    show _ ↔ ∃ k, (s.dequeued ++ [x]).length + 0 ≤ k ∧ _ ∧ _
    rw [hlen]
    rfl

/-- **One step** keeps the invariant. -/
theorem inv_step {a : Act T} (h : Inv C s) (hstep : Step C s a s') : Inv C s' := by
  have hbound := h.bound
  have hle := h.le
  have hproducer := h.producer
  have hconsumer := h.consumer
  cases hstep with
  | callEnqueue hpc => exact h.setProducer trivial (by rw [hpc]; rfl)
  | loadTail hpc => exact h.setProducer rfl (by rw [hpc]; rfl)
  | full hpc _ => exact h.setProducer trivial (by rw [hpc]; rfl)
  -- the loaded head is the current one here, and the consumer only moves it on
  | room hpc hne =>
      rw [hpc] at hproducer
      obtain rfl := hproducer
      refine h.setProducer ⟨rfl, ?_⟩ (by rw [hpc]; rfl)
      have hnot : s.enqueued.length + 1 ≠ s.dequeued.length + C := fun heq => hne (h.full_iff.mpr heq)
      omega
  | write hpc => exact h.write hpc
  | storeTail hpc => exact h.storeTail hpc
  | callDequeue hpc => exact h.setConsumer trivial (by rw [hpc]; rfl)
  | loadHead hpc => exact h.setConsumer rfl (by rw [hpc]; rfl)
  | empty hpc _ => exact h.setConsumer trivial (by rw [hpc]; rfl)
  -- the same for the loaded tail
  | item hpc hne =>
      rw [hpc] at hconsumer
      obtain rfl := hconsumer
      refine h.setConsumer ⟨rfl, ?_⟩ (by rw [hpc]; rfl)
      have hnot : s.dequeued.length ≠ s.enqueued.length := fun heq => hne (h.empty_iff.mpr heq)
      omega
  | read hpc => exact h.read hpc
  | storeHead hpc => exact h.storeHead hpc

/-- **One producer and one consumer**, in every state of every interleaving of their steps. The items that are
    dequeued are the first items that are enqueued, in order. The slot that is written next holds no unread item, the
    one that is read next does; the indices are in the buffer. `enqueue` reports full only if the queue holds its
    maximum when the head is loaded, `dequeue` reports empty only if the queue holds nothing when the tail is
    loaded. -/
theorem spsc_safe (hC : 1 ≤ C) (h : (system T C).Reachable System.Any s) :
    s.dequeued <+: s.enqueued ∧
      (∀ x t, s.producer = .haveRoom x t → t < C ∧ s.unread t = false) ∧
      (∀ i, s.consumer = .haveItem i → i < C ∧ s.unread i = true) ∧
      (s.head < C ∧ s.tail < C) ∧
      (∀ s', Step C s .full s' → s.enqueued.length = s.dequeued.length + (C - 1)) ∧
      ∀ s', Step C s .empty s' → s.enqueued.length = s.dequeued.length := by
  have hinv : Inv C s := System.invariant (fun _ => inv_init hC) (fun _ _ _ hinv _ => inv_step hinv) h
  have hhead : s.head < C := by
    rw [hinv.head]
    exact Nat.mod_lt _ hC
  have htail : s.tail < C := by
    rw [hinv.tail]
    exact Nat.mod_lt _ hC
  have hproducer := hinv.producer
  have hconsumer := hinv.consumer
  refine ⟨hinv.fifo, ?_, ?_, ⟨hhead, htail⟩, ?_, ?_⟩
  · intro x t hpc
    rw [hpc] at hproducer
    refine ⟨?_, hinv.write_free hpc⟩
    rw [hproducer.1]
    exact htail
  · intro i hpc
    rw [hpc] at hconsumer
    refine ⟨?_, hinv.read_unread hpc⟩
    rw [hconsumer.1]
    exact hhead
  · intro s' hstep
    cases hstep with
    | full hpc hfull =>
        rw [hpc] at hproducer
        obtain rfl := hproducer
        have hmax := hinv.full_iff.mp hfull
        omega
  · intro s' hstep
    cases hstep with
    | empty hpc hempty =>
        rw [hpc] at hconsumer
        obtain rfl := hconsumer
        exact (hinv.empty_iff.mp hempty).symm

/-- A queue of two slots. -/
def sampleStart : State Nat := ⟨0, 0, fun _ => 0, .idle, .idle, [], [], fun _ => false⟩

/-- The producer has written an item. -/
def sampleWritten : State Nat :=
  { sampleStart with
    producer := .wrote 7 0, buffer := set sampleStart.buffer 0 7, unread := set sampleStart.unread 0 true }

theorem spsc_safe_sample : { sampleWritten with producer := .idle, tail := 1, enqueued := [7] }.dequeued <+: [7] := by
  have hinit : (system Nat 2).Reachable System.Any sampleStart := .init ⟨fun _ => 0, rfl⟩
  have hcall : Step 2 sampleStart (.callEnqueue 7) { sampleStart with producer := .called 7 } := .callEnqueue rfl
  have htail : Step 2 { sampleStart with producer := .called 7 } .loadTail
      { sampleStart with producer := .haveTail 7 0 } := .loadTail rfl
  have hroom : Step 2 { sampleStart with producer := .haveTail 7 0 } .room
      { sampleStart with producer := .haveRoom 7 0 } := .room rfl (by decide)
  have hwrite : Step 2 { sampleStart with producer := .haveRoom 7 0 } .write sampleWritten := .write rfl
  have hstore : Step 2 sampleWritten .storeTail { sampleWritten with producer := .idle, tail := 1, enqueued := [7] } :=
    .storeTail (x := 7) (t := 0) rfl
  exact (spsc_safe (by decide) (.step (.step (.step (.step (.step hinit trivial hcall) trivial htail) trivial hroom)
    trivial hwrite) trivial hstore)).1

end Workbench.Spsc
