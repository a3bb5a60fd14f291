import Workbench.Heap.Order
import Workbench.Heap.Remove
import Workbench.Lib.SearchTree
import Workbench.Linked.Pqueue

/-!
# `Heap.Interchange` — the two implementations of the priority queue

The queue on the sorted list and the queue on the heap get the same calls. They agree on everything but `PQErase`: the
heap removes the first element that does not match, never the last of its vector, and cannot be asked when it is empty.

## Main results
* `interchangeable_iff` — in which calls the two queues agree, in runs in which they have agreed so far.
-/

namespace Workbench.HeapQueue

open BinaryHeap

variable {α κ : Type}

/-! ## Calls to both -/

/-- The functions of `pqueue.h`. The address is what `malloc` returns to the list. -/
inductive Request (α κ : Type)
  | enpqueue (data : α) (address : Nat)
  | depqueue
  | peek
  | erase (isMatch : α → κ → Int) (dataToCompare : κ)

inductive Reply (α : Type)
  | status (failed : Int)
  | data (data : α)
  | erased (data : Option α)

/-- A call of a function of `pqueue.c`, and then of its `PQSize`. -/
def listCall (pqueue : DoublyLinked.PQueue α) : Request α κ → Option (DoublyLinked.PQueue α × Reply α × Nat)
  | .enpqueue data address => do
      let (pqueue, failed) ← DoublyLinked.pqEnpqueue pqueue data (some address)
      return (pqueue, .status failed, ← DoublyLinked.pqSize pqueue)
  | .depqueue => do
      let (pqueue, data) ← DoublyLinked.pqDepqueue pqueue
      return (pqueue, .data data, ← DoublyLinked.pqSize pqueue)
  | .peek => do
      let data ← DoublyLinked.pqPeek pqueue
      return (pqueue, .data data, ← DoublyLinked.pqSize pqueue)
  | .erase isMatch dataToCompare => do
      let (pqueue, data) ← DoublyLinked.pqErase pqueue isMatch dataToCompare
      return (pqueue, .erased data, ← DoublyLinked.pqSize pqueue)

/-- A call of a function of `heap_PQ.c`, and then of its `PQSize`. -/
def heapCall (pqueue : PQueue α) : Request α κ → Option (PQueue α × Reply α × Nat)
  | .enpqueue data _ => do
      let (pqueue, failed) ← pqEnpqueue pqueue data true
      return (pqueue, .status failed, ← pqSize pqueue)
  | .depqueue => do
      let (pqueue, data) ← pqDepqueue pqueue
      return (pqueue, .data data, ← pqSize pqueue)
  | .peek => do
      let data ← pqPeek pqueue
      return (pqueue, .data data, ← pqSize pqueue)
  | .erase isMatch dataToCompare => do
      let (pqueue, data) ← pqErase pqueue isMatch dataToCompare
      return (pqueue, .erased data, ← pqSize pqueue)

structure Both (α : Type) where
  list : DoublyLinked.PQueue α
  heap : PQueue α

/-- The elements of the queue, in the order of the vector. -/
def Both.stored (s : Both α) : List α := s.heap.queue.vector.elements

/-- What the header asks for, and that memory is found. -/
def Valid (s : Both α) : Request α κ → Prop
  | .enpqueue _ address => DoublyLinked.Unused s.list address
  | .depqueue => s.stored ≠ []
  | .peek => s.stored ≠ []
  | .erase isMatch dataToCompare => (∀ x, isMatch x dataToCompare = 0 ∨ isMatch x dataToCompare = 1) ∧
      (s.stored.filter (DoublyLinked.isFound isMatch dataToCompare)).length ≤ 1

/-- Both queues get the same calls. -/
def bothSystem (κ : Type) (order : StrictComparator α) : System (Both α) (Request α κ) where
  init s := s.list = DoublyLinked.pqCreate order.compare ∧ s.heap = pqCreate order.compare
  step s request s' := Valid s request ∧ ∃ replyList sizeList replyHeap sizeHeap,
    listCall s.list request = some (s'.list, replyList, sizeList) ∧
      heapCall s.heap request = some (s'.heap, replyHeap, sizeHeap)

/-- **The queues agree** on a call: both return, the same data and the same size. -/
def Agree (s : Both α) (request : Request α κ) : Prop :=
  ∃ list heap reply size, listCall s.list request = some (list, reply, size) ∧
    heapCall s.heap request = some (heap, reply, size)

/-- An element is erased only when there is one element and it does not match, and nothing is enqueued onto 2147483647
    elements. -/
def Allowed (s : Both α) : Request α κ → Prop
  | .enpqueue _ _ => s.stored.length ≠ 2147483647
  | .depqueue => True
  | .peek => True
  | .erase isMatch dataToCompare => ∃ x, s.stored = [x] ∧ isMatch x dataToCompare = 0

/-! ## The list and the heap -/

variable {order : StrictComparator α} {s s' : Both α} {request : Request α κ} {heap : Heap α} {xs ys : List α} {x y : α}

/-- Two elements that may both stand above the other are the same. -/
theorem above_antisymm (order : StrictComparator α) (hxy : Above order.toComparator x y)
    (hyx : Above order.toComparator y x) : x = y := by
  have hswap := order.swap x y
  unfold Above at hxy hyx
  exact order.eq_of_zero x y (by omega)

/-- The place of a new element is between those above it and those below it. -/
theorem insertSorted_pairwise (h : xs.Pairwise (Above order.toComparator)) (x : α) :
    (DoublyLinked.insertSorted order.compare x xs).Pairwise (Above order.toComparator) := by
  have hsplit := List.takeWhile_append_dropWhile (p := fun y => decide (0 ≤ order.compare y x)) (l := xs)
  refine SearchTree.pairwise_insert (by rwa [hsplit]) (fun y hy => ?_) (fun y hy => ?_)
  · have habove : 0 ≤ order.compare y x := of_decide_eq_true (List.all_eq_true.mp List.all_takeWhile y hy)
    exact habove
  · -- the first element behind the place is below `x`, and the others are below it
    have hrest := h.sublist (List.dropWhile_sublist fun y => decide (0 ≤ order.compare y x))
    have hhead := List.head?_dropWhile_not (fun y => decide (0 ≤ order.compare y x)) xs
    generalize xs.dropWhile (fun y => decide (0 ≤ order.compare y x)) = rest at hy hrest hhead
    cases rest with
    | nil => cases hy
    | cons z rest =>
        have hz : Above order.toComparator x z := by
          refine order.nonneg_of_neg ?_
          simpa using hhead
        rcases List.mem_cons.mp hy with rfl | hy
        · exact hz
        · exact above_trans _ x z y hz ((List.pairwise_cons.mp hrest).1 y hy)

/-- The two queues have the same elements: the list in order, and the heap as a heap. -/
def Same (order : StrictComparator α) (s : Both α) : Prop :=
  ∃ xs, DoublyLinked.Contains order.compare s.list xs ∧ xs.Pairwise (Above order.toComparator) ∧
    HeapOf (Above order.toComparator) order.compare s.heap.queue xs

theorem HeapOf.trans_perm {above : α → α → Prop} {cmp : α → α → Int} (h : HeapOf above cmp heap xs)
    (hperm : xs.Perm ys) : HeapOf above cmp heap ys := { h with perm := h.perm.trans hperm }

theorem HeapOf.size {above : α → α → Prop} {cmp : α → α → Int} (h : HeapOf above cmp heap xs) :
    heapSize heap = some xs.length := by
  unfold heapSize
  rw [vectorSize_eq h.small, h.perm.length_eq]

/-- The first element of the list is the root of the heap. -/
theorem HeapOf.peek_eq (h : HeapOf (Above order.toComparator) order.compare heap (x :: xs))
    (hsorted : (x :: xs).Pairwise (Above order.toComparator)) (hpeek : heapPeek heap = some y) : y = x := by
  obtain ⟨hmem, habove⟩ := h.peek (above_refl _) (above_trans _) hpeek
  have hx := habove x List.mem_cons_self
  rcases List.mem_cons.mp hmem with heq | hy
  · exact heq
  · exact above_antisymm order hx ((List.pairwise_cons.mp hsorted).1 y hy)

/-- **What is allowed keeps the queues the same**, and they agree on it. -/
theorem same_step (h : Same order s) (hvalid : Valid s request) (hallowed : Allowed s request) :
    ∃ list heap reply size, listCall s.list request = some (list, reply, size) ∧
      heapCall s.heap request = some (heap, reply, size) ∧ Same order ⟨list, heap⟩ := by
  obtain ⟨xs, hlist, hsorted, hheap⟩ := h
  have hlength := hheap.perm.length_eq
  cases request with
  | enpqueue data address =>
      obtain ⟨list, henq, hlist'⟩ := hlist.enpqueue hvalid data
      have hinserted := DoublyLinked.insertSorted_perm order.compare data xs
      have hlt : xs.length < 2147483647 := by
        have hne : s.heap.queue.vector.elements.length ≠ 2147483647 := hallowed
        have hsmall := hheap.small
        omega
      obtain ⟨queue, hpush, hheap'⟩ := hheap.push (above_trans _) hlt
        (rises_comparator order.toComparator _ _ data)
      refine ⟨list, ⟨queue⟩, .status 0, xs.length + 1, ?_, ?_, _, hlist', insertSorted_pairwise hsorted data,
        hheap'.trans_perm hinserted.symm⟩
      · simp only [listCall, henq, hlist'.size, bind, Option.bind_some, pure, hinserted.length_eq, List.length_cons]
      · simp only [heapCall, pqEnpqueue, hpush, pqSize, hheap'.size, bind, Option.bind_some, pure, List.length_cons]
  | depqueue =>
      cases xs with
      | nil => exact absurd (List.eq_nil_of_length_eq_zero hlength) hvalid
      | cons x xs =>
          obtain ⟨-, list, hdeq, hlist'⟩ := hlist.depqueue
          obtain ⟨queue, y, ys, hpeek, hpop, hperm, hheap'⟩ :=
            hheap.pop (above_trans _) (List.cons_ne_nil x xs) (pops_comparator order.toComparator _)
          obtain rfl := hheap.peek_eq hsorted hpeek
          have hys : ys.Perm xs := (hperm.cons_inv).symm
          refine ⟨list, ⟨queue⟩, .data y, xs.length, ?_, ?_, xs, hlist', hsorted.tail, hheap'.trans_perm hys⟩
          · simp only [listCall, hdeq, hlist'.size, bind, Option.bind_some, pure]
          · simp only [heapCall, pqDepqueue, hpeek, hpop, pqSize, hheap'.size, bind, Option.bind_some, pure,
              hys.length_eq]
  | peek =>
      cases xs with
      | nil => exact absurd (List.eq_nil_of_length_eq_zero hlength) hvalid
      | cons x xs =>
          obtain ⟨hfirst, -⟩ := hlist.depqueue
          obtain ⟨queue, y, ys, hpeek, -⟩ :=
            hheap.pop (above_trans _) (List.cons_ne_nil x xs) (pops_comparator order.toComparator _)
          obtain rfl := hheap.peek_eq hsorted hpeek
          refine ⟨s.list, s.heap, .data y, (y :: xs).length, ?_, ?_, _, hlist, hsorted, hheap⟩
          · simp only [listCall, hfirst, hlist.size, bind, Option.bind_some, pure]
          · simp only [heapCall, pqPeek, hpeek, pqSize, hheap.size, bind, Option.bind_some, pure]
  | erase isMatch dataToCompare =>
      obtain ⟨x, hone, hmatch⟩ := hallowed
      have hone' : s.heap.queue.vector.elements = [x] := hone
      obtain rfl := List.singleton_perm.mp (hone' ▸ hheap.perm)
      obtain ⟨list, herase, hlist'⟩ := hlist.erase isMatch dataToCompare
      have hnot : DoublyLinked.isFound isMatch dataToCompare x = false := by
        unfold DoublyLinked.isFound
        rw [hmatch]
        rfl
      have hfind : [x].find? (DoublyLinked.isFound isMatch dataToCompare) = none := by
        rw [List.find?_cons_of_neg (by rw [hnot]; exact Bool.false_ne_true)]
        rfl
      have hkept : [x].eraseP (DoublyLinked.isFound isMatch dataToCompare) = [x] := by
        rw [List.eraseP_cons_of_neg (by rw [hnot]; exact Bool.false_ne_true)]
        rfl
      rw [hfind] at herase
      rw [hkept] at hlist'
      refine ⟨list, s.heap, .erased none, 1, ?_, ?_, [x], hlist', hsorted, hheap⟩
      · simp only [listCall, herase, hlist'.size, bind, Option.bind_some, pure, List.length_singleton]
      · simp only [heapCall, pqErase, heapRemove_singleton hone', pqSize, hheap.size, bind, Option.bind_some, pure,
          List.length_singleton]

/-- **On nothing else** the queues agree. -/
theorem allowed_of_agree (h : Same order s) (hagree : Agree s request) : Allowed s request := by
  obtain ⟨xs, hlist, hsorted, hheap⟩ := h
  obtain ⟨list, heap, reply, size, hlistCall, hheapCall⟩ := hagree
  cases request with
  | enpqueue data address =>
      intro hmax
      obtain ⟨grown, -, -, hpush⟩ := heapPush_eq hheap.fits hheap.small data
      have hmax' : s.heap.queue.vector.elements.length = 2147483647 := hmax
      rw [if_pos hmax'] at hpush
      simp only [heapCall, pqEnpqueue, hpush, bind, Option.bind_none, reduceCtorEq] at hheapCall
  | depqueue => trivial
  | peek => trivial
  | erase isMatch dataToCompare =>
      obtain ⟨list', herase, hlist'⟩ := hlist.erase isMatch dataToCompare
      simp only [listCall, herase, hlist'.size, bind, Option.bind_some, pure, Option.some.injEq, Prod.mk.injEq]
        at hlistCall
      obtain ⟨-, rfl, -⟩ := hlistCall
      simp only [heapCall, pqErase, bind, pure] at hheapCall
      obtain ⟨⟨queue, removed⟩, herased, hheapCall⟩ := Option.bind_eq_some_iff.mp hheapCall
      obtain ⟨⟨queue', removed'⟩, hremove, herased⟩ := Option.bind_eq_some_iff.mp herased
      obtain ⟨size', -, hheapCall⟩ := Option.bind_eq_some_iff.mp hheapCall
      simp only [Option.some.injEq, Prod.mk.injEq] at herased hheapCall
      obtain ⟨-, rfl⟩ := herased
      obtain ⟨-, hreply, -⟩ := hheapCall
      have hreply : removed' = xs.find? (DoublyLinked.isFound isMatch dataToCompare) := Reply.erased.inj hreply
      show ∃ x, s.heap.queue.vector.elements = [x] ∧ isMatch x dataToCompare = 0
      cases helements : s.heap.queue.vector.elements with
      | nil =>
          -- the search of an empty heap fails
          rw [heapRemove_nil helements] at hremove
          cases hremove
      | cons x rest =>
          cases rest with
          | nil =>
              rw [heapRemove_singleton helements] at hremove
              obtain ⟨-, rfl⟩ := Prod.mk.inj (Option.some.inj hremove)
              have hnot := List.find?_eq_none.mp hreply.symm x (hheap.perm.mem_iff.mp (by rw [helements]; simp))
              refine ⟨x, rfl, ?_⟩
              unfold DoublyLinked.isFound at hnot
              simpa using hnot
          | cons y rest =>
              have hmany : 2 ≤ s.heap.queue.vector.elements.length := by
                rw [helements, List.length_cons, List.length_cons]
                omega
              rcases heapRemove_disagrees hheap.small hmany hremove with ⟨z, rfl, hz⟩ | ⟨rfl, z, hmem, hz⟩
              · have hfound := List.find?_some hreply.symm
                unfold DoublyLinked.isFound at hfound
                rw [hz] at hfound
                cases hfound
              · have hnot := List.find?_eq_none.mp hreply.symm z (hheap.perm.mem_iff.mp hmem)
                unfold DoublyLinked.isFound at hnot
                exact absurd (by simpa using hnot) hz

theorem reachable_same (h : (bothSystem κ order).Reachable Allowed s) : Same order s := by
  refine System.invariant ?_ ?_ h
  · rintro s ⟨hlist, hheap⟩
    refine ⟨[], ?_, List.Pairwise.nil, ?_⟩
    · rw [hlist]
      exact DoublyLinked.contains_create _
    · rw [hheap]
      exact heapOf_create _ _
  · rintro s request s' hsame hallowed ⟨hvalid, _, _, _, _, hlistCall, hheapCall⟩
    obtain ⟨list, heap, reply, size, hlistCall', hheapCall', hsame'⟩ := same_step hsame hvalid hallowed
    obtain ⟨hlist, -⟩ := Prod.mk.inj (Option.some.inj (hlistCall.symm.trans hlistCall'))
    obtain ⟨hheap, -⟩ := Prod.mk.inj (Option.some.inj (hheapCall.symm.trans hheapCall'))
    obtain ⟨list', heap'⟩ := s'
    subst hlist hheap
    exact hsame'

/-- **The two implementations** agree on the next call exactly if it is allowed, in every run the calls of which were
    allowed. So a run agrees at every step exactly if all of its calls are allowed. -/
theorem interchangeable_iff (h : (bothSystem κ order).Reachable Allowed s) (hvalid : Valid s request) :
    Agree s request ↔ Allowed s request := by
  have hsame := reachable_same h
  constructor
  · exact allowed_of_agree hsame
  · intro hallowed
    obtain ⟨list, heap, reply, size, hlistCall, hheapCall, -⟩ := same_step hsame hvalid hallowed
    exact ⟨list, heap, reply, size, hlistCall, hheapCall⟩

/-- Two new queues. -/
def sampleBoth : Both Int :=
  ⟨DoublyLinked.pqCreate StrictComparator.byDifference.compare, pqCreate StrictComparator.byDifference.compare⟩

/-- Whether two numbers are the same. -/
def sameNumber (x y : Int) : Int := if x = y then 1 else 0

theorem reachable_sampleBoth :
    (bothSystem Int .byDifference).Reachable Allowed sampleBoth := .init ⟨rfl, rfl⟩

/-- Nothing is erased from an empty list, and the heap fails. -/
theorem erase_disagrees : ∃ (s : Both Int) (request : Request Int Int),
    (bothSystem Int .byDifference).Reachable System.Any s ∧ Valid s request ∧ ¬ Agree s request := by
  refine ⟨sampleBoth, .erase sameNumber 5, reachable_sampleBoth.mono fun _ _ _ => trivial, ⟨fun x => ?_, ?_⟩, ?_⟩
  · unfold sameNumber
    split
    · exact .inr rfl
    · exact .inl rfl
  · exact Nat.zero_le 1
  · intro hagree
    obtain ⟨x, hx, -⟩ := allowed_of_agree (reachable_same reachable_sampleBoth) hagree
    cases hx

/-- The queues agree on what is enqueued first. -/
theorem interchangeable_sample : Agree sampleBoth (.enpqueue 5 0 : Request Int Int) := by
  have hvalid : Valid sampleBoth (.enpqueue 5 0 : Request Int Int) := rfl
  exact (interchangeable_iff reachable_sampleBoth hvalid).mpr (Nat.zero_ne_add_one 2147483646)

end Workbench.HeapQueue
