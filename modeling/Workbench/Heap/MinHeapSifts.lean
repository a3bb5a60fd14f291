import Workbench.Heap.MinHeap
import Workbench.Lib.Strided

/-!
# `Heap.MinHeapSifts` — `siftUp` and the recursive `heapifyDown`

One of them keeps the element that moves in a local and writes it at the end. The other one calls itself where
`heapifyDownNoRecursive` has a loop. They have fuel like the loops.

## Contents
* `siftUp`, `heapifyDown` — the functions;
* `heapifyUpLoop_set` — the hole and the swaps, step by step;
* `heapifyDownLoop_eq` — the recursion and the loop;
* `sifts_agree` — the same vectors, on any vector and index.
-/

namespace Workbench.MinHeap

open BinaryHeap

/-- The loop of `siftUp`, and the write after it. -/
def siftUpLoop (currentValue : Int) : Nat → Nat → List Int → Option (List Int)
  | 0, _, _ => none
  | fuel + 1, index, heap =>
      if index > 0 then do
        let parentIndex := parent index
        let above ← heap[parentIndex]?
        if above ≤ currentValue then
          writeCell heap index currentValue
        else do
          let heap ← writeCell heap index above
          siftUpLoop currentValue fuel parentIndex heap
      else
        writeCell heap index currentValue

def siftUp (index : Nat) (heap : List Int) : Option (List Int) := do
  let currentValue ← heap[index]?
  siftUpLoop currentValue (index + 1) index heap

def heapifyDownCall : Nat → Nat → List Int → Option (List Int)
  | 0, _, _ => none
  | fuel + 1, index, heap => do
      let left ← leftChild index
      let right ← rightChild index
      let smallest ← smaller heap left index
      let smallest ← smaller heap right smallest
      if smallest ≠ index then do
        let heap ← swap heap index smallest
        heapifyDownCall fuel smallest heap
      else
        return heap

def heapifyDown (index : Nat) (heap : List Int) : Option (List Int) :=
  heapifyDownCall (heap.length - index + 1) index heap

variable {prints : Bool} {heap : List Int} {fuel index : Nat} {currentValue : Int}

/-! ## The hole -/

theorem parent_lt (h : index > 0) : parent index < index := (Child.of_pos h).lt

/-- The vector with the element in the hole is the one that the swaps have. -/
theorem heapifyUpLoop_set (prints : Bool) (currentValue : Int) (hfuel : index < fuel) (hindex : index < heap.length) :
    ∃ heap', siftUpLoop currentValue fuel index heap = some heap' ∧
      heapifyUpLoop prints fuel index (heap.set index currentValue) = some heap' := by
  induction fuel generalizing index heap with
  | zero => exact absurd hfuel (Nat.not_lt_zero _)
  | succ fuel ih =>
      have hwrite : ∀ x, writeCell heap index x = some (heap.set index x) := fun x => writeCell_natCast hindex x
      have hhere : (heap.set index currentValue)[index]? = some currentValue := List.getElem?_set_self hindex
      rw [siftUpLoop, heapifyUpLoop]
      by_cases hroot : index > 0
      · have hlt := parent_lt hroot
        have hparent : parent index < heap.length := Nat.lt_trans hlt hindex
        obtain ⟨above, habove⟩ : ∃ above, heap[parent index]? = some above := ⟨_, List.getElem?_eq_getElem hparent⟩
        have habove' : (heap.set index currentValue)[parent index]? = some above := by
          rw [List.getElem?_set_ne (Nat.ne_of_gt hlt), habove]
        rw [if_pos hroot, if_pos hroot]
        simp only [Option.bind_eq_bind, habove, habove', hhere, Option.bind_some, hwrite]
        by_cases hstop : above ≤ currentValue
        · rw [if_pos hstop, if_neg (Int.not_lt.mpr hstop)]
          exact ⟨_, rfl, rfl⟩
        · -- the element from above is in the hole, and the hole is there
          have hswapped : ((heap.set index currentValue).set (parent index) currentValue).set index above =
              (heap.set index above).set (parent index) currentValue := by
            rw [List.set_comm _ _ (Nat.ne_of_lt hlt), List.set_set]
          have hparent' : parent index < (heap.set index above).length := by rwa [List.length_set]
          obtain ⟨heap', hsift, hup⟩ := ih (Nat.lt_of_lt_of_le hlt (Nat.le_of_lt_succ hfuel)) hparent'
          rw [if_neg hstop, if_pos (Int.not_le.mp hstop), swap_eq habove' hhere, Option.bind_some,
            trace_some (printPrettyHeap_eq _), Option.bind_some, hswapped]
          exact ⟨heap', hsift, hup⟩
      · rw [if_neg hroot, if_neg hroot, hwrite]
        exact ⟨_, rfl, rfl⟩

/-- **The hole and the swaps.** -/
theorem siftUp_eq (prints : Bool) (hindex : index < heap.length) :
    ∃ heap', siftUp index heap = some heap' ∧ heapifyUp prints index heap = some heap' := by
  obtain ⟨heap', hsift, hup⟩ := heapifyUpLoop_set prints heap[index] (Nat.lt_succ_self index) hindex
  rw [List.set_getElem_self hindex] at hup
  refine ⟨heap', ?_, hup⟩
  rw [siftUp, List.getElem?_eq_getElem hindex]
  exact hsift

/-! ## The recursion -/

theorem heapifyDownLoop_eq (prints : Bool) (hsize : heap.length < 1073741824) (hfuel : heap.length - index < fuel)
    (hindex : index < heap.length) :
    ∃ heap', heapifyDownCall fuel index heap = some heap' ∧ heapifyDownLoop prints fuel index heap = some heap' := by
  induction fuel generalizing index heap with
  | zero => exact absurd hfuel (Nat.not_lt_zero _)
  | succ fuel ih =>
      obtain ⟨k, hk, hwhich, hklt, -⟩ := smaller_eq (2 * index + 1) hindex
      obtain ⟨m, hm, hwhich', hmlt, -⟩ := smaller_eq (2 * index + 2) hklt
      rw [heapifyDownCall, heapifyDownLoop, leftChild, rightChild, int_eq (by omega), int_eq (by omega)]
      simp only [Option.bind_eq_bind, Option.bind_some, hk, hm]
      by_cases hstop : m = index
      · rw [if_neg (not_not_intro hstop), if_pos hstop]
        exact ⟨heap, rfl, rfl⟩
      · have hlt : index < m := by omega
        have hswap := swap_eq (List.getElem?_eq_getElem hindex) (List.getElem?_eq_getElem hmlt)
        have hlength : ((heap.set index heap[m]).set m heap[index]).length = heap.length := by
          rw [List.length_set, List.length_set]
        rw [if_pos hstop, if_neg hstop, hswap, Option.bind_some, Option.bind_some,
          trace_some (printPrettyHeap_eq _), Option.bind_some]
        exact ih (by rwa [hlength]) (by rw [hlength]; omega) (by rwa [hlength])

/-- **The recursion and the loop.** -/
theorem heapifyDown_eq (prints : Bool) (hsize : heap.length < 1073741824) (hindex : index < heap.length) :
    ∃ heap', heapifyDown index heap = some heap' ∧ heapifyDownNoRecursive prints index heap = some heap' := by
  obtain ⟨heap', hcall, hloop⟩ := heapifyDownLoop_eq prints hsize (Nat.lt_succ_self (heap.length - index)) hindex
  refine ⟨heap', hcall, ?_⟩
  rw [heapifyDownNoRecursive, trace_some (printPrettyHeap_eq _)]
  exact hloop

/-- **The two versions agree** and only access what is in the vector. -/
theorem sifts_agree (prints : Bool) (heap : List Int) (index : Nat) (hsize : heap.length < 1073741824)
    (hindex : index < heap.length) :
    (∃ heap', siftUp index heap = some heap' ∧ heapifyUp prints index heap = some heap') ∧
      ∃ heap', heapifyDown index heap = some heap' ∧ heapifyDownNoRecursive prints index heap = some heap' :=
  ⟨siftUp_eq prints hindex, heapifyDown_eq prints hsize hindex⟩

theorem sifts_agree_three :
    (∃ heap', siftUp 2 [5, 3, 1] = some heap' ∧ heapifyUp true 2 [5, 3, 1] = some heap') ∧
      ∃ heap', heapifyDown 2 [5, 3, 1] = some heap' ∧ heapifyDownNoRecursive true 2 [5, 3, 1] = some heap' :=
  sifts_agree true [5, 3, 1] 2 (by decide) (by decide)

end Workbench.MinHeap
