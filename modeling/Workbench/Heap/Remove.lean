import Workbench.Heap.Sifts

/-!
# `Heap.Remove` — what is removed from the middle of the heap

The search goes on while the elements match, and its last element is not removed. The header of the priority queue
asks for a match function that returns 1 for what is to be removed.

## Main results
* `heapFind_spec` — where the search ends;
* `heapRemove_nil`, `heapRemove_singleton`, `heapRemove_disagrees` — what is removed from heaps of each size.
-/

namespace Workbench.HeapQueue

open BinaryHeap

variable {α κ : Type} {heap : Heap α} {matchFunc : α → κ → Int} {key : κ} {x : α}

/-- The search goes past the elements that match, up to the last one. -/
theorem heapFind_spec (heap : Heap α) (matchFunc : α → κ → Int) (key : κ) {fuel runner : Nat}
    (hrunner : runner < heap.vector.elements.length) (hfuel : heap.vector.elements.length < runner + fuel)
    (hpassed : ∀ i x, i < runner → heap.vector.elements[i]? = some x → matchFunc x key ≠ 0) :
    ∃ at_ x, heapFind heap matchFunc key heap.vector.elements.length fuel runner = some (at_ + 1, x) ∧
      heap.vector.elements[at_]? = some x ∧ (at_ + 1 = heap.vector.elements.length ∨ matchFunc x key = 0) ∧
      ∀ i y, i < at_ → heap.vector.elements[i]? = some y → matchFunc y key ≠ 0 := by
  induction fuel generalizing runner with
  | zero => omega
  | succ fuel ih =>
      obtain ⟨x, hx⟩ : ∃ x, heap.vector.elements[runner]? = some x :=
        ⟨_, List.getElem?_eq_getElem (by omega)⟩
      simp only [heapFind, vectorGetElement_succ, hx, bind, Option.bind_some]
      by_cases hon : runner + 1 < heap.vector.elements.length ∧ 0 ≠ matchFunc x key
      · rw [if_pos hon]
        refine ih hon.1 (by omega) fun i y hi hy => ?_
        rcases Nat.lt_succ_iff_lt_or_eq.mp hi with hi | rfl
        · exact hpassed i y hi hy
        · obtain rfl := Option.some.inj (hx.symm.trans hy)
          exact hon.2.symm
      · rw [if_neg hon]
        refine ⟨runner, x, rfl, hx, ?_, hpassed⟩
        rcases not_and_or.mp hon with hend | hmatch
        · exact .inl (by omega)
        · exact .inr (not_not.mp hmatch).symm

theorem heapRemove_nil (hnil : heap.vector.elements = []) : heapRemove heap matchFunc key = none := by
  have hsize : vectorSize heap.vector = some 0 := by
    rw [vectorSize_eq (by rw [hnil]; exact Nat.zero_le _), hnil]
    rfl
  have hget : vectorGetElement heap.vector (0 + 1) = none := by
    rw [vectorGetElement_succ, hnil]
    rfl
  unfold heapRemove
  simp only [hsize, bind, Option.bind_some, heapFind, hget, Option.bind_none]

/-- A single element is never removed. -/
theorem heapRemove_singleton (hone : heap.vector.elements = [x]) :
    heapRemove heap matchFunc key = some (heap, none) := by
  have hsize : vectorSize heap.vector = some 1 := by
    rw [vectorSize_eq (by rw [hone]; exact Nat.le_of_ble_eq_true rfl), hone]
    rfl
  have hget : vectorGetElement heap.vector (0 + 1) = some x := by
    rw [vectorGetElement_succ, hone]
    rfl
  unfold heapRemove
  simp only [hsize, bind, Option.bind_some, heapFind, hget]
  rfl

/-- **From more elements**, the heap removes one that does not match, or nothing although the first one matches. -/
theorem heapRemove_disagrees (hsmall : heap.vector.elements.length ≤ 2147483647)
    (hmany : 2 ≤ heap.vector.elements.length) {heap' : Heap α} {removed : Option α}
    (h : heapRemove heap matchFunc key = some (heap', removed)) :
    (∃ x, removed = some x ∧ matchFunc x key = 0) ∨
      (removed = none ∧ ∃ x ∈ heap.vector.elements, matchFunc x key ≠ 0) := by
  obtain ⟨at_, x, hfind, hx, hstop, hpassed⟩ := heapFind_spec heap matchFunc key
    (show 0 < heap.vector.elements.length by omega) (show _ < 0 + (heap.vector.elements.length + 1) by omega)
    (fun i _ hi => by omega)
  unfold heapRemove at h
  simp only [vectorSize_eq hsmall, bind, Option.bind_some, hfind] at h
  by_cases hlast : at_ + 1 = heap.vector.elements.length
  · rw [if_pos hlast] at h
    obtain ⟨-, rfl⟩ := Prod.mk.inj (Option.some.inj h)
    obtain ⟨y, hy⟩ : ∃ y, heap.vector.elements[0]? = some y := ⟨_, List.getElem?_eq_getElem (by omega)⟩
    exact .inr ⟨rfl, y, List.mem_of_getElem? hy, hpassed 0 y (by omega) hy⟩
  · rw [if_neg hlast] at h
    obtain ⟨_, -, h⟩ := Option.bind_eq_some_iff.mp h
    obtain ⟨_, -, h⟩ := Option.bind_eq_some_iff.mp h
    obtain ⟨_, -, h⟩ := Option.bind_eq_some_iff.mp h
    obtain ⟨-, rfl⟩ := Prod.mk.inj (Option.some.inj h)
    exact .inl ⟨x, rfl, hstop.resolve_left hlast⟩

end Workbench.HeapQueue
