import Workbench.Lib.BinaryHeap
import Workbench.Lib.System

/-!
# `Heap.MinHeap` — `MinHeap`

An access to `heap[i]` outside of the vector is `none`, and so is an `int` that overflows. The functions print on the
way: with `prints` the elements that are printed are read by their index, and without it they are not.

## Contents
* `heapifyUp`, `heapifyDownNoRecursive`, `insert`, `extractMin`, `printHeapAsTree`, … — the functions;
* `Call`, `exec` — the public operations;
* `heapifyUp_ordered`, `heapifyDown_ordered` — the loops end with a heap in order;
* `insert_heap`, `extractMin_heap` — what the operations do with a heap;
* `minHeap_runs` — any sequence of insertions and extractions;
* `accesses_iff` — the calls that only access what is in the vector.
-/

namespace Workbench.MinHeap

open BinaryHeap

/-! ## The functions -/

/-- The result of `int` arithmetic. -/
def int (n : Nat) : Option Nat := if n ≤ 2147483647 then some n else none

def parent (i : Nat) : Nat := (i - 1) / 2

def leftChild (i : Nat) : Option Nat := int (2 * i + 1)

def rightChild (i : Nat) : Option Nat := int (2 * i + 2)

/-- `std::swap(heap[i], heap[j])`. -/
def swap (heap : List Int) (i j : Nat) : Option (List Int) := do
  let x ← heap[i]?
  let y ← heap[j]?
  return (heap.set i y).set j x

/-- The elements from an index on, by their indices. -/
def printRange (heap : List Int) : Nat → Nat → Option (List Int)
  | _, 0 => some []
  | i, count + 1 => do
      let x ← heap[i]?
      let printed ← printRange heap (i + 1) count
      return x :: printed

/-- What is printed without the spaces. -/
def printPrettyHeap (heap : List Int) : Option (List Int) := printRange heap 0 heap.length

/-- A line of the trace. -/
def trace (prints : Bool) (printed : Option (List Int)) : Option Unit :=
  if prints then printed.map fun _ => () else some ()

/-- The loop of `heapifyUp`. -/
def heapifyUpLoop (prints : Bool) : Nat → Nat → List Int → Option (List Int)
  | 0, _, _ => none
  | fuel + 1, index, heap =>
      if index > 0 then do
        let above ← heap[parent index]?
        let x ← heap[index]?
        if above > x then do
          let heap ← swap heap (parent index) index
          trace (prints && index == 11) (printPrettyHeap heap)
          heapifyUpLoop prints fuel (parent index) heap
        else
          return heap
      else
        return heap

def heapifyUp (prints : Bool) (index : Nat) (heap : List Int) : Option (List Int) :=
  heapifyUpLoop prints (index + 1) index heap

/-- `if (child < heap.size() && heap[child] < heap[smallest]) smallest = child`. -/
def smaller (heap : List Int) (child smallest : Nat) : Option Nat :=
  if child < heap.length then do
    let x ← heap[child]?
    let y ← heap[smallest]?
    return if x < y then child else smallest
  else
    some smallest

/-- The loop of `heapifyDownNoRecursive`. -/
def heapifyDownLoop (prints : Bool) : Nat → Nat → List Int → Option (List Int)
  | 0, _, _ => none
  | fuel + 1, index, heap => do
      let left ← leftChild index
      let right ← rightChild index
      let smallest ← smaller heap left index
      let smallest ← smaller heap right smallest
      if smallest = index then
        return heap
      else do
        let heap ← swap heap index smallest
        trace prints (printPrettyHeap heap)
        heapifyDownLoop prints fuel smallest heap

def heapifyDownNoRecursive (prints : Bool) (index : Nat) (heap : List Int) : Option (List Int) := do
  trace prints (printPrettyHeap heap)
  heapifyDownLoop prints (heap.length - index + 1) index heap

def insert (prints : Bool) (key : Int) (heap : List Int) : Option (List Int) :=
  heapifyUp prints heap.length (heap ++ [key])

/-- What a call gives back. -/
inductive Answer
  | done
  | value (x : Int)
  | printed (xs : List Int)
  | heapIsEmpty
  deriving DecidableEq

def getMin (heap : List Int) : Option Answer :=
  if heap.isEmpty then some .heapIsEmpty else do
    let x ← heap[0]?
    return .value x

def extractMin (prints : Bool) (heap : List Int) : Option (List Int × Answer) :=
  if heap.isEmpty then some (heap, .heapIsEmpty) else do
    let minVal ← heap[0]?
    let back ← heap.getLast?
    let heap := (heap.set 0 back).dropLast
    trace prints (heap[0]?.map fun x => [x])
    if heap.isEmpty then
      return (heap, .value minVal)
    else do
      let heap ← heapifyDownNoRecursive prints 0 heap
      return (heap, .value minVal)

/-- `1 << levels` in an `int`. -/
def shiftOne (levels : Nat) : Option Nat := if levels < 31 then some (1 <<< levels) else none

/-- The loop that counts the levels. -/
def countLevels (n : Nat) : Nat → Nat → Option Nat
  | 0, _ => none
  | fuel + 1, levels => do
      let width ← shiftOne levels
      if width - 1 < n then countLevels n fuel (levels + 1) else return levels

/-- The loop over the levels. -/
def printLevels (heap : List Int) (i : Nat) : Nat → Option (List Int)
  | 0 => some []
  | count + 1 => do
      let start ← shiftOne i
      let stop ← shiftOne (i + 1)
      let levelStart := start - 1
      let levelEnd := min (stop - 1) heap.length
      let line ← printRange heap levelStart (levelEnd - levelStart)
      let lines ← printLevels heap (i + 1) count
      return line ++ lines

def printHeapAsTree (heap : List Int) : Option (List Int) := do
  let levels ← countLevels heap.length 32 0
  printLevels heap 0 levels

/-- The right subtree first. -/
def printTree (heap : List Int) : Nat → Nat → Option (List Int)
  | 0, _ => none
  | fuel + 1, index =>
      if index ≥ heap.length then some [] else do
        let right ← rightChild index
        let above ← printTree heap fuel right
        let x ← heap[index]?
        let left ← leftChild index
        let below ← printTree heap fuel left
        return above ++ x :: below

def printRecursiveTree (heap : List Int) : Option (List Int) := printTree heap (heap.length + 1) 0

/-- The public operations. -/
inductive Call
  | insert (key : Int)
  | getMin
  | extractMin
  | printHeapAsTree
  | printPrettyHeap
  | printRecursiveTree
  deriving DecidableEq

def exec (prints : Bool) (heap : List Int) : Call → Option (List Int × Answer)
  | .insert key => (insert prints key heap).map fun heap => (heap, .done)
  | .getMin => (getMin heap).map fun answer => (heap, answer)
  | .extractMin => extractMin prints heap
  | .printHeapAsTree => (printHeapAsTree heap).map fun printed => (heap, .printed printed)
  | .printPrettyHeap => (printPrettyHeap heap).map fun printed => (heap, .printed printed)
  | .printRecursiveTree => (printRecursiveTree heap).map fun printed => (heap, .printed printed)

/-! ## Accesses -/

variable {prints : Bool} {heap heap' : List Int} {i j k fuel index : Nat} {x key : Int}

theorem printRange_eq (count : Nat) (h : i + count ≤ heap.length) :
    printRange heap i count = some ((heap.drop i).take count) := by
  induction count generalizing i with
  | zero => rw [printRange, List.take_zero]
  | succ count ih =>
      have hi : i < heap.length := by omega
      rw [printRange, List.getElem?_eq_getElem hi, ih (by omega), List.drop_eq_getElem_cons hi, List.take_succ_cons]
      rfl

theorem printPrettyHeap_eq (heap : List Int) : printPrettyHeap heap = some heap := by
  rw [printPrettyHeap, printRange_eq _ (by omega), List.drop_zero, List.take_length]

theorem trace_some {printed : Option (List Int)} {xs : List Int} (h : printed = some xs) :
    trace prints printed = some () := by
  rw [trace, h]
  cases prints with
  | false => rfl
  | true => rfl

theorem swap_eq {y : Int} (hi : heap[i]? = some x) (hj : heap[j]? = some y) :
    swap heap i j = some ((heap.set i y).set j x) := by
  rw [swap, hi, hj]
  rfl

/-! ## The loops -/

/-- The order of a heap with the smallest element at the root. -/
abbrev MinOrdered (heap : List Int) : Prop := Ordered (· ≤ ·) heap

theorem intTrans (x y z : Int) (hxy : x ≤ y) (hyz : y ≤ z) : x ≤ z := Int.le_trans hxy hyz

theorem stands_iff {y : Int} (hi : heap[i]? = some x) (hj : heap[j]? = some y) : Stands (· ≤ ·) heap i j ↔ x ≤ y := by
  constructor
  · intro h
    exact h x y hi hj
  · intro h a b ha hb
    obtain rfl := Option.some.inj (hi.symm.trans ha)
    obtain rfl := Option.some.inj (hj.symm.trans hb)
    exact h

theorem heapifyUpLoop_ordered (prints : Bool) (hfuel : index < fuel) (hindex : index < heap.length)
    (hbut : OrderedBut (· ≤ ·) heap index) (hbelow : ∀ c, Child index c → Stands (· ≤ ·) heap index c) :
    ∃ heap', heapifyUpLoop prints fuel index heap = some heap' ∧ heap'.Perm heap ∧ MinOrdered heap' := by
  induction fuel generalizing index heap with
  | zero => exact absurd hfuel (Nat.not_lt_zero _)
  | succ fuel ih =>
      rw [heapifyUpLoop]
      by_cases hroot : index > 0
      · have hchild : Child (parent index) index := .of_pos hroot
        have hlt := hchild.lt
        obtain ⟨x, hx⟩ : ∃ x, heap[index]? = some x := ⟨_, List.getElem?_eq_getElem hindex⟩
        obtain ⟨above, habove⟩ := exists_before hx hlt
        rw [if_pos hroot]
        simp only [Option.bind_eq_bind, habove, hx, Option.bind_some]
        by_cases hgreater : above > x
        · have hswap := swapped_set habove hx
          have hstands : Stands (· ≤ ·) heap index (parent index) := (stands_iff hx habove).mpr (Int.le_of_lt hgreater)
          obtain ⟨hbut', hbelow'⟩ := hbut.up intTrans hbelow hchild habove hstands hswap
          obtain ⟨heap', hloop, hperm, hordered⟩ := ih (by omega) (by rw [hswap.length]; omega) hbut' hbelow'
          rw [if_pos hgreater, swap_eq habove hx, Option.bind_some, trace_some (printPrettyHeap_eq _), Option.bind_some]
          exact ⟨heap', hloop, hperm.trans hswap.perm, hordered⟩
        · rw [if_neg hgreater]
          refine ⟨heap, rfl, List.Perm.refl heap, hbut.ordered (fun p hp => ?_) hbelow⟩
          obtain rfl := hp.unique hchild
          exact (stands_iff habove hx).mpr (Int.not_lt.mp hgreater)
      · rw [if_neg hroot]
        refine ⟨heap, rfl, List.Perm.refl heap, hbut.ordered (fun p hp => ?_) hbelow⟩
        exact absurd (Nat.zero_lt_of_lt hp.lt) hroot

/-- **An insertion** ends with a heap in order, with the key. -/
theorem insert_heap (prints : Bool) (h : MinOrdered heap) (key : Int) :
    ∃ heap', insert prints key heap = some heap' ∧ heap'.Perm (key :: heap) ∧ MinOrdered heap' := by
  have hbut : OrderedBut (· ≤ ·) (heap ++ [key]) heap.length := by
    refine h.changed intTrans fun i x hi hx => ?_
    obtain ⟨hlt, -⟩ := List.getElem?_eq_some_iff.mp hx
    rw [List.length_append, List.length_singleton] at hlt
    rwa [List.getElem?_append_left (by omega)] at hx
  have hbelow : ∀ c, Child heap.length c → Stands (· ≤ ·) (heap ++ [key]) heap.length c := by
    intro c hc x y hx hy
    obtain ⟨hlt, -⟩ := List.getElem?_eq_some_iff.mp hy
    have hgt := hc.lt
    rw [List.length_append, List.length_singleton] at hlt
    omega
  have hindex : heap.length < (heap ++ [key]).length := by
    rw [List.length_append]
    exact Nat.lt_succ_self _
  obtain ⟨heap', hup, hperm, hordered⟩ := heapifyUpLoop_ordered prints (Nat.lt_succ_self _) hindex hbut hbelow
  exact ⟨heap', hup, hperm.trans (List.perm_append_singleton key heap), hordered⟩

/-- The smaller one of two elements, if the second one is there. -/
theorem smaller_eq {smallest : Nat} (child : Nat) (hsmallest : smallest < heap.length) :
    ∃ k, smaller heap child smallest = some k ∧ (k = smallest ∨ k = child) ∧ k < heap.length ∧
      Stands (· ≤ ·) heap k smallest ∧ Stands (· ≤ ·) heap k child := by
  have hrefl : ∀ i, Stands (· ≤ ·) heap i i := fun i x y hx hy => by
    obtain rfl := Option.some.inj (hx.symm.trans hy)
    exact Int.le_refl x
  rw [smaller]
  by_cases hchild : child < heap.length
  · have hx := List.getElem?_eq_getElem hchild
    have hy := List.getElem?_eq_getElem hsmallest
    rw [if_pos hchild, hx, hy]
    simp only [Option.bind_eq_bind, Option.bind_some, Option.pure_def]
    by_cases hless : heap[child] < heap[smallest]
    · rw [if_pos hless]
      exact ⟨child, rfl, .inr rfl, hchild, (stands_iff hx hy).mpr (Int.le_of_lt hless), hrefl child⟩
    · rw [if_neg hless]
      exact ⟨smallest, rfl, .inl rfl, hsmallest, hrefl smallest, (stands_iff hy hx).mpr (Int.not_lt.mp hless)⟩
  · rw [if_neg hchild]
    refine ⟨smallest, rfl, .inl rfl, hsmallest, hrefl smallest, fun x y hx hy => ?_⟩
    exact absurd (List.getElem?_eq_some_iff.mp hy).1 hchild

theorem int_eq {n : Nat} (h : n ≤ 2147483647) : int n = some n := if_pos h

theorem heapifyDownLoop_ordered (prints : Bool) (hsize : heap.length < 1073741824) (hfuel : heap.length - index < fuel)
    (hindex : index < heap.length) (hbut : OrderedBut (· ≤ ·) heap index)
    (habove : ∀ p, Child p index → Stands (· ≤ ·) heap p index) :
    ∃ heap', heapifyDownLoop prints fuel index heap = some heap' ∧ heap'.Perm heap ∧ MinOrdered heap' := by
  induction fuel generalizing index heap with
  | zero => exact absurd hfuel (Nat.not_lt_zero _)
  | succ fuel ih =>
      obtain ⟨k, hk, hwhich, hklt, hki, hkl⟩ := smaller_eq (2 * index + 1) hindex
      obtain ⟨m, hm, hwhich', hmlt, hmk, hmr⟩ := smaller_eq (2 * index + 2) hklt
      obtain ⟨y, hy⟩ : ∃ y, heap[k]? = some y := ⟨_, List.getElem?_eq_getElem hklt⟩
      rw [heapifyDownLoop, leftChild, rightChild, int_eq (by omega), int_eq (by omega)]
      simp only [Option.bind_eq_bind, Option.bind_some, hk, hm]
      -- the smallest one stands above both children
      have hml : Stands (· ≤ ·) heap m (2 * index + 1) := hmk.trans intTrans hkl hy
      have hmi : Stands (· ≤ ·) heap m index := hmk.trans intTrans hki hy
      have hmchild : ∀ c, Child index c → Stands (· ≤ ·) heap m c := by
        rintro c (rfl | rfl)
        · exact hml
        · exact hmr
      by_cases hstop : m = index
      · rw [if_pos hstop]
        exact ⟨heap, rfl, List.Perm.refl heap, hbut.ordered habove (hstop ▸ hmchild)⟩
      · have hchild : Child index m := by
          rcases hwhich' with rfl | rfl
          · exact .inl (hwhich.resolve_left hstop)
          · exact .inr rfl
        have hlt := hchild.lt
        obtain ⟨x, hx⟩ : ∃ x, heap[index]? = some x := ⟨_, List.getElem?_eq_getElem hindex⟩
        obtain ⟨z, hz⟩ : ∃ z, heap[m]? = some z := ⟨_, List.getElem?_eq_getElem hmlt⟩
        have hswap := swapped_set hx hz
        obtain ⟨hbut', habove'⟩ := hbut.down hchild hmi (fun j hj _ => hmchild j hj) hswap
        have hlength := hswap.length
        obtain ⟨heap', hloop, hperm, hordered⟩ := ih (by omega) (by omega) (by omega) hbut' habove'
        rw [if_neg hstop, swap_eq hx hz, Option.bind_some, trace_some (printPrettyHeap_eq _), Option.bind_some]
        exact ⟨heap', hloop, hperm.trans hswap.perm, hordered⟩

theorem heapifyDown_ordered (prints : Bool) (hsize : heap.length < 1073741824) (hne : heap ≠ [])
    (hbut : OrderedBut (· ≤ ·) heap 0) :
    ∃ heap', heapifyDownNoRecursive prints 0 heap = some heap' ∧ heap'.Perm heap ∧ MinOrdered heap' := by
  obtain ⟨heap', hloop, hperm, hordered⟩ := heapifyDownLoop_ordered prints hsize
    (Nat.lt_succ_self (heap.length - 0)) (List.length_pos_of_ne_nil hne) hbut
    fun p hp => absurd hp.lt (Nat.not_lt_zero p)
  refine ⟨heap', ?_, hperm, hordered⟩
  rw [heapifyDownNoRecursive, trace_some (printPrettyHeap_eq _)]
  exact hloop

/-- What an extraction leaves before the order is restored. -/
theorem removed_ordered (h : MinOrdered heap) (back : Int) :
    OrderedBut (· ≤ ·) (heap.set 0 back).dropLast 0 := by
  refine h.changed intTrans fun i x hi hx => ?_
  rw [List.getElem?_dropLast] at hx
  split at hx
  · rwa [List.getElem?_set_ne (Ne.symm hi)] at hx
  · cases hx

/-- **An extraction** gives a smallest element and ends with a heap in order, without it. The trace reads the root of a
    heap that may be empty. -/
theorem extractMin_heap (h : MinOrdered heap) (hsize : heap.length < 1073741824) (hne : heap ≠ [])
    (hread : prints = true → heap.length ≠ 1) :
    ∃ heap' minVal, extractMin prints heap = some (heap', .value minVal) ∧ heap.Perm (minVal :: heap') ∧
      (∀ x ∈ heap, minVal ≤ x) ∧ MinOrdered heap' := by
  obtain ⟨minVal, rest, rfl⟩ := List.exists_cons_of_ne_nil hne
  have hleast : ∀ x ∈ minVal :: rest, minVal ≤ x := fun x hx => by
    obtain ⟨i, hi⟩ := List.mem_iff_getElem?.mp hx
    exact h.root Int.le_refl intTrans rfl i x hi
  rw [extractMin, if_neg (by simp)]
  rcases List.eq_nil_or_concat rest with rfl | ⟨middle, back, rfl⟩
  · have htrace : trace prints ((([minVal].set 0 minVal).dropLast)[0]?.map fun x => [x]) = some () := by
      rw [trace, if_neg fun htrue => hread htrue rfl]
    refine ⟨[], minVal, ?_, List.Perm.refl _, hleast, ordered_nil⟩
    show (trace prints ((([minVal].set 0 minVal).dropLast)[0]?.map fun x => [x])).bind _ = _
    rw [htrace]
    rfl
  · rw [List.concat_eq_append] at *
    have hafter : ((minVal :: (middle ++ [back])).set 0 back).dropLast = back :: middle := by
      rw [List.set_cons_zero, ← List.cons_append, List.dropLast_concat]
    have hlast : (minVal :: (middle ++ [back])).getLast? = some back := by
      rw [← List.cons_append, List.getLast?_append]
      rfl
    have hbut := removed_ordered h back
    rw [hafter] at hbut
    have hlength : (back :: middle).length < 1073741824 := by
      rw [List.length_cons, List.length_append, List.length_singleton] at hsize
      rw [List.length_cons]
      omega
    obtain ⟨heap', hdown, hperm, hordered⟩ := heapifyDown_ordered prints hlength (List.cons_ne_nil _ _) hbut
    refine ⟨heap', minVal, ?_, ?_, hleast, hordered⟩
    · simp only [Option.bind_eq_bind, List.getElem?_cons_zero, hlast, Option.bind_some, hafter, Option.map_some]
      rw [trace_some rfl, Option.bind_some, if_neg (by simp), hdown]
      rfl
    · exact ((List.perm_append_singleton back middle).trans hperm.symm).cons minVal

/-- The trace reads the root of an empty heap. -/
theorem extractMin_last (hlast : heap.length = 1) : extractMin true heap = none := by
  obtain ⟨x, rfl⟩ := List.length_eq_one_iff.mp hlast
  rfl

/-! ## The other operations -/

theorem countLevels_eq {n levels : Nat} (hn : n < 1073741824) (hlevels : levels ≤ 30) (hfuel : 30 < levels + fuel) :
    ∃ stop ≤ 30, countLevels n fuel levels = some stop := by
  induction fuel generalizing levels with
  | zero => omega
  | succ fuel ih =>
      have hshift : shiftOne levels = some (1 <<< levels) := if_pos (by omega)
      rw [countLevels, hshift]
      simp only [Option.bind_eq_bind, Option.bind_some]
      by_cases hmore : 1 <<< levels - 1 < n
      · have hless : levels ≠ 30 := by
          rintro rfl
          exact absurd hmore (Nat.not_lt.mpr (Nat.le_sub_one_of_lt hn))
        rw [if_pos hmore]
        exact ih (by omega) (by omega)
      · rw [if_neg hmore]
        exact ⟨levels, hlevels, rfl⟩

theorem printLevels_eq (heap : List Int) {count : Nat} (h : i + count ≤ 30) :
    ∃ printed, printLevels heap i count = some printed := by
  induction count generalizing i with
  | zero => exact ⟨[], rfl⟩
  | succ count ih =>
      obtain ⟨lines, hlines⟩ := @ih (i + 1) (by omega)
      have hstart : shiftOne i = some (1 <<< i) := if_pos (by omega)
      have hstop : shiftOne (i + 1) = some (1 <<< (i + 1)) := if_pos (by omega)
      rw [printLevels, hstart, hstop, hlines]
      simp only [Option.bind_eq_bind, Option.bind_some, Option.pure_def]
      by_cases hempty : min (1 <<< (i + 1) - 1) heap.length - (1 <<< i - 1) = 0
      · rw [hempty]
        exact ⟨lines, rfl⟩
      · rw [printRange_eq _ (by omega)]
        exact ⟨_, rfl⟩

theorem printHeapAsTree_eq (hsize : heap.length < 1073741824) : ∃ printed, printHeapAsTree heap = some printed := by
  obtain ⟨levels, hle, hlevels⟩ := @countLevels_eq 32 heap.length 0 hsize (by omega) (by omega)
  obtain ⟨printed, hprinted⟩ := @printLevels_eq 0 heap levels (by omega)
  exact ⟨printed, by rw [printHeapAsTree, hlevels]; exact hprinted⟩

theorem printTree_eq (hsize : heap.length < 1073741824) (hfuel : heap.length - index < fuel) :
    ∃ printed, printTree heap fuel index = some printed := by
  induction fuel generalizing index with
  | zero => exact absurd hfuel (Nat.not_lt_zero _)
  | succ fuel ih =>
      rw [printTree]
      by_cases houtside : index ≥ heap.length
      · exact ⟨[], if_pos houtside⟩
      · obtain ⟨above, habove⟩ := @ih (2 * index + 2) (by omega)
        obtain ⟨below, hbelow⟩ := @ih (2 * index + 1) (by omega)
        rw [if_neg houtside, leftChild, rightChild, int_eq (by omega), int_eq (by omega)]
        simp only [Option.bind_eq_bind, Option.bind_some, habove, hbelow,
          List.getElem?_eq_getElem (Nat.not_le.mp houtside)]
        exact ⟨_, rfl⟩

theorem getMin_eq (h : MinOrdered heap) :
    heap = [] ∧ getMin heap = some .heapIsEmpty ∨
      ∃ x ∈ heap, getMin heap = some (.value x) ∧ ∀ y ∈ heap, x ≤ y := by
  cases heap with
  | nil => exact .inl ⟨rfl, rfl⟩
  | cons x rest =>
      refine .inr ⟨x, List.mem_cons_self, rfl, fun y hy => ?_⟩
      obtain ⟨i, hi⟩ := List.mem_iff_getElem?.mp hy
      exact h.root Int.le_refl intTrans rfl i y hi

/-! ## The calls -/

/-- Fewer than `2 ^ 30` elements. -/
def Few (heap : List Int) : Call → Prop
  | .insert _ => heap.length + 1 < 1073741824
  | _ => heap.length < 1073741824

/-- The elements of the heap after a call. -/
def Does (heap : List Int) : Call → List Int × Answer → Prop
  | .insert key, (heap', answer) => heap'.Perm (key :: heap) ∧ answer = .done
  | .extractMin, (heap', answer) =>
      heap = [] ∧ heap' = [] ∧ answer = .heapIsEmpty ∨
        ∃ minVal, answer = .value minVal ∧ heap.Perm (minVal :: heap') ∧ ∀ x ∈ heap, minVal ≤ x
  | .getMin, (heap', answer) =>
      heap' = heap ∧ (heap = [] ∧ answer = .heapIsEmpty ∨ ∃ x ∈ heap, answer = .value x ∧ ∀ y ∈ heap, x ≤ y)
  | .printHeapAsTree, (heap', _) | .printPrettyHeap, (heap', _) | .printRecursiveTree, (heap', _) => heap' = heap

/-- **A call on a heap in order**, where the trace does not read the root of an empty heap. -/
theorem exec_does (prints : Bool) (h : MinOrdered heap) {call : Call} (hfew : Few heap call)
    (hread : prints = true → call = .extractMin → heap.length ≠ 1) :
    ∃ result, exec prints heap call = some result ∧ MinOrdered result.1 ∧ Does heap call result := by
  cases call with
  | insert key =>
      obtain ⟨heap', hinsert, hperm, hordered⟩ := insert_heap prints h key
      exact ⟨(heap', .done), by rw [exec, hinsert]; rfl, hordered, hperm, rfl⟩
  | getMin =>
      rcases getMin_eq h with ⟨hnil, hmin⟩ | ⟨x, hx, hmin, hleast⟩
      · exact ⟨(heap, .heapIsEmpty), by rw [exec, hmin]; rfl, h, rfl, .inl ⟨hnil, rfl⟩⟩
      · exact ⟨(heap, .value x), by rw [exec, hmin]; rfl, h, rfl, .inr ⟨x, hx, rfl, hleast⟩⟩
  | extractMin =>
      by_cases hnil : heap = []
      · subst hnil
        exact ⟨([], .heapIsEmpty), rfl, h, .inl ⟨rfl, rfl, rfl⟩⟩
      · obtain ⟨heap', minVal, hextract, hperm, hleast, hordered⟩ :=
          extractMin_heap h hfew hnil fun hprints => hread hprints rfl
        exact ⟨(heap', .value minVal), hextract, hordered, .inr ⟨minVal, rfl, hperm, hleast⟩⟩
  | printHeapAsTree =>
      obtain ⟨printed, hprinted⟩ := printHeapAsTree_eq hfew
      exact ⟨(heap, .printed printed), by rw [exec, hprinted]; rfl, h, rfl⟩
  | printPrettyHeap => exact ⟨(heap, .printed heap), by rw [exec, printPrettyHeap_eq]; rfl, h, rfl⟩
  | printRecursiveTree =>
      obtain ⟨printed, hprinted⟩ := printTree_eq hfew (Nat.lt_succ_self (heap.length - 0))
      exact ⟨(heap, .printed printed), by rw [exec, printRecursiveTree]; exact congrArg _ hprinted, h, rfl⟩

/-! ## Insertions and extractions -/

/-- The heap, with what was inserted and what was extracted so far. -/
structure History where
  heap : List Int
  inserted : List Int
  extracted : List Int

def History.after (s : History) : Call → List Int × Answer → History
  | .insert key, (heap, _) => { s with heap := heap, inserted := key :: s.inserted }
  | .extractMin, (heap, .value x) => { s with heap := heap, extracted := x :: s.extracted }
  | _, (heap, _) => { s with heap := heap }

/-- The sequences of calls, without what is printed on the way. -/
def minHeap : System History Call where
  init s := s = ⟨[], [], []⟩
  step s call s' := ∃ result, exec false s.heap call = some result ∧ s' = s.after call result

/-- The elements are those that were inserted and not extracted. -/
structure Inv (s : History) : Prop where
  ordered : MinOrdered s.heap
  elements : (s.heap ++ s.extracted).Perm s.inserted

theorem Does.inv {s : History} {call : Call} {result : List Int × Answer} (h : Inv s) (hordered : MinOrdered result.1)
    (hdoes : Does s.heap call result) : Inv (s.after call result) := by
  obtain ⟨heap', answer⟩ := result
  cases call with
  | insert key =>
      obtain ⟨hperm, rfl⟩ := hdoes
      exact ⟨hordered, (hperm.append_right s.extracted).trans (h.elements.cons key)⟩
  | extractMin =>
      rcases hdoes with ⟨hnil, rfl, rfl⟩ | ⟨minVal, rfl, hperm, -⟩
      · exact ⟨hordered, hnil ▸ h.elements⟩
      · refine ⟨hordered, ?_⟩
        show (heap' ++ minVal :: s.extracted).Perm s.inserted
        exact (List.perm_middle.trans (hperm.symm.append_right s.extracted)).trans h.elements
  | getMin =>
      obtain ⟨rfl, -⟩ := hdoes
      exact ⟨hordered, h.elements⟩
  | printHeapAsTree | printPrettyHeap | printRecursiveTree =>
      obtain rfl := hdoes
      exact ⟨hordered, h.elements⟩

/-- **Any sequence of calls**: the heap is in order and has what was inserted and not extracted, and the next call does
    what it should. -/
theorem minHeap_runs {s : History} (h : minHeap.Reachable (fun s call => Few s.heap call) s) :
    MinOrdered s.heap ∧ (s.heap ++ s.extracted).Perm s.inserted ∧
      ∀ call, Few s.heap call →
        ∃ result, exec false s.heap call = some result ∧ MinOrdered result.1 ∧ Does s.heap call result := by
  have hinv : Inv s := by
    refine System.invariant ?_ ?_ h
    · rintro _ rfl
      exact ⟨ordered_nil, List.Perm.refl _⟩
    · rintro s call _ hinv hfew ⟨result, hexec, rfl⟩
      obtain ⟨result', hexec', hordered, hdoes⟩ := exec_does false hinv.ordered hfew nofun
      obtain rfl := Option.some.inj (hexec.symm.trans hexec')
      exact hdoes.inv hinv hordered
  exact ⟨hinv.ordered, hinv.elements, fun call hfew => exec_does false hinv.ordered hfew nofun⟩

theorem minHeap_sample :
    ∃ s, minHeap.Reachable (fun s call => Few s.heap call) s ∧ s.heap = [1, 3] ∧ MinOrdered s.heap := by
  have hfirst : minHeap.Reachable (fun s call => Few s.heap call) _ :=
    .step (a := .insert 3) (.init rfl) (show 0 + 1 < 1073741824 by decide) ⟨_, rfl, rfl⟩
  have hsecond : minHeap.Reachable (fun s call => Few s.heap call) _ :=
    .step (a := .insert 1) hfirst (show 1 + 1 < 1073741824 by decide) ⟨_, rfl, rfl⟩
  exact ⟨_, hsecond, rfl, (minHeap_runs hsecond).1⟩

/-! ## Accesses -/

/-- A sequence of calls, with what is printed on the way. -/
def runCalls : List Int → List Call → Option (List Int)
  | heap, [] => some heap
  | heap, call :: calls => do
      let (heap, _) ← exec true heap call
      runCalls heap calls

def sizeAfter (n : Nat) : Call → Nat
  | .insert _ => n + 1
  | .extractMin => n - 1
  | _ => n

/-- There are never `2 ^ 30` elements. -/
def Small : Nat → List Call → Prop
  | n, [] => n < 1073741824
  | n, call :: calls => n < 1073741824 ∧ Small (sizeAfter n call) calls

/-- `extractMin` is never called on exactly one element. -/
def NeverLast : Nat → List Call → Prop
  | _, [] => True
  | n, call :: calls => (call = .extractMin → n ≠ 1) ∧ NeverLast (sizeAfter n call) calls

variable {call : Call} {calls : List Call}

theorem Small.head {n : Nat} (h : Small n calls) : n < 1073741824 := by
  cases calls with
  | nil => exact h
  | cons call calls => exact h.1

theorem Small.few (h : Small heap.length (call :: calls)) : Few heap call := by
  cases call with
  | insert key => exact h.2.head
  | getMin | extractMin | printHeapAsTree | printPrettyHeap | printRecursiveTree => exact h.1

theorem Does.length {result : List Int × Answer} (h : Does heap call result) :
    result.1.length = sizeAfter heap.length call := by
  obtain ⟨heap', answer⟩ := result
  cases call with
  | insert key => exact h.1.length_eq
  | extractMin =>
      rcases h with ⟨rfl, rfl, -⟩ | ⟨minVal, -, hperm, -⟩
      · rfl
      · have hlength := hperm.length_eq
        rw [List.length_cons] at hlength
        show heap'.length = heap.length - 1
        omega
  | getMin => exact congrArg List.length h.1
  | printHeapAsTree | printPrettyHeap | printRecursiveTree => exact congrArg List.length h

theorem runCalls_isSome_iff (h : MinOrdered heap) (hsmall : Small heap.length calls) :
    (runCalls heap calls).isSome = true ↔ NeverLast heap.length calls := by
  induction calls generalizing heap with
  | nil => exact iff_of_true rfl trivial
  | cons call calls ih =>
      by_cases hlast : call = .extractMin ∧ heap.length = 1
      · obtain ⟨rfl, hlength⟩ := hlast
        refine iff_of_false ?_ fun hnever => hnever.1 rfl hlength
        rw [runCalls, exec, extractMin_last hlength]
        exact Bool.false_ne_true
      · have hread : true = true → call = .extractMin → heap.length ≠ 1 :=
          fun _ hcall hlength => hlast ⟨hcall, hlength⟩
        obtain ⟨⟨heap', answer⟩, hexec, hordered, hdoes⟩ := exec_does true h hsmall.few hread
        have hlength := hdoes.length
        dsimp only at hlength
        rw [runCalls, hexec, NeverLast, and_iff_right (hread rfl), ← hlength]
        exact ih hordered (hlength ▸ hsmall.2)

/-- **All accesses of a sequence of calls are inside of the vector if and only if** `extractMin` is never called on
    exactly one element. -/
theorem accesses_iff (calls : List Call) (hsmall : Small 0 calls) :
    (runCalls [] calls).isSome = true ↔ NeverLast 0 calls := runCalls_isSome_iff ordered_nil hsmall

theorem accesses_sample : (runCalls [] [.insert 3, .insert 1, .extractMin]).isSome = true :=
  (accesses_iff [.insert 3, .insert 1, .extractMin]
    ⟨by decide, by decide, by decide, show 1 < 1073741824 by decide⟩).mpr ⟨nofun, nofun, fun _ => by decide, trivial⟩

/-- The heap is drained. -/
theorem last_is_read : ¬ ∀ calls, Small 0 calls → (runCalls [] calls).isSome = true := by
  intro hall
  have hdrained := hall [.insert 3, .extractMin] ⟨by decide, by decide, show 0 < 1073741824 by decide⟩
  cases hdrained

end Workbench.MinHeap
