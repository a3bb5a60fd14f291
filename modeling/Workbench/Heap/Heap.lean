import Mathlib.Tactic.Common

/-!
# `Heap.Heap` — the dynamic vector, the heap on it, and the priority queue on the heap

The vector counts its elements from 1, with an `int`; the heap counts them from 0. An assertion that fails, an access
outside of the array and an overflow of the `int` are `none`, and so is a loop that does not end.

## Contents
* `Vector` and its functions — an array that grows;
* `Heap`, `heapPush`, `heapPop`, `heapPeek`, `heapRemove` — the binary heap;
* `PQueue` and its functions — the queue of `heap_PQ.c`.
-/

namespace Workbench.HeapQueue

variable {α κ : Type}

/-! ## The vector -/

def intMax : Int := 2147483647

/-- The conversion to `size_t`. -/
def toSizeT (x : Int) : Int := x % 18446744073709551616

/-- `elements` has what the array has up to `pointer`; what is behind is not read. -/
structure Vector (α : Type) where
  elements : List α
  capacity : Nat

def vectorCreate (capacity : Nat) : Vector α := ⟨[], capacity⟩

def Vector.pointer (vector : Vector α) : Int := vector.elements.length - 1

/-- `pointer + 1` is an `int`. -/
def vectorSize (vector : Vector α) : Option Nat :=
  if vector.pointer + 1 ≤ intMax then some (vector.pointer + 1).toNat else none

/-- Only called on vectors with elements. -/
def vectorPopBack (vector : Vector α) : Vector α := { vector with elements := vector.elements.dropLast }

def vectorIsFull (vector : Vector α) : Bool := toSizeT vector.pointer = toSizeT (vector.capacity - 1)

/-- `new` is whether `realloc` finds memory. -/
def vectorReserve (vector : Vector α) (newCapacity : Nat) (new : Bool) : Vector α × Int :=
  if new then ({ vector with capacity := newCapacity }, 0) else (vector, 1)

/-- The element is written to `elements[pointer]`, after `pointer` was increased. -/
def vectorWrite (vector : Vector α) (element : α) : Option (Vector α) :=
  if vector.pointer + 1 ≤ intMax ∧ vector.pointer + 1 < vector.capacity then
    some { vector with elements := vector.elements ++ [element] }
  else
    none

def vectorPushBack (vector : Vector α) (element : α) (new : Bool) : Option (Vector α × Int) :=
  let (vector, failed) := if vectorIsFull vector then vectorReserve vector (vector.capacity * 2) new else (vector, 0)
  if failed = 1 then
    some (vector, 1)
  else
    (vectorWrite vector element).map fun vector => (vector, 0)

/-- The index starts with 1. -/
def vectorGetElement (vector : Vector α) (index : Nat) : Option α :=
  if index = 0 then none else vector.elements[index - 1]?

def vectorSetElement (vector : Vector α) (element : α) (index : Nat) : Option (Vector α) :=
  if 0 < index ∧ index ≤ vector.elements.length then
    some { vector with elements := vector.elements.set (index - 1) element }
  else
    none

/-! ## The heap -/

structure Heap (α : Type) where
  vector : Vector α
  compareFunc : α → α → Int

def heapCreate (cmp : α → α → Int) : Heap α := ⟨vectorCreate 7, cmp⟩

def getParent (index : Nat) : Nat := if index = 0 then 0 else (index - 1) / 2

def swapByIndex (heap : Heap α) (index bigChild : Nat) : Option (Heap α) := do
  let container ← vectorGetElement heap.vector (index + 1)
  let container2 ← vectorGetElement heap.vector (bigChild + 1)
  let vector ← vectorSetElement heap.vector container2 (index + 1)
  let vector ← vectorSetElement vector container (bigChild + 1)
  return { heap with vector }

/-- Without a child, the parent. -/
def getBigChild (heap : Heap α) (child1 child2 : Nat) : Option Nat := do
  let size ← vectorSize heap.vector
  if size ≤ child2 then
    if size ≤ child1 then
      return (child1 - 1) / 2
    else
      return child1
  else
    let data1 ← vectorGetElement heap.vector (child1 + 1)
    let data2 ← vectorGetElement heap.vector (child2 + 1)
    return if 0 < heap.compareFunc data1 data2 then child1 else child2

/-- The loop of `HeapIfyUp`; the first number bounds its turns. -/
def heapIfyUpLoop (data : α) : Nat → Heap α → Nat → Nat → Option (Heap α)
  | 0, _, _, _ => none
  | fuel + 1, heap, index, parent =>
      if index ≠ 0 then do
        let element ← vectorGetElement heap.vector (parent + 1)
        if heap.compareFunc element data < 0 then
          let heap ← swapByIndex heap parent index
          heapIfyUpLoop data fuel heap parent (getParent parent)
        else
          return heap
      else
        some heap

def heapIfyUp (heap : Heap α) (index : Nat) (data : α) : Option (Heap α) :=
  heapIfyUpLoop data (index + 1) heap index (getParent index)

/-- The loop of `HeapIfyDown`; the first number bounds its turns. -/
def heapIfyDownLoop (data : α) : Nat → Heap α → Nat → Nat → Option (Heap α)
  | 0, _, _, _ => none
  | fuel + 1, heap, index, bigChild => do
      let size ← vectorSize heap.vector
      if index + 1 < size then
        let element ← vectorGetElement heap.vector (bigChild + 1)
        if 0 < heap.compareFunc element data then
          let heap ← swapByIndex heap index bigChild
          let next ← getBigChild heap (2 * bigChild + 1) (2 * bigChild + 2)
          heapIfyDownLoop data fuel heap bigChild next
        else
          return heap
      else
        return heap

/-- As many turns as there are elements are enough: the index grows, or the loop does not end. -/
def heapIfyDown (heap : Heap α) (index : Nat) (data : α) : Option (Heap α) := do
  let bigChild ← getBigChild heap (2 * index + 1) (2 * index + 2)
  heapIfyDownLoop data (heap.vector.elements.length + 1) heap index bigChild

def heapPop (heap : Heap α) : Option (Heap α) := do
  let size ← vectorSize heap.vector
  let lastElement ← vectorGetElement heap.vector size
  let vector ← vectorSetElement heap.vector lastElement 1
  heapIfyDown { heap with vector := vectorPopBack vector } 0 lastElement

/-- The return value is not 0 if there is no memory. -/
def heapPush (heap : Heap α) (data : α) (new : Bool) : Option (Heap α × Int) := do
  let (vector, res) ← vectorPushBack heap.vector data new
  if res ≠ 0 then
    return ({ heap with vector }, res)
  else
    let size ← vectorSize vector
    let heap ← heapIfyUp { heap with vector } (size - 1) data
    return (heap, 0)

def heapPeek (heap : Heap α) : Option α := vectorGetElement heap.vector 1

/-- The loop of `HeapRemove`: where it ends, and the data there. -/
def heapFind (heap : Heap α) (matchFunc : α → κ → Int) (data : κ) (size : Nat) : Nat → Nat → Option (Nat × α)
  | 0, _ => none
  | fuel + 1, runner => do
      let runner := runner + 1
      let dataOfRunner ← vectorGetElement heap.vector runner
      if runner < size ∧ 0 ≠ matchFunc dataOfRunner data then
        heapFind heap matchFunc data size fuel runner
      else
        return (runner, dataOfRunner)

/-- The data that were removed, `none` for `NULL`. -/
def heapRemove (heap : Heap α) (matchFunc : α → κ → Int) (data : κ) : Option (Heap α × Option α) := do
  let size ← vectorSize heap.vector
  let (runner, dataOfRunner) ← heapFind heap matchFunc data size (size + 1) 0
  if runner = size then
    return (heap, none)
  else
    let lastElement ← vectorGetElement heap.vector size
    let vector ← vectorSetElement heap.vector lastElement runner
    let heap ← heapIfyDown { heap with vector := vectorPopBack vector } (runner - 1) lastElement
    return (heap, some dataOfRunner)

def heapIsEmpty (heap : Heap α) : Option Bool := (vectorSize heap.vector).map fun size => size = 0

def heapSize (heap : Heap α) : Option Nat := vectorSize heap.vector

/-! ## The priority queue -/

structure PQueue (α : Type) where
  queue : Heap α

def pqCreate (compareFunc : α → α → Int) : PQueue α := ⟨heapCreate compareFunc⟩

def pqSize (pqueue : PQueue α) : Option Nat := heapSize pqueue.queue

def pqIsEmpty (pqueue : PQueue α) : Option Bool := heapIsEmpty pqueue.queue

def pqEnpqueue (pqueue : PQueue α) (data : α) (new : Bool) : Option (PQueue α × Int) := do
  let (queue, res) ← heapPush pqueue.queue data new
  return (⟨queue⟩, res)

def pqDepqueue (pqueue : PQueue α) : Option (PQueue α × α) := do
  let data ← heapPeek pqueue.queue
  let queue ← heapPop pqueue.queue
  return (⟨queue⟩, data)

def pqPeek (pqueue : PQueue α) : Option α := heapPeek pqueue.queue

def pqErase (pqueue : PQueue α) (isMatch : α → κ → Int) (dataToCompare : κ) : Option (PQueue α × Option α) := do
  let (queue, removed) ← heapRemove pqueue.queue isMatch dataToCompare
  return (⟨queue⟩, removed)

end Workbench.HeapQueue
