import Mathlib.Data.List.Infix
import Workbench.Heap.Heap
import Workbench.Lib.Refines

/-!
# `Heap.DynamicVector` — the dynamic vector with its array

The array of a vector may have fewer slots than the capacity says, because its size in bytes is a `size_t`, and it may
be released, because a `realloc` to no bytes may return `NULL`. An assertion that fails, an access outside of the array
or to a released one, and a slot that is read before it is written, are `none`.

## Main results
* `Holds.pushBack_iff`, `Holds.reserve_iff` — when the vector still has the list afterwards;
* `vector_holds_list` — a vector over any calls that fit.
-/

namespace Workbench.DynamicVector

open HeapQueue (intMax toSizeT)

variable {α : Type}

/-! ## The functions -/

/-- The slots of `elements`, if they are not released. -/
structure Vector (α : Type) where
  elements : Option (List (Option α))
  capacity : Nat
  pointer : Int

def growthFactor : Nat := 2

/-- `sizeof(void *)`. -/
def pointerSize : Nat := 8

/-- How many slots there is room for in the bytes that are asked for. -/
def slots (capacity : Nat) : Nat := (toSizeT (pointerSize * capacity)).toNat / pointerSize

/-- What `realloc` makes of no bytes: a block without slots, or `NULL`, and the old block may be released then. -/
inductive ZeroSize
  | block
  | null (released : Bool)
  deriving DecidableEq

/-- There is memory for all sizes but 0. -/
def outcome (newCapacity : Nat) (zero : ZeroSize) : ZeroSize := if slots newCapacity = 0 then zero else .block

/-- The slots that both arrays have keep what they have. -/
def resize (array : List (Option α)) (n : Nat) : List (Option α) :=
  array.take n ++ List.replicate (n - array.length) none

/-- `NULL` for the vector when one of the two allocations fails. -/
def vectorCreate (capacity : Nat) (newVector newElements : Bool) : Option (Vector α) :=
  if newVector && newElements then some ⟨some (List.replicate (slots capacity) none), capacity, -1⟩ else none

def vectorPopBack (vector : Vector α) : Vector α := { vector with pointer := vector.pointer - 1 }

def vectorReserve (vector : Vector α) (newCapacity : Nat) (zero : ZeroSize) : Option (Vector α × Int) := do
  let array ← vector.elements
  match outcome newCapacity zero with
  | .null released => return ({ vector with elements := if released then none else some array }, 1)
  | .block => return ({ vector with elements := some (resize array (slots newCapacity)), capacity := newCapacity }, 0)

def vectorIsFull (vector : Vector α) : Bool := toSizeT vector.pointer = toSizeT (vector.capacity - 1)

/-- The element is written to `elements[pointer]`, after `pointer` was increased. -/
def vectorWrite (vector : Vector α) (element : α) : Option (Vector α × Int) := do
  let array ← vector.elements
  let pointer := vector.pointer + 1
  if 0 ≤ pointer ∧ pointer < array.length then
    return ({ vector with elements := some (array.set pointer.toNat (some element)), pointer }, 0)
  else
    none

def vectorPushBack (vector : Vector α) (element : α) (zero : ZeroSize) : Option (Vector α × Int) :=
  if vectorIsFull vector then do
    let (vector, failed) ← vectorReserve vector (toSizeT (vector.capacity * growthFactor)).toNat zero
    if failed = 1 then
      return (vector, 1)
    else
      vectorWrite vector element
  else
    vectorWrite vector element

/-- The index starts with 1. -/
def vectorGetElement (vector : Vector α) (index : Nat) : Option α := do
  let array ← vector.elements
  if index ≤ toSizeT (toSizeT vector.pointer + 1) then
    let slot ← array[(toSizeT (index - 1)).toNat]?
    slot
  else
    none

def vectorSetElement (vector : Vector α) (element : α) (index : Nat) : Option (Vector α) := do
  let array ← vector.elements
  let i := (toSizeT (index - 1)).toNat
  if index ≤ toSizeT (toSizeT vector.pointer + 1) ∧ i < array.length then
    return { vector with elements := some (array.set i (some element)) }
  else
    none

def vectorSize (vector : Vector α) : Nat := (toSizeT (vector.pointer + 1)).toNat

def vectorShrinkToFit (vector : Vector α) (zero : ZeroSize) : Option (Vector α × Int) :=
  vectorReserve vector (toSizeT (vector.pointer + 1)).toNat zero

/-! ## The calls -/

inductive Call (α : Type)
  | pushBack (element : α) (zero : ZeroSize)
  | popBack
  | getElement (index : Nat)
  | setElement (element : α) (index : Nat)
  | size
  | reserve (newCapacity : Nat) (zero : ZeroSize)
  | shrinkToFit (zero : ZeroSize)

inductive Answer (α : Type)
  | status (n : Int)
  | element (element : Option α)
  | size (n : Nat)
  | done

def exec (vector : Vector α) : Call α → Option (Vector α × Answer α)
  | .pushBack element zero => do
      let (vector, n) ← vectorPushBack vector element zero
      return (vector, .status n)
  | .popBack => some (vectorPopBack vector, .done)
  | .getElement index => do
      let element ← vectorGetElement vector index
      return (vector, .element (some element))
  | .setElement element index => do
      let vector ← vectorSetElement vector element index
      return (vector, .done)
  | .size => some (vector, .size (vectorSize vector))
  | .reserve newCapacity zero => do
      let (vector, n) ← vectorReserve vector newCapacity zero
      return (vector, .status n)
  | .shrinkToFit zero => do
      let (vector, n) ← vectorShrinkToFit vector zero
      return (vector, .status n)

/-- Memory that is asked for is there, but `realloc` may return `NULL` for no bytes. -/
def reserveStatus (newCapacity : Nat) (zero : ZeroSize) : Int :=
  match outcome newCapacity zero with
  | .block => 0
  | .null _ => 1

/-- What a vector is for. -/
def answer (xs : List α) : Call α → List α × Answer α
  | .pushBack element _ => (xs ++ [element], .status 0)
  | .popBack => (xs.dropLast, .done)
  | .getElement index => (xs, .element xs[index - 1]?)
  | .setElement element index => (xs.set (index - 1) element, .done)
  | .size => (xs, .size xs.length)
  | .reserve newCapacity zero => (xs, .status (reserveStatus newCapacity zero))
  | .shrinkToFit zero => (xs, .status (reserveStatus xs.length zero))

/-- What `size_t` can count to, and one more. -/
def sizeRange : Nat := 18446744073709551616

/-- What the caller promises. -/
def Allowed (xs : List α) : Call α → Prop
  | .pushBack _ _ => (xs.length + 1 : Int) < intMax
  | .popBack => xs ≠ []
  | .getElement index | .setElement _ index => 1 ≤ index ∧ index ≤ xs.length
  | .reserve newCapacity _ => xs.length ≤ newCapacity ∧ newCapacity < sizeRange
  | .size | .shrinkToFit _ => True

/-- What the array is needed for: it is not released; a vector that is not full has a slot, and one that is full has a
    capacity that grows; a reservation leaves the slots that are used. -/
def Fits (vector : Vector α) : Call α → Prop
  | .pushBack _ _ => ∃ array, vector.elements = some array ∧ vector.capacity ≠ 0 ∧
      (vectorIsFull vector = false → vector.pointer + 1 < array.length)
  | .reserve newCapacity zero => ∃ array, vector.elements = some array ∧
      (vector.pointer + 1 ≤ slots newCapacity ∨ slots newCapacity = 0 ∧ zero = .null false)
  | .shrinkToFit _ => ∃ array, vector.elements = some array
  | .popBack | .getElement _ | .setElement _ _ | .size => True

def vectorComponent (α : Type) (capacity : Nat) : Component (Vector α) (Call α) (Answer α) where
  init vector := vectorCreate capacity true true = some vector
  exec := exec

def listModel (α : Type) : Model (List α) (Call α) (Answer α) where
  init := []
  answer := answer

/-! ## The list in the array -/

/-- **The vector has the list**: its size is not more than its capacity, and the first slots have the elements. -/
structure Holds (vector : Vector α) (xs : List α) : Prop where
  pointer : vector.pointer = xs.length - 1
  size : xs.length ≤ vector.capacity
  range : vector.capacity < sizeRange
  int : (xs.length : Int) < intMax
  array : ∀ array, vector.elements = some array → xs.map some <+: array
  released : vector.elements = none → xs = []

/-- The call does what the list does, and the vector has the list afterwards. -/
def Follows (vector : Vector α) (xs : List α) (call : Call α) : Prop :=
  ∃ vector', exec vector call = some (vector', (answer xs call).2) ∧ Holds vector' (answer xs call).1

variable {vector vector' : Vector α} {xs : List α} {array : List (Option α)} {x : α} {zero : ZeroSize}
  {n index newCapacity capacity : Nat}

theorem slots_eq (h : n < 2305843009213693952) : slots n = n := by
  unfold slots pointerSize toSizeT
  omega

theorem Holds.isFull_iff (h : Holds vector xs) : vectorIsFull vector = true ↔ xs.length = vector.capacity := by
  obtain ⟨hpointer, hsize, hrange, hint, -, -⟩ := h
  unfold sizeRange at hrange
  unfold intMax at hint
  rw [vectorIsFull, decide_eq_true_iff, hpointer]
  unfold toSizeT
  omega

theorem Holds.size_eq (h : Holds vector xs) : vectorSize vector = xs.length := by
  obtain ⟨hpointer, -, -, hint, -, -⟩ := h
  unfold intMax at hint
  rw [vectorSize, hpointer]
  unfold toSizeT
  omega

theorem length_resize (array : List (Option α)) (n : Nat) : (resize array n).length = n := by
  rw [resize, List.length_append, List.length_take, List.length_replicate]
  omega

/-- **What is used stays** in an array that has room for it. -/
theorem prefix_resize_iff (h : xs.map some <+: array) (n : Nat) : xs.map some <+: resize array n ↔ xs.length ≤ n := by
  constructor
  · intro hfront
    have hlength := hfront.length_le
    rw [List.length_map, length_resize] at hlength
    exact hlength
  · intro hlength
    have htake : xs.map some <+: array.take n := List.prefix_take_iff.mpr ⟨h, by rw [List.length_map]; exact hlength⟩
    exact htake.trans (List.prefix_append _ _)

/-! ## The calls, one by one -/

theorem Holds.create (h : capacity < sizeRange) (hvector : vectorCreate capacity true true = some vector) :
    Holds vector ([] : List α) := by
  cases hvector
  have hint : (0 : Int) < intMax := by decide
  exact ⟨rfl, Nat.zero_le _, h, hint, fun _ _ => List.nil_prefix, fun _ => rfl⟩

/-- **A write** behind the elements. -/
theorem Holds.write (h : Holds vector xs) (harray : vector.elements = some array) (hroom : xs.length < array.length)
    (hcapacity : xs.length < vector.capacity) (hint : (xs.length + 1 : Int) < intMax) (x : α) :
    ∃ vector', vectorWrite vector x = some (vector', 0) ∧ Holds vector' (xs ++ [x]) := by
  obtain ⟨rest, rfl⟩ := h.array array harray
  have hpointer : vector.pointer + 1 = xs.length := by
    rw [h.pointer]
    omega
  have hinside : 0 ≤ vector.pointer + 1 ∧ vector.pointer + 1 < (xs.map some ++ rest).length := by
    rw [hpointer]
    exact ⟨Int.natCast_nonneg _, Int.ofNat_lt.mpr hroom⟩
  obtain ⟨slot, rest, rfl⟩ : ∃ slot rest', rest = slot :: rest' := by
    refine List.exists_cons_of_ne_nil ?_
    rintro rfl
    rw [List.append_nil, List.length_map] at hroom
    exact Nat.lt_irrefl _ hroom
  have hset : (xs.map some ++ slot :: rest).set xs.length (some x) = (xs ++ [x]).map some ++ rest := by
    rw [List.set_append_right _ _ (by rw [List.length_map]), List.length_map, Nat.sub_self, List.map_append,
      List.append_assoc]
    rfl
  refine ⟨{ vector with elements := some ((xs ++ [x]).map some ++ rest), pointer := vector.pointer + 1 }, ?_, ?_⟩
  · simp only [vectorWrite, harray, bind, Option.bind_some, if_pos hinside, pure]
    rw [hpointer, Int.toNat_natCast, hset]
  · refine ⟨?_, ?_, h.range, ?_, ?_, ?_⟩
    · show vector.pointer + 1 = _
      rw [hpointer, List.length_append, List.length_singleton]
      omega
    · rw [List.length_append]
      exact hcapacity
    · rw [List.length_append]
      exact hint
    · rintro array ⟨⟩
      exact List.prefix_append _ _
    · rintro ⟨⟩

/-- **A write** that is outside of the array. -/
theorem vectorWrite_outside (harray : vector.elements = some array) (h : ¬ vector.pointer + 1 < array.length) (x : α) :
    vectorWrite vector x = none := by
  have houtside : ¬ (0 ≤ vector.pointer + 1 ∧ vector.pointer + 1 < array.length) := fun hinside => h hinside.2
  simp only [vectorWrite, harray, bind, Option.bind_some, if_neg houtside]

/-- `realloc` returns `NULL` for no bytes only. -/
theorem outcome_null {released : Bool} (h : outcome newCapacity zero = .null released) :
    slots newCapacity = 0 ∧ zero = .null released := by
  by_cases hslots : slots newCapacity = 0
  · rw [outcome, if_pos hslots] at h
    exact ⟨hslots, h⟩
  · rw [outcome, if_neg hslots] at h
    cases h

theorem vectorReserve_block (harray : vector.elements = some array) (h : outcome newCapacity zero = .block) :
    vectorReserve vector newCapacity zero =
      some ({ vector with elements := some (resize array (slots newCapacity)), capacity := newCapacity }, 0) := by
  simp only [vectorReserve, harray, h, bind, Option.bind_some, pure]

theorem vectorReserve_null {released : Bool} (harray : vector.elements = some array)
    (h : outcome newCapacity zero = .null released) :
    vectorReserve vector newCapacity zero =
      some ({ vector with elements := if released then none else some array }, 1) := by
  simp only [vectorReserve, harray, h, bind, Option.bind_some, pure]

/-- **An array of another size**: the vector has the list if there is room for it. -/
theorem Holds.resized_iff (h : Holds vector xs) (harray : vector.elements = some array)
    (hsize : xs.length ≤ newCapacity) (hrange : newCapacity < sizeRange) :
    Holds { vector with elements := some (resize array n), capacity := newCapacity } xs ↔ xs.length ≤ n := by
  have hfront := h.array array harray
  constructor
  · intro hholds
    exact (prefix_resize_iff hfront n).mp (hholds.array _ rfl)
  · intro hlength
    refine ⟨h.pointer, hsize, hrange, h.int, ?_, ?_⟩
    · rintro _ ⟨⟩
      exact (prefix_resize_iff hfront n).mpr hlength
    · rintro ⟨⟩

/-- **An array that is released**: the vector has the list if it is empty. -/
theorem Holds.null_iff (h : Holds vector xs) (harray : vector.elements = some array) (released : Bool) :
    Holds { vector with elements := if released then none else some array } xs ↔ released = true → xs = [] := by
  cases released with
  | false =>
      refine iff_of_true ⟨h.pointer, h.size, h.range, h.int, ?_, ?_⟩ (fun hreleased => ?_)
      · rintro _ ⟨⟩
        exact h.array array harray
      · rintro ⟨⟩
      · cases hreleased
  | true =>
      refine ⟨fun hholds _ => hholds.released rfl, fun hnil => ?_⟩
      refine ⟨h.pointer, h.size, h.range, h.int, ?_, fun _ => hnil rfl⟩
      rintro _ ⟨⟩

theorem exists_result_iff {P : Vector α → Prop} {status : Int} :
    (∃ vector', some (vector, status) = some (vector', status) ∧ P vector') ↔ P vector := by
  simp

/-- **A reservation** for at least the elements: the vector has the list afterwards exactly if there is room for it, or
nothing happens. -/
theorem Holds.reserve_iff (h : Holds vector xs) (hsize : xs.length ≤ newCapacity) (hrange : newCapacity < sizeRange)
    (zero : ZeroSize) :
    (∃ vector', vectorReserve vector newCapacity zero = some (vector', reserveStatus newCapacity zero) ∧
        Holds vector' xs) ↔
      ∃ array, vector.elements = some array ∧
        (vector.pointer + 1 ≤ slots newCapacity ∨ slots newCapacity = 0 ∧ zero = .null false) := by
  have hpointer : vector.pointer + 1 = xs.length := by
    rw [h.pointer]
    omega
  rw [hpointer, exists_and_right, Int.ofNat_le]
  cases harray : vector.elements with
  | none =>
      refine iff_of_false ?_ ?_
      · rintro ⟨vector', hreserve, -⟩
        simp only [vectorReserve, harray, bind, Option.bind_none] at hreserve
        cases hreserve
      · rintro ⟨⟨array, ⟨⟩⟩, -⟩
  | some array =>
      rw [and_iff_right ⟨array, rfl⟩]
      cases houtcome : outcome newCapacity zero with
      | block =>
          have hkept : ¬ (slots newCapacity = 0 ∧ zero = .null false) := by
            rintro ⟨hzero, rfl⟩
            rw [outcome, if_pos hzero] at houtcome
            cases houtcome
          rw [vectorReserve_block harray houtcome, reserveStatus, houtcome, exists_result_iff,
            h.resized_iff harray hsize hrange, or_iff_left hkept]
      | null released =>
          obtain ⟨hslots, rfl⟩ := outcome_null houtcome
          rw [vectorReserve_null harray houtcome, reserveStatus, houtcome, exists_result_iff, h.null_iff harray, hslots,
            Nat.le_zero, List.length_eq_zero_iff]
          cases released with
          | false => exact iff_of_true (fun hreleased => by cases hreleased) (Or.inr ⟨rfl, rfl⟩)
          | true =>
              have hnot : ¬ ((0 : Nat) = 0 ∧ ZeroSize.null true = .null false) := by
                rintro ⟨-, ⟨⟩⟩
              rw [or_iff_left hnot, forall_prop_of_true rfl]

/-- A full vector with a capacity asks for twice as much, and gets it. -/
theorem Holds.doubles (h : Holds vector xs) (hfull : xs.length = vector.capacity) (hcapacity : vector.capacity ≠ 0)
    (zero : ZeroSize) : (toSizeT (vector.capacity * growthFactor)).toNat = 2 * vector.capacity ∧
      slots (2 * vector.capacity) = 2 * vector.capacity ∧ outcome (2 * vector.capacity) zero = .block := by
  have hint := h.int
  unfold intMax at hint
  have hslots : slots (2 * vector.capacity) = 2 * vector.capacity := slots_eq (by omega)
  refine ⟨?_, hslots, ?_⟩
  · unfold toSizeT growthFactor
    omega
  · rw [outcome, if_neg]
    omega

/-- **A full vector grows**, if it has a capacity. -/
theorem Holds.grow (h : Holds vector xs) (harray : vector.elements = some array) (hfull : xs.length = vector.capacity)
    (hcapacity : vector.capacity ≠ 0) (zero : ZeroSize) :
    ∃ vector₁ array₁, vectorReserve vector (toSizeT (vector.capacity * growthFactor)).toNat zero = some (vector₁, 0) ∧
      Holds vector₁ xs ∧ vector₁.elements = some array₁ ∧ xs.length < array₁.length ∧
      xs.length < vector₁.capacity := by
  have hint := h.int
  unfold intMax at hint
  obtain ⟨hnew, hslots, houtcome⟩ := h.doubles hfull hcapacity zero
  rw [hnew, vectorReserve_block harray houtcome, hslots]
  have hrange : 2 * vector.capacity < sizeRange := by
    unfold sizeRange
    omega
  refine ⟨_, _, rfl, (h.resized_iff harray ?_ hrange).mpr ?_, rfl, ?_, ?_⟩
  · omega
  · omega
  · rw [length_resize]
    omega
  · show xs.length < 2 * vector.capacity
    omega

/-- **A vector without capacity** is full, and does not grow. -/
theorem vectorPushBack_zero (hcapacity : vector.capacity = 0) (hfull : vectorIsFull vector = true)
    (hpointer : vector.pointer = -1) (x : α) (zero : ZeroSize) : vectorPushBack vector x zero ≠ some (vector', 0) := by
  have hnew : (toSizeT (vector.capacity * growthFactor)).toNat = 0 := by rw [hcapacity]; rfl
  intro hpush
  rw [vectorPushBack, if_pos hfull, hnew] at hpush
  cases harray : vector.elements with
  | none =>
      simp only [vectorReserve, harray, bind, Option.bind_none] at hpush
      cases hpush
  | some array =>
      cases houtcome : outcome 0 zero with
      | block =>
          have hempty : (resize array (slots 0)).length = 0 := length_resize _ _
          rw [vectorReserve_block harray houtcome] at hpush
          simp only [bind, Option.bind_some, Int.zero_ne_one, if_false] at hpush
          rw [vectorWrite_outside rfl] at hpush
          · cases hpush
          · rw [hempty, hpointer]
            decide
      | null released =>
          rw [vectorReserve_null harray houtcome] at hpush
          simp only [bind, Option.bind_some, if_true, pure] at hpush
          cases hpush

/-- **A push**: the vector has the list with the element afterwards exactly if it fits. -/
theorem Holds.pushBack_iff (h : Holds vector xs) (hint : (xs.length + 1 : Int) < intMax) (x : α) (zero : ZeroSize) :
    (∃ vector', vectorPushBack vector x zero = some (vector', 0) ∧ Holds vector' (xs ++ [x])) ↔
      Fits vector (.pushBack x zero) := by
  have hpointer : vector.pointer + 1 = xs.length := by
    rw [h.pointer]
    omega
  cases hfull : vectorIsFull vector with
  | true =>
      have hlength := h.isFull_iff.mp hfull
      constructor
      · rintro ⟨vector', hpush, -⟩
        have hcapacity : vector.capacity ≠ 0 := by
          intro hzero
          refine vectorPushBack_zero hzero hfull ?_ x zero hpush
          omega
        cases harray : vector.elements with
        | none => exact absurd (h.released harray ▸ hlength).symm hcapacity
        | some array =>
            refine ⟨array, harray, hcapacity, fun hnot => ?_⟩
            rw [hfull] at hnot
            cases hnot
      · rintro ⟨array, harray, hcapacity, -⟩
        obtain ⟨vector₁, array₁, hreserve, hholds, harray₁, hroom, hcapacity₁⟩ := h.grow harray hlength hcapacity zero
        obtain ⟨vector', hwrite, hholds'⟩ := hholds.write harray₁ hroom hcapacity₁ hint x
        refine ⟨vector', ?_, hholds'⟩
        simp only [vectorPushBack, if_pos hfull, hreserve, bind, Option.bind_some, Int.zero_ne_one, if_false]
        exact hwrite
  | false =>
      have hlength : xs.length < vector.capacity := by
        refine Nat.lt_of_le_of_ne h.size fun heq => ?_
        rw [h.isFull_iff.mpr heq] at hfull
        cases hfull
      have hpush : vectorPushBack vector x zero = vectorWrite vector x := by
        rw [vectorPushBack, hfull]
        rfl
      rw [hpush]
      constructor
      · rintro ⟨vector', hwrite, -⟩
        cases harray : vector.elements with
        | none =>
            simp only [vectorWrite, harray, bind, Option.bind_none] at hwrite
            cases hwrite
        | some array =>
            refine ⟨array, harray, Nat.ne_of_gt (Nat.zero_lt_of_lt hlength), fun _ => ?_⟩
            by_contra houtside
            rw [vectorWrite_outside harray houtside] at hwrite
            cases hwrite
      · rintro ⟨array, harray, -, hroom⟩
        have hroom := hroom hfull
        rw [hpointer] at hroom
        exact h.write harray (Int.ofNat_lt.mp hroom) hlength hint x

/-- **An element** is in its slot. -/
theorem Holds.slot_of_index (h : Holds vector xs) (hindex : 1 ≤ index ∧ index ≤ xs.length) :
    ∃ rest, vector.elements = some (xs.map some ++ rest) ∧ index ≤ toSizeT (toSizeT vector.pointer + 1) ∧
      (toSizeT (index - 1)).toNat = index - 1 := by
  have hint := h.int
  have hpointer := h.pointer
  unfold intMax at hint
  cases harray : vector.elements with
  | none =>
      rw [h.released harray] at hindex
      exact absurd (Nat.le_trans hindex.1 hindex.2) (Nat.not_succ_le_zero 0)
  | some array =>
      obtain ⟨rest, rfl⟩ := h.array array harray
      refine ⟨rest, rfl, ?_, ?_⟩
      · unfold toSizeT
        omega
      · unfold toSizeT
        omega

theorem Holds.getElement (h : Holds vector xs) (hindex : 1 ≤ index ∧ index ≤ xs.length) :
    ∃ x, vectorGetElement vector index = some x ∧ xs[index - 1]? = some x := by
  obtain ⟨rest, harray, hassert, hslot⟩ := h.slot_of_index hindex
  have hinside : index - 1 < xs.length := by omega
  refine ⟨xs[index - 1], ?_, List.getElem?_eq_getElem hinside⟩
  have hget : (xs.map some ++ rest)[index - 1]? = some (some xs[index - 1]) := by
    rw [List.getElem?_append_left (by rw [List.length_map]; exact hinside), List.getElem?_map,
      List.getElem?_eq_getElem hinside, Option.map_some]
  simp only [vectorGetElement, harray, bind, Option.bind_some, if_pos hassert, hslot, hget]

theorem Holds.setElement (h : Holds vector xs) (hindex : 1 ≤ index ∧ index ≤ xs.length) (x : α) :
    ∃ vector', vectorSetElement vector x index = some vector' ∧ Holds vector' (xs.set (index - 1) x) := by
  obtain ⟨rest, harray, hassert, hslot⟩ := h.slot_of_index hindex
  have hinside : index - 1 < xs.length := by omega
  have hroom : index - 1 < (xs.map some ++ rest).length := by
    rw [List.length_append, List.length_map]
    omega
  let vector₁ : Vector α := { vector with elements := some ((xs.map some ++ rest).set (index - 1) (some x)) }
  refine ⟨vector₁, ?_, ⟨?_, ?_, h.range, ?_, ?_, ?_⟩⟩
  · simp only [vectorSetElement, harray, bind, Option.bind_some, hslot, if_pos (And.intro hassert hroom), pure]
    rfl
  · rw [List.length_set]
    exact h.pointer
  · rw [List.length_set]
    exact h.size
  · rw [List.length_set]
    exact h.int
  · rintro _ ⟨⟩
    rw [List.set_append_left _ _ (by rw [List.length_map]; exact hinside), List.map_set]
    exact List.prefix_append _ _
  · rintro ⟨⟩

theorem Holds.popBack (h : Holds vector xs) (hne : xs ≠ []) : Holds (vectorPopBack vector) xs.dropLast := by
  have hlength := List.length_pos_of_ne_nil hne
  have hpointer := h.pointer
  have hsize := h.size
  have hint := h.int
  refine ⟨?_, ?_, h.range, ?_, fun array harray => ?_, fun hreleased => absurd (h.released hreleased) hne⟩
  · show vector.pointer - 1 = _
    rw [List.length_dropLast]
    omega
  · rw [List.length_dropLast]
    exact Nat.le_trans (Nat.sub_le _ _) hsize
  · rw [List.length_dropLast]
    omega
  · have hfront : xs.dropLast <+: xs := List.dropLast_prefix xs
    exact (hfront.map some).trans (h.array array harray)

/-- **Shrinking** is a reservation for the elements. -/
theorem Holds.shrinkToFit_iff (h : Holds vector xs) (zero : ZeroSize) :
    (∃ vector', vectorShrinkToFit vector zero = some (vector', reserveStatus xs.length zero) ∧ Holds vector' xs) ↔
      Fits vector (.shrinkToFit zero) := by
  have hint := h.int
  have hpointer := h.pointer
  unfold intMax at hint
  have hshrink : vectorShrinkToFit vector zero = vectorReserve vector xs.length zero := by
    rw [← h.size_eq]
    rfl
  have hrange : xs.length < sizeRange := by
    unfold sizeRange
    omega
  have hroom : vector.pointer + 1 ≤ slots xs.length := by
    rw [slots_eq (by omega)]
    omega
  rw [hshrink, h.reserve_iff (Nat.le_refl _) hrange]
  exact exists_congr fun array => and_iff_left (Or.inl hroom)

/-! ## Room for more -/

/-- **The vector has the list**, and that many more elements can be pushed: its array has all the slots. -/
structure Room (vector : Vector α) (xs : List α) (room : Nat) : Prop where
  holds : Holds vector xs
  array : ∃ array, vector.elements = some array ∧ vector.capacity ≤ array.length
  capacity : vector.capacity ≠ 0
  int : (xs.length + room : Int) < intMax

theorem vectorWrite_slots {n : Int} (harray : vector.elements = some array)
    (h : vectorWrite vector x = some (vector', n)) :
    vector'.capacity = vector.capacity ∧ ∃ array', vector'.elements = some array' ∧ array'.length = array.length := by
  simp only [vectorWrite, harray, bind, Option.bind_some] at h
  split at h
  · obtain ⟨rfl, -⟩ := Prod.mk.inj (Option.some.inj h)
    exact ⟨rfl, _, rfl, List.length_set⟩
  · cases h

theorem Room.write {room : Nat} (h : Room vector xs (room + 1)) (hroom : xs.length < vector.capacity) (x : α) :
    ∃ vector', vectorWrite vector x = some (vector', 0) ∧ Room vector' (xs ++ [x]) room := by
  have hint := h.int
  obtain ⟨array, harray, hlength⟩ := h.array
  obtain ⟨vector', hwrite, hholds⟩ := h.holds.write harray (by omega) hroom (by omega) x
  obtain ⟨hcapacity, array', harray', hlength'⟩ := vectorWrite_slots harray hwrite
  refine ⟨vector', hwrite, hholds, ⟨array', harray', by omega⟩, by rw [hcapacity]; exact h.capacity, ?_⟩
  rw [List.length_append, List.length_singleton]
  omega

/-- **There is room**, and a push succeeds. -/
theorem Room.pushBack {room : Nat} (h : Room vector xs (room + 1)) (x : α) (zero : ZeroSize) :
    ∃ vector', vectorPushBack vector x zero = some (vector', 0) ∧ Room vector' (xs ++ [x]) room := by
  have hint := h.int
  have hcapacity := h.capacity
  obtain ⟨array, harray, hslots⟩ := h.array
  cases hfull : vectorIsFull vector with
  | true =>
      have hlength := h.holds.isFull_iff.mp hfull
      unfold intMax at hint
      obtain ⟨hnew, hslots', houtcome⟩ := h.holds.doubles hlength hcapacity zero
      have hholds : Holds { vector with elements := some (resize array (2 * vector.capacity)),
                                        capacity := 2 * vector.capacity } xs :=
        (h.holds.resized_iff harray (by omega) (by unfold sizeRange; omega)).mpr (by omega)
      have hroom : Room { vector with elements := some (resize array (2 * vector.capacity)),
                                      capacity := 2 * vector.capacity } xs (room + 1) := by
        refine ⟨hholds, ⟨_, rfl, Nat.le_of_eq (length_resize _ _).symm⟩, ?_, h.int⟩
        show 2 * vector.capacity ≠ 0
        omega
      obtain ⟨vector', hwrite, hroom'⟩ := hroom.write (by show xs.length < 2 * vector.capacity; omega) x
      refine ⟨vector', ?_, hroom'⟩
      simp only [vectorPushBack, if_pos hfull, hnew, vectorReserve_block harray houtcome, hslots', bind,
        Option.bind_some, Int.zero_ne_one, if_false]
      exact hwrite
  | false =>
      have hlength : xs.length < vector.capacity := by
        refine Nat.lt_of_le_of_ne h.holds.size fun heq => ?_
        rw [h.holds.isFull_iff.mpr heq] at hfull
        cases hfull
      rw [vectorPushBack, hfull]
      exact h.write hlength x

theorem Room.popBack {room : Nat} (h : Room vector (xs ++ [x]) room) : Room (vectorPopBack vector) xs (room + 1) := by
  have hint := h.int
  have hholds := h.holds.popBack (List.append_ne_nil_of_right_ne_nil _ (List.cons_ne_nil _ _))
  rw [List.dropLast_concat] at hholds
  rw [List.length_append, List.length_singleton] at hint
  exact ⟨hholds, h.array, h.capacity, by omega⟩

/-! ## The main result -/

theorem status_eq_iff (result : Option (Vector α × Int)) (vector' : Vector α) (n : Int) :
    (do let (vector, n) ← result; return (vector, .status n)) = some (vector', (.status n : Answer α)) ↔
      result = some (vector', n) := by
  cases result with
  | none => simp
  | some result => simp [Prod.ext_iff]

/-- **One call**: the vector does what the list does exactly if the call fits. -/
theorem Holds.follows_iff {call : Call α} (h : Holds vector xs) (hallowed : Allowed xs call) :
    Follows vector xs call ↔ Fits vector call := by
  cases call with
  | pushBack x zero =>
      rw [← h.pushBack_iff hallowed x zero]
      exact exists_congr fun vector' => and_congr_left' (status_eq_iff _ _ _)
  | popBack => exact iff_of_true ⟨_, rfl, h.popBack hallowed⟩ trivial
  | getElement index =>
      obtain ⟨x, hget, hx⟩ := h.getElement hallowed
      refine iff_of_true ⟨vector, ?_, h⟩ trivial
      simp only [exec, hget, bind, Option.bind_some, pure, answer, hx]
  | setElement x index =>
      obtain ⟨vector', hset, hholds⟩ := h.setElement hallowed x
      refine iff_of_true ⟨vector', ?_, hholds⟩ trivial
      simp only [exec, hset, bind, Option.bind_some, pure, answer]
  | size =>
      refine iff_of_true ⟨vector, ?_, h⟩ trivial
      simp only [exec, h.size_eq, answer]
  | reserve newCapacity zero =>
      refine Iff.trans ?_ (h.reserve_iff hallowed.1 hallowed.2 zero)
      exact exists_congr fun vector' => and_congr_left' (status_eq_iff _ _ _)
  | shrinkToFit zero =>
      rw [← h.shrinkToFit_iff zero]
      exact exists_congr fun vector' => and_congr_left' (status_eq_iff _ _ _)

/-- **A vector over any calls that fit**: it answers as the list does, its size is not more than its capacity, and it
has the list; and a call that does not fit is one after which this is not so. -/
theorem vector_holds_list (hcapacity : capacity < sizeRange) :
    Refines (vectorComponent α capacity) (listModel α) (fun vector xs call => Allowed xs call ∧ Fits vector call) ∧
      ∀ s, (sideBySide (vectorComponent α capacity) (listModel α)
          fun vector xs call => Allowed xs call ∧ Fits vector call).Reachable System.Any s →
        Holds s.1 s.2 ∧ ∀ call, Allowed s.2 call → (Follows s.1 s.2 call ↔ Fits s.1 call) := by
  have hinit : ∀ vector, (vectorComponent α capacity).init vector → Holds vector (listModel α).init :=
    fun vector hvector => Holds.create hcapacity hvector
  have hstep : ∀ (vector : Vector α) (xs : List α) (call : Call α), Holds vector xs →
      Allowed xs call ∧ Fits vector call → Follows vector xs call :=
    fun vector xs call h hcall => (h.follows_iff hcall.1).mpr hcall.2
  refine ⟨refines_of_simulation hinit hstep, fun s hs => ?_⟩
  have hholds := keeps_of_simulation hinit hstep hs
  exact ⟨hholds, fun call hallowed => hholds.follows_iff hallowed⟩

theorem vector_sample :
    Refines (vectorComponent Nat 5) (listModel Nat) (fun vector xs call => Allowed xs call ∧ Fits vector call) :=
  (vector_holds_list (by decide)).1

/-- A push on a vector that was created without capacity. -/
theorem vector_without_capacity : ¬ ∀ capacity < sizeRange,
    Refines (vectorComponent Nat capacity) (listModel Nat) fun _ => Allowed := by
  intro hrefines
  have hinit : (sideBySide (vectorComponent Nat 0) (listModel Nat) fun _ => Allowed).Reachable System.Any
      (⟨some [], 0, -1⟩, []) := .init ⟨rfl, rfl⟩
  have hallowed : Allowed ([] : List Nat) (.pushBack 7 .block) := by
    show (0 + 1 : Int) < intMax
    decide
  obtain ⟨vector', hexec⟩ := hrefines 0 (by decide) _ hinit (.pushBack 7 .block) hallowed
  cases hexec

end Workbench.DynamicVector
