import Workbench.Heap.Sifts
import Workbench.Lib.Comparator
import Workbench.Lib.System

/-!
# `Heap.Order` — pushes and pops on the heap

The heap is in order after each push and pop, and a pop takes off an element that is maximal. The size of the vector is
computed from an `int`, which is exceeded by a push onto 2147483647 elements.

## Main results
* `heapPush_eq`, `heapPop_ordered` — what the operations do;
* `heap_ordered` — the runs that never exceed the `int`, and that exceeding it is the only failure.
-/

namespace Workbench.HeapQueue

open BinaryHeap

variable {α : Type} {vector : Vector α} {heap : Heap α} {above : α → α → Prop} {xs init : List α} {x last : α} {k : Nat}

/-! ## The vector grows -/

/-- The elements are inside of the array. -/
structure Fits (vector : Vector α) : Prop where
  inside : vector.elements.length ≤ vector.capacity
  positive : 0 < vector.capacity
  small : vector.capacity ≤ 4294967296

theorem vectorIsFull_eq (h : Fits vector) :
    vectorIsFull vector = decide (vector.elements.length = vector.capacity) := by
  have hinside := h.inside
  have hpositive := h.positive
  have hsmall := h.small
  unfold vectorIsFull toSizeT Vector.pointer
  refine decide_eq_decide.mpr ⟨fun h => ?_, fun h => ?_⟩
  · omega
  · rw [h]

theorem vectorWrite_eq (vector : Vector α) (hlt : vector.elements.length < vector.capacity)
    (hsmall : vector.elements.length ≤ 2147483647) (x : α) :
    vectorWrite vector x = some ⟨vector.elements ++ [x], vector.capacity⟩ := by
  unfold vectorWrite Vector.pointer intMax
  rw [if_pos ⟨by omega, by omega⟩]

/-- There is a place more, in the array or in one that is twice as long. -/
theorem vectorPushBack_eq (h : Fits vector) (hsmall : vector.elements.length ≤ 2147483647) (x : α) :
    ∃ capacity, vectorPushBack vector x true = some (⟨vector.elements ++ [x], capacity⟩, 0) ∧
      Fits (⟨vector.elements ++ [x], capacity⟩ : Vector α) := by
  have hinside := h.inside
  have hpositive := h.positive
  have hcapacity := h.small
  have hlength : (vector.elements ++ [x]).length = vector.elements.length + 1 := List.length_append
  unfold vectorPushBack
  rw [vectorIsFull_eq h]
  by_cases hfull : vector.elements.length = vector.capacity
  · refine ⟨vector.capacity * 2, ?_, ?_, ?_, ?_⟩
    · have hwrite := vectorWrite_eq { vector with capacity := vector.capacity * 2 } (by dsimp; omega) hsmall x
      rw [decide_eq_true hfull]
      simp only [if_true, vectorReserve, if_false, hwrite, Option.map_some, Int.zero_ne_one]
    · dsimp
      omega
    · dsimp
      omega
    · dsimp
      omega
  · refine ⟨vector.capacity, ?_, ?_, hpositive, hcapacity⟩
    · have hwrite := vectorWrite_eq vector (by omega) hsmall x
      rw [decide_eq_false hfull]
      simp only [Bool.false_eq_true, if_false, hwrite, Option.map_some, Int.zero_ne_one]
    · dsimp
      omega

/-! ## The operations -/

/-- **A push** onto the heap, as far as the `int` goes. -/
theorem heapPush_eq (h : Fits heap.vector) (hsmall : heap.vector.elements.length ≤ 2147483647) (x : α) :
    ∃ grown : Heap α, grown.compareFunc = heap.compareFunc ∧
      (∀ ys, ys.length = heap.vector.elements.length + 1 → Fits (grown.withElements ys).vector) ∧
      heapPush heap x true =
        if heap.vector.elements.length = 2147483647 then none
        else (heapIfyUp (grown.withElements (heap.vector.elements ++ [x])) heap.vector.elements.length x).map
          fun heap => (heap, 0) := by
  obtain ⟨capacity, hpush, hfits⟩ := vectorPushBack_eq h hsmall x
  refine ⟨⟨⟨heap.vector.elements, capacity⟩, heap.compareFunc⟩, rfl, fun ys hys => ?_, ?_⟩
  · refine ⟨?_, hfits.positive, hfits.small⟩
    have hinside := hfits.inside
    rw [List.length_append, List.length_singleton] at hinside
    rwa [Heap.withElements_elements, hys]
  · unfold heapPush
    rw [hpush]
    simp only [bind, Option.bind_some, ne_eq, not_true, if_false]
    by_cases hmax : heap.vector.elements.length = 2147483647
    · have hsize : vectorSize (⟨heap.vector.elements ++ [x], capacity⟩ : Vector α) = none := by
        unfold vectorSize Vector.pointer intMax
        rw [if_neg]
        rw [List.length_append, List.length_singleton]
        omega
      rw [if_pos hmax, hsize]
      rfl
    · have hsize : vectorSize (⟨heap.vector.elements ++ [x], capacity⟩ : Vector α) =
          some (heap.vector.elements.length + 1) := by
        rw [vectorSize_eq] <;> rw [List.length_append, List.length_singleton]
        omega
      rw [if_neg hmax, hsize, Option.bind_some, Nat.add_sub_cancel]
      rw [Option.map_eq_bind]
      rfl

/-- The last element in the place of the one at `k`. -/
theorem dropLast_set (init : List α) (last : α) (h : k ≤ init.length) :
    ((init ++ [last]).set k last).dropLast = init.set k last := by
  rcases Nat.lt_or_eq_of_le h with hlt | rfl
  · rw [List.set_append_left _ _ hlt, List.dropLast_concat]
  · rw [List.set_append_right _ _ le_rfl, Nat.sub_self, List.set_cons_zero, List.dropLast_concat,
      List.set_eq_of_length_le le_rfl]

theorem perm_set_last (h : init[k]? = some x) : (init ++ [last]).Perm (x :: init.set k last) := by
  obtain ⟨hk, rfl⟩ := List.getElem?_eq_some_iff.mp h
  have hset := List.set_perm_cons_eraseIdx hk last
  have herase := List.getElem_cons_eraseIdx_perm hk
  refine (List.perm_append_singleton last init).trans ?_
  refine (herase.symm.cons last).trans ((List.Perm.swap _ _ _).trans ?_)
  exact hset.symm.cons _

theorem heapPop_eq (helements : heap.vector.elements = init ++ [last]) (hsmall : init.length < 2147483647) :
    heapPop heap = heapIfyDown (heap.withElements (init.set 0 last)) 0 last := by
  have hlength : heap.vector.elements.length = init.length + 1 := by
    rw [helements, List.length_append, List.length_singleton]
  have hsize : vectorSize heap.vector = some (init.length + 1) := by
    rw [vectorSize_eq (by omega), hlength]
  have hlast : vectorGetElement heap.vector (init.length + 1) = some last := by
    rw [vectorGetElement_succ, helements, List.getElem?_concat_length]
  unfold heapPop
  simp only [hsize, bind, Option.bind_some, hlast, vectorSetElement]
  rw [if_pos ⟨Nat.one_pos, by omega⟩, Option.bind_some]
  unfold vectorPopBack
  rw [helements, Nat.sub_self, dropLast_set _ _ (Nat.zero_le _)]
  rfl

/-- At the end of the vector nothing is moved. -/
theorem heapIfyDown_end (hsmall : xs.length ≤ 2147483647) (hend : xs.length ≤ k + 1) (data : α) :
    heapIfyDown (heap.withElements xs) k data = some (heap.withElements xs) := by
  have hsize : vectorSize (heap.withElements xs).vector = some xs.length := vectorSize_eq hsmall
  unfold heapIfyDown heapIfyDownLoop
  rw [getBigChild_eq hsmall]
  simp only [bind, Option.bind_some, hsize]
  rw [if_neg (by omega)]
  rfl

/-- The heap is in order and has the elements `xs`. -/
structure HeapOf (above : α → α → Prop) (cmp : α → α → Int) (heap : Heap α) (xs : List α) : Prop where
  compareFunc : heap.compareFunc = cmp
  fits : Fits heap.vector
  small : heap.vector.elements.length ≤ 2147483647
  perm : heap.vector.elements.Perm xs
  ordered : Ordered above heap.vector.elements

theorem heapOf_create (above : α → α → Prop) (cmp : α → α → Int) : HeapOf above cmp (heapCreate cmp) [] :=
  ⟨rfl, ⟨Nat.zero_le _, Nat.succ_pos 6, Nat.le_of_ble_eq_true rfl⟩, Nat.zero_le _, List.Perm.refl _, ordered_nil⟩

variable {cmp : α → α → Int}

/-- **A push** keeps the order, if the comparator decides above the new place as the order does. -/
theorem HeapOf.push (htrans : ∀ x y z, above x y → above y z → above x z) (h : HeapOf above cmp heap xs)
    (hlt : xs.length < 2147483647)
    (hrises : Rises above cmp heap.vector.elements heap.vector.elements.length x) :
    ∃ heap', heapPush heap x true = some (heap', 0) ∧ HeapOf above cmp heap' (x :: xs) := by
  obtain ⟨rfl, hfits, hsmall, hperm, hordered⟩ := h
  have hlength := hperm.length_eq
  obtain ⟨grown, hcmp, hgrown, hpush⟩ := heapPush_eq hfits hsmall x
  rw [if_neg (by omega)] at hpush
  have hnew : (heap.vector.elements ++ [x])[heap.vector.elements.length]? = some x := List.getElem?_concat_length
  have hold : ∀ i y, i ≠ heap.vector.elements.length → (heap.vector.elements ++ [x])[i]? = some y →
      heap.vector.elements[i]? = some y := by
    intro i y hi hy
    have hlt := (List.getElem?_eq_some_iff.mp hy).1
    rw [List.length_append, List.length_singleton] at hlt
    rwa [List.getElem?_append_left (by omega)] at hy
  have hrises' : Rises above grown.compareFunc (heap.vector.elements ++ [x]) heap.vector.elements.length x := by
    intro i p y hi hp hy
    rw [hcmp] at hi ⊢
    -- the way up leads through the old elements only
    have hclimbs : Climbs heap.compareFunc heap.vector.elements x heap.vector.elements.length i ∧
        i ≤ heap.vector.elements.length := by
      clear hp hy
      induction hi with
      | start => exact ⟨.start, le_rfl⟩
      | parent _ hp hy hlt ih =>
          have hpi := hp.lt
          exact ⟨.parent ih.1 hp (hold _ _ (by omega) hy) hlt, by omega⟩
    have hpi := hp.lt
    exact hrises i p y hclimbs.1 hp (hold p y (by omega) hy)
  obtain ⟨ys, hup, hys, hordered'⟩ := heapIfyUp_ordered grown htrans hrises' hnew (hordered.changed htrans hold)
    fun c hc y z _ hz => by
      have hclt := (List.getElem?_eq_some_iff.mp hz).1
      have hkc := hc.lt
      rw [List.length_append, List.length_singleton] at hclt
      omega
  have hlength' : ys.length = heap.vector.elements.length + 1 := by
    rw [hys.length_eq, List.length_append, List.length_singleton]
  refine ⟨grown.withElements ys, ?_, hcmp, hgrown ys hlength', ?_, ?_, hordered'⟩
  · rw [hpush, hup]
    rfl
  · rw [Heap.withElements_elements]
    omega
  · exact hys.trans ((List.perm_append_singleton x _).trans (hperm.cons x))

/-- The comparator decides as the order does on the way down of the last element from the root. -/
def Pops (above : α → α → Prop) (cmp : α → α → Int) (xs : List α) : Prop :=
  ∀ init last, xs = init ++ [last] → init ≠ [] → Sinks above cmp (init.set 0 last) 0 last

/-- **A pop** takes off the root, and keeps the order. -/
theorem HeapOf.pop (htrans : ∀ x y z, above x y → above y z → above x z) (h : HeapOf above cmp heap xs)
    (hne : xs ≠ []) (hpops : Pops above cmp heap.vector.elements) :
    ∃ heap' x ys, heapPeek heap = some x ∧ heapPop heap = some heap' ∧ xs.Perm (x :: ys) ∧
      HeapOf above cmp heap' ys := by
  obtain ⟨rfl, hfits, hsmall, hperm, hordered⟩ := h
  rcases List.eq_nil_or_concat heap.vector.elements with hnil | ⟨init, last, helements⟩
  · rw [hnil] at hperm
    exact absurd hperm.nil_eq.symm hne
  rw [List.concat_eq_append] at helements
  have hlength : heap.vector.elements.length = init.length + 1 := by
    rw [helements, List.length_append, List.length_singleton]
  have hinside := hfits.inside
  -- what is popped, and what it leaves
  have hkeeps : ∀ x ys, heap.vector.elements.Perm (x :: ys) → Ordered above ys →
      HeapOf above heap.compareFunc (heap.withElements ys) ys := by
    intro x ys hys hordered'
    have hlen : heap.vector.elements.length = ys.length + 1 := hys.length_eq
    refine ⟨rfl, ⟨?_, hfits.positive, hfits.small⟩, ?_, List.Perm.refl ys, hordered'⟩
    · rw [Heap.withElements_elements]
      exact (Nat.le_of_lt (by omega)).trans hinside
    · rw [Heap.withElements_elements]
      omega
  have hpeek : ∀ x, heap.vector.elements[0]? = some x → heapPeek heap = some x := fun x hx => hx
  rw [heapPop_eq helements (by omega)]
  cases init with
  | nil =>
      have hlast : heap.vector.elements = [last] := helements
      refine ⟨heap.withElements [], last, [], hpeek last (by rw [hlast]; rfl), ?_, ?_, ?_⟩
      · exact heapIfyDown_end (Nat.zero_le _) (Nat.zero_le _) last
      · exact hperm.symm.trans (by rw [hlast])
      · exact hkeeps last [] (by rw [hlast]) ordered_nil
  | cons x init =>
      have hbut : OrderedBut above (last :: init) 0 := by
        refine hordered.changed htrans fun i y hi hy => ?_
        obtain ⟨j, rfl⟩ := Nat.exists_eq_succ_of_ne_zero hi
        rw [List.getElem?_cons_succ] at hy
        rw [helements, List.cons_append, List.getElem?_cons_succ,
          List.getElem?_append_left (List.getElem?_eq_some_iff.mp hy).1, hy]
      have hset : (x :: init).set 0 last = last :: init := rfl
      obtain ⟨ys, hdown, hys, hordered'⟩ := heapIfyDown_ordered heap htrans
        (by rw [hset, List.length_cons] at *; omega) (hpops _ last helements (List.cons_ne_nil x init)) rfl hbut
        (fun p hp => absurd hp.lt (Nat.not_lt_zero p))
      have hall : heap.vector.elements.Perm (x :: ys) := by
        rw [helements]
        exact (perm_set_last (k := 0) rfl).trans (hys.symm.cons x)
      exact ⟨heap.withElements ys, x, ys, hpeek x (by rw [helements]; rfl), hdown, hperm.symm.trans hall,
        hkeeps x ys hall hordered'⟩

/-- The loop of the pop does not stay at a leaf. -/
def PopHalts (cmp : α → α → Int) (xs : List α) : Prop :=
  ∀ init last, xs = init ++ [last] → init ≠ [] → Halts cmp (init.set 0 last) 0 last

/-- Without an order that is to be kept. -/
theorem HeapOf.pop_halts (h : HeapOf above cmp heap xs) (hne : xs ≠ [])
    (hhalts : PopHalts cmp heap.vector.elements) :
    ∃ heap' x, heapPeek heap = some x ∧ heapPop heap = some heap' ∧
      heap.vector.elements.Perm (x :: heap'.vector.elements) := by
  have hany : HeapOf (fun _ _ => True) cmp heap xs := { h with ordered := fun _ _ _ _ _ _ _ => trivial }
  obtain ⟨heap', x, ys, hpeek, hpop, hxs, hheap'⟩ := hany.pop (fun _ _ _ _ _ => trivial) hne fun init last hxs hinit =>
    ⟨fun _ _ _ _ _ _ => ⟨fun _ => trivial, fun _ => trivial⟩, fun _ _ _ _ _ => ⟨fun _ => trivial, fun _ => trivial⟩,
      hhalts init last hxs hinit⟩
  exact ⟨heap', x, hpeek, hpop, (h.perm.trans hxs).trans (hheap'.perm.symm.cons x)⟩

/-- **When a pop ends.** -/
theorem HeapOf.pop_isSome_iff (h : HeapOf above cmp heap xs) (hne : xs ≠ []) :
    (heapPop heap).isSome ↔ PopHalts cmp heap.vector.elements := by
  constructor
  · intro hsome init last helements hinit
    have hsmall := h.small
    rw [helements, List.length_append, List.length_singleton] at hsmall
    rw [heapPop_eq helements (by omega)] at hsome
    have hdata : (init.set 0 last)[0]? = some last := by
      obtain ⟨x, init, rfl⟩ := List.exists_cons_of_ne_nil hinit
      rfl
    have hlength : (init.set 0 last).length ≤ 2147483647 := by
      rw [List.length_set]
      omega
    exact h.compareFunc ▸ (heapIfyDown_isSome_iff heap hlength hdata).mp hsome
  · intro hhalts
    obtain ⟨heap', x, -, hpop, -⟩ := h.pop_halts hne hhalts
    rw [hpop]
    rfl

/-- The root is what is peeked at. -/
theorem HeapOf.peek (hrefl : ∀ x, above x x) (htrans : ∀ x y z, above x y → above y z → above x z)
    (h : HeapOf above cmp heap xs) (hpeek : heapPeek heap = some x) : x ∈ xs ∧ ∀ y ∈ xs, above x y := by
  have hroot : heap.vector.elements[0]? = some x := hpeek
  refine ⟨h.perm.mem_iff.mp (List.mem_of_getElem? hroot), fun y hy => ?_⟩
  obtain ⟨i, hi⟩ := List.mem_iff_getElem?.mp (h.perm.mem_iff.mpr hy)
  exact h.ordered.root hrefl htrans hroot i y hi

/-! ## With a total preorder -/

/-- `x` compares `>=` to `y`. -/
def Above (cmp : Comparator α) (x y : α) : Prop := 0 ≤ cmp.compare x y

theorem above_refl (cmp : Comparator α) (x : α) : Above cmp x x := Int.le_of_eq (cmp.self x).symm

theorem above_trans (cmp : Comparator α) (x y z : α) (hxy : Above cmp x y) (hyz : Above cmp y z) : Above cmp x z :=
  cmp.trans x y z hxy hyz

theorem rises_comparator (cmp : Comparator α) (xs : List α) (k : Nat) (data : α) :
    Rises (Above cmp) cmp.compare xs k data :=
  fun _ _ _ _ _ _ => ⟨cmp.nonneg_of_neg, Int.not_lt.mp⟩

theorem sinks_comparator (cmp : Comparator α) (xs : List α) (k : Nat) (data : α) :
    Sinks (Above cmp) cmp.compare xs k data := by
  refine ⟨fun i x y _ _ _ => ?_, fun i x _ _ _ => ?_, fun i _ _ _ => ?_⟩
  · exact ⟨Int.le_of_lt, cmp.nonneg_of_not_pos⟩
  · exact ⟨Int.le_of_lt, cmp.nonneg_of_not_pos⟩
  · -- a leaf compares 0 to itself
    exact Int.not_lt.mpr (Int.le_of_eq (cmp.self data))

theorem pops_comparator (cmp : Comparator α) (xs : List α) : Pops (Above cmp) cmp.compare xs :=
  fun _ last _ _ => sinks_comparator cmp _ 0 last

/-- The heap, and the elements that were pushed and popped. -/
structure State (α : Type) where
  heap : Heap α
  pushed : List α
  popped : List α

inductive Call (α : Type)
  | push (data : α)
  | pop

/-- Memory is found, and only a heap with elements is popped. -/
def Enabled (s : State α) : Call α → Prop
  | .push _ => True
  | .pop => s.heap.vector.elements ≠ []

/-- What `HeapPop` takes off is what `HeapPeek` returned. -/
def exec (s : State α) : Call α → Option (State α)
  | .push data => do
      let (heap, _) ← heapPush s.heap data true
      return { s with heap, pushed := s.pushed ++ [data] }
  | .pop => do
      let data ← heapPeek s.heap
      let heap ← heapPop s.heap
      return { s with heap, popped := s.popped ++ [data] }

def heapSystem (cmp : Comparator α) : System (State α) (Call α) where
  init s := s.heap = heapCreate cmp.compare ∧ s.pushed = [] ∧ s.popped = []
  step s call s' := Enabled s call ∧ exec s call = some s'

/-- Nothing is pushed onto 2147483647 elements. -/
def SizeAllowed (s : State α) : Call α → Prop
  | .push _ => s.heap.vector.elements.length ≠ 2147483647
  | .pop => True

variable {order : Comparator α} {s s' : State α} {call : Call α}

/-- The heap is in order, and has what was pushed and not popped. -/
def InOrder (order : Comparator α) (s : State α) : Prop :=
  HeapOf (Above order) order.compare s.heap s.heap.vector.elements ∧
    (s.heap.vector.elements ++ s.popped).Perm s.pushed

/-- **A call returns** unless the size exceeds the `int`, and keeps the order. -/
theorem exec_inOrder (h : InOrder order s) (henabled : Enabled s call) :
    (¬ SizeAllowed s call → exec s call = none) ∧
      (SizeAllowed s call → ∃ s', exec s call = some s' ∧ InOrder order s') := by
  obtain ⟨hheap, hperm⟩ := h
  cases call with
  | push data =>
      constructor
      · intro hmax
        obtain ⟨grown, -, -, hpush⟩ := heapPush_eq hheap.fits hheap.small data
        rw [if_pos (not_not.mp hmax)] at hpush
        simp only [exec, hpush, bind, Option.bind_none]
      · intro hallowed
        have hlt := Nat.lt_of_le_of_ne hheap.small hallowed
        obtain ⟨heap, hpush, hheap'⟩ :=
          hheap.push (above_trans order) hlt (rises_comparator order _ _ data)
        refine ⟨{ s with heap, pushed := s.pushed ++ [data] }, ?_, ?_, ?_⟩
        · simp only [exec, hpush, bind, Option.bind_some, pure]
        · exact { hheap' with perm := List.Perm.refl _ }
        · refine (hheap'.perm.append_right _).trans ?_
          exact (hperm.cons data).trans (List.perm_append_singleton data _).symm
  | pop =>
      constructor
      · exact fun hno => absurd trivial hno
      · intro _
        obtain ⟨heap, x, ys, hpeek, hpop, hxs, hheap'⟩ :=
          hheap.pop (above_trans order) henabled (pops_comparator order _)
        refine ⟨{ s with heap, popped := s.popped ++ [x] }, ?_, ?_, ?_⟩
        · simp only [exec, hpeek, hpop, bind, Option.bind_some, pure]
        · exact { hheap' with perm := List.Perm.refl _ }
        · refine (hheap'.perm.append_right _).trans (List.Perm.trans ?_ hperm)
          rw [← List.append_assoc]
          refine (List.perm_append_singleton x _).trans ?_
          exact (hxs.append_right s.popped).symm

theorem reachable_inOrder (h : (heapSystem order).Reachable SizeAllowed s) : InOrder order s := by
  refine System.invariant ?_ ?_ h
  · rintro s ⟨hheap, hpushed, hpopped⟩
    have hcreate := heapOf_create (Above order) order.compare
    refine ⟨hheap ▸ hcreate, ?_⟩
    rw [hheap, hpushed, hpopped]
    exact List.Perm.refl []
  · rintro s call s' hinv hallowed ⟨henabled, hexec⟩
    obtain ⟨s'', hexec', hinv'⟩ := (exec_inOrder hinv henabled).2 hallowed
    obtain rfl := Option.some.inj (hexec.symm.trans hexec')
    exact hinv'

/-- **The heap**, in every run that pushes nothing onto 2147483647 elements:

    * each element compares `>=` to its children;
    * the elements are those that were pushed, without those that were popped;
    * what is peeked at is maximal, and what is popped is what is peeked at;
    * the next call returns, unless it pushes onto 2147483647 elements. -/
theorem heap_ordered (h : (heapSystem order).Reachable SizeAllowed s) :
    (∀ i x y, s.heap.vector.elements[i]? = some x →
      s.heap.vector.elements[2 * i + 1]? = some y ∨ s.heap.vector.elements[2 * i + 2]? = some y →
      0 ≤ order.compare x y) ∧
    (s.heap.vector.elements ++ s.popped).Perm s.pushed ∧
    (s.heap.vector.elements ≠ [] → ∃ x, heapPeek s.heap = some x ∧ x ∈ s.heap.vector.elements ∧
      ∀ y ∈ s.heap.vector.elements, 0 ≤ order.compare x y) ∧
    (∀ s', (heapSystem order).step s .pop s' → ∃ x, heapPeek s.heap = some x ∧
      s.heap.vector.elements.Perm (x :: s'.heap.vector.elements)) ∧
    ∀ call, Enabled s call → ((exec s call).isSome ↔ SizeAllowed s call) := by
  have hinv := reachable_inOrder h
  obtain ⟨hheap, hperm⟩ := id hinv
  refine ⟨fun i x y hx hy => ?_, hperm, fun hne => ?_, fun s' hstep => ?_, fun call henabled => ?_⟩
  · rcases hy with hy | hy
    · exact hheap.ordered i _ (.inl rfl) x y hx hy
    · exact hheap.ordered i _ (.inr rfl) x y hx hy
  · obtain ⟨heap, x, ys, hpeek, -⟩ := hheap.pop (above_trans order) hne (pops_comparator order _)
    exact ⟨x, hpeek, hheap.peek (above_refl order) (above_trans order) hpeek⟩
  · obtain ⟨henabled, hexec⟩ := hstep
    obtain ⟨heap, x, ys, hpeek, hpop, hxs, hheap'⟩ :=
      hheap.pop (above_trans order) henabled (pops_comparator order _)
    simp only [exec, hpeek, hpop, bind, Option.bind_some, pure, Option.some.injEq] at hexec
    subst hexec
    exact ⟨x, hpeek, hxs.trans (hheap'.perm.symm.cons x)⟩
  · obtain ⟨hfails, hreturns⟩ := exec_inOrder hinv henabled
    constructor
    · intro hsome
      by_contra hmax
      rw [hfails hmax] at hsome
      cases hsome
    · intro hallowed
      obtain ⟨s', hexec, -⟩ := hreturns hallowed
      rw [hexec]
      rfl

/-- As many elements as the `int` counts can be pushed. -/
theorem reachable_pushes (order : Comparator α) (x : α) {n : Nat} (hn : n ≤ 2147483647) :
    ∃ s, (heapSystem order).Reachable SizeAllowed s ∧ s.heap.vector.elements.length = n ∧
      s.pushed = List.replicate n x := by
  induction n with
  | zero => exact ⟨⟨heapCreate order.compare, [], []⟩, .init ⟨rfl, rfl, rfl⟩, rfl, rfl⟩
  | succ n ih =>
      obtain ⟨s, hreach, hlength, hpushed⟩ := ih (by omega)
      obtain ⟨hheap, -⟩ := reachable_inOrder hreach
      have hallowed : SizeAllowed s (.push x) := by
        show s.heap.vector.elements.length ≠ 2147483647
        omega
      obtain ⟨heap, hpush, hheap'⟩ := hheap.push (above_trans order)
        (Nat.lt_of_le_of_ne hheap.small hallowed) (rises_comparator order _ _ x)
      have hexec : exec s (.push x) = some { s with heap, pushed := s.pushed ++ [x] } := by
        simp only [exec, hpush, bind, Option.bind_some, pure]
      refine ⟨_, hreach.step hallowed ⟨trivial, hexec⟩, ?_, ?_⟩
      · rw [hheap'.perm.length_eq, List.length_cons, hlength]
      · rw [hpushed, List.replicate_succ']

/-- After 2147483647 pushes the next one overflows the `int`. -/
theorem push_overflows : ∃ s : State Int, (heapSystem .byDifference).Reachable System.Any s ∧
    Enabled s (.push 0) ∧ exec s (.push 0) = none := by
  obtain ⟨s, hreach, hlength, -⟩ := reachable_pushes .byDifference 0 (Nat.le_refl 2147483647)
  refine ⟨s, hreach.mono fun _ _ _ => trivial, trivial, ?_⟩
  have henabled : Enabled s (.push 0) := trivial
  exact (exec_inOrder (reachable_inOrder hreach) henabled).1 (not_not.mpr hlength)

/-- Two elements are pushed, and one that is maximal is peeked at. -/
theorem heap_ordered_sample : ∃ s : State Int, s.pushed = [5, 5] ∧ (s.heap.vector.elements ++ s.popped).Perm s.pushed ∧
    (s.heap.vector.elements ≠ [] → ∃ x, heapPeek s.heap = some x ∧ x ∈ s.heap.vector.elements ∧
      ∀ y ∈ s.heap.vector.elements, 0 ≤ x - y) := by
  obtain ⟨s, hreach, -, hpushed⟩ := reachable_pushes .byDifference 5 (show 2 ≤ 2147483647 by decide)
  obtain ⟨-, hperm, hpeek, -⟩ := heap_ordered hreach
  exact ⟨s, hpushed, hperm, hpeek⟩

end Workbench.HeapQueue
