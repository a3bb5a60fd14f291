import Workbench.Linked.Dlist
import Mathlib.Data.Fintype.EquivFin

/-!
# `Linked.Pqueue` — the sorted list and the priority queue on it

The sorted list is a doubly linked list with a comparator, and the priority queue is a sorted list. An iterator of the
sorted list is one of the linked list.

## Main results
* `Contains` — the data of a queue, from the front;
* `Contains.enpqueue`, `Contains.depqueue`, `Contains.erase`, `Contains.clear` — what the calls do with them.
-/

namespace Workbench.DoublyLinked

variable {α κ : Type}

/-! ## The sorted list -/

structure SortedList (α : Type) where
  sortedList : Dlist α
  sortFunc : α → α → Int

def sortedListCreate (sortFunc : α → α → Int) : SortedList α := ⟨dlistCreate, sortFunc⟩

def sortedListIsEmpty (list : SortedList α) : Option Bool := dlistIsEmpty list.sortedList

def sortedListSize (list : SortedList α) : Option Nat := dlistSize list.sortedList

def sortedListBegin (list : SortedList α) : Option Iter := dlistBegin list.sortedList

def sortedListEnd (list : SortedList α) : Iter := dlistEnd list.sortedList

def sortedListGetData (list : SortedList α) (iter : Iter) : Option α := dlistGetData list.sortedList iter

def sortedListInsert (list : SortedList α) (data : α) (new : Option Nat) : Option (SortedList α × Iter) := do
  let runner ← sortedListBegin list
  let runner ← walk list.sortedList (sortedListEnd list) (fun element => 0 ≤ list.sortFunc element data)
    list.sortedList.memory.length runner
  let (sortedList, iter) ← dlistInsert list.sortedList runner data new
  return ({ list with sortedList }, iter)

def sortedListRemove (list : SortedList α) (iter : Iter) : Option (SortedList α × Iter) := do
  let (sortedList, iter) ← dlistRemove list.sortedList iter
  return ({ list with sortedList }, iter)

def sortedListPopFront (list : SortedList α) : Option (SortedList α) := do
  let first ← dlistBegin list.sortedList
  let (sortedList, _) ← dlistRemove list.sortedList first
  return { list with sortedList }

def sortedListFindIf (list : SortedList α) (from_ to_ : Iter) (searchFunc : α → κ → Int) (dataToCompare : κ) :
    Option Iter :=
  walk list.sortedList to_ (fun data => searchFunc data dataToCompare ≠ 0) list.sortedList.memory.length from_

/-! ## The priority queue -/

structure PQueue (α : Type) where
  queue : SortedList α

def pqCreate (compareFunc : α → α → Int) : PQueue α := ⟨sortedListCreate compareFunc⟩

def pqSize (pqueue : PQueue α) : Option Nat := sortedListSize pqueue.queue

def pqIsEmpty (pqueue : PQueue α) : Option Bool := sortedListIsEmpty pqueue.queue

/-- The return value is 1 if the iterator is the end of the list. -/
def pqEnpqueue (pqueue : PQueue α) (data : α) (new : Option Nat) : Option (PQueue α × Int) := do
  let (queue, iter) ← sortedListInsert pqueue.queue data new
  return (⟨queue⟩, if sortedListEnd queue = iter then 1 else 0)

def pqPeek (pqueue : PQueue α) : Option α := do
  let first ← sortedListBegin pqueue.queue
  sortedListGetData pqueue.queue first

def pqDepqueue (pqueue : PQueue α) : Option (PQueue α × α) := do
  let data ← pqPeek pqueue
  let queue ← sortedListPopFront pqueue.queue
  return (⟨queue⟩, data)

def wrapIsMatch (isMatch : α → κ → Int) (data : α) (dataToCompare : κ) : Int :=
  if isMatch data dataToCompare = 0 then 1 else 0

/-- The data that were erased, `none` for `NULL`. -/
def pqErase (pqueue : PQueue α) (isMatch : α → κ → Int) (dataToCompare : κ) : Option (PQueue α × Option α) := do
  let first ← sortedListBegin pqueue.queue
  let removeIter ← sortedListFindIf pqueue.queue first (sortedListEnd pqueue.queue) (wrapIsMatch isMatch) dataToCompare
  if sortedListEnd pqueue.queue ≠ removeIter then
    let data ← sortedListGetData pqueue.queue removeIter
    let (queue, _) ← sortedListRemove pqueue.queue removeIter
    return (⟨queue⟩, some data)
  else
    return (pqueue, none)

/-- The loop of `pqClear`. -/
def pqClearLoop : Nat → PQueue α → Option (PQueue α)
  | 0, _ => none
  | turns + 1, pqueue => do
      if ← pqIsEmpty pqueue then return pqueue
      else
        let (pqueue, _) ← pqDepqueue pqueue
        pqClearLoop turns pqueue

def pqClear (pqueue : PQueue α) : Option (PQueue α) := pqClearLoop pqueue.queue.sortedList.memory.length pqueue

/-! ## What a queue contains -/

/-- The data of the queue, from the front. -/
def Contains (compareFunc : α → α → Int) (pqueue : PQueue α) (xs : List α) : Prop :=
  pqueue.queue.sortFunc = compareFunc ∧ ∃ cells, Holds pqueue.queue.sortedList cells ∧ cells.map Prod.snd = xs

/-- No node has the address. -/
def Unused (pqueue : PQueue α) (address : Nat) : Prop := deref pqueue.queue.sortedList (.node address) = none

/-- There is always an address that no node has. -/
theorem exists_unused (pqueue : PQueue α) : ∃ address, Unused pqueue address := by
  let addresses : List Nat := (Dict.keys pqueue.queue.sortedList.memory).filterMap fun iter =>
    match iter with
    | .node address => some address
    | _ => none
  obtain ⟨address, hnew⟩ := Infinite.exists_notMem_finset addresses.toFinset
  refine ⟨address, Dict.get?_eq_none_iff.mpr fun hmem => hnew ?_⟩
  rw [List.mem_toFinset, List.mem_filterMap]
  exact ⟨_, hmem, rfl⟩

/-- The place of new data: after all that the comparator puts in front of it. -/
def insertSorted (compareFunc : α → α → Int) (data : α) (xs : List α) : List α :=
  xs.takeWhile (fun element => decide (0 ≤ compareFunc element data)) ++
    data :: xs.dropWhile (fun element => decide (0 ≤ compareFunc element data))

theorem insertSorted_perm (compareFunc : α → α → Int) (data : α) (xs : List α) :
    (insertSorted compareFunc data xs).Perm (data :: xs) := by
  refine List.perm_middle.trans (List.Perm.cons data ?_)
  rw [List.takeWhile_append_dropWhile]

variable {compareFunc : α → α → Int} {pqueue : PQueue α} {xs : List α} {x data : α} {address : Nat}

theorem contains_create (compareFunc : α → α → Int) : Contains compareFunc (pqCreate compareFunc) [] :=
  ⟨rfl, [], holds_create, rfl⟩

theorem Contains.isEmpty (h : Contains compareFunc pqueue xs) : pqIsEmpty pqueue = some xs.isEmpty := by
  obtain ⟨-, cells, hcells, rfl⟩ := h
  rw [List.isEmpty_map]
  exact hcells.isEmpty

theorem Contains.size (h : Contains compareFunc pqueue xs) : pqSize pqueue = some xs.length := by
  obtain ⟨-, cells, hcells, rfl⟩ := h
  rw [List.length_map]
  exact hcells.size

/-- A walk splits the nodes as it splits the data. -/
theorem span_cells (goesOn : α → Bool) (cells : List (Nat × α)) :
    ∃ before rest, cells = before ++ rest ∧ cells.dropWhile (fun e => goesOn e.2) = rest ∧
      before.map Prod.snd = (cells.map Prod.snd).takeWhile goesOn ∧
      rest.map Prod.snd = (cells.map Prod.snd).dropWhile goesOn := by
  refine ⟨_, _, List.takeWhile_append_dropWhile.symm, rfl, ?_, ?_⟩
  · rw [List.takeWhile_map]
    rfl
  · rw [List.dropWhile_map]
    rfl

/-- **New data** get their place. -/
theorem Contains.enpqueue (h : Contains compareFunc pqueue xs) (hunused : Unused pqueue address) (data : α) :
    ∃ pqueue', pqEnpqueue pqueue data (some address) = some (pqueue', 0) ∧
      Contains compareFunc pqueue' (insertSorted compareFunc data xs) := by
  obtain ⟨rfl, cells, hcells, rfl⟩ := h
  obtain ⟨before, rest, hsplit, hdrop, hbefore, hrest⟩ :=
    span_cells (fun element => decide (0 ≤ pqueue.queue.sortFunc element data)) cells
  have hwalk := hcells.walk_all fun element => decide (0 ≤ pqueue.queue.sortFunc element data)
  have hbegin := hcells.begin
  rw [hdrop] at hwalk
  have hparts : Holds pqueue.queue.sortedList (before ++ rest) := hsplit ▸ hcells
  obtain ⟨list', hinsert, hcells'⟩ := hparts.insert hunused data
  have hlist : sortedListInsert pqueue.queue data (some address) =
      some (⟨list', pqueue.queue.sortFunc⟩, .node address) := by
    simp only [sortedListInsert, sortedListBegin, sortedListEnd, dlistEnd, hbegin, hwalk, hinsert, bind,
      Option.bind_some, pure]
  refine ⟨⟨⟨list', pqueue.queue.sortFunc⟩⟩, ?_, rfl, _, hcells', ?_⟩
  · unfold pqEnpqueue
    rw [hlist]
    rfl
  · rw [List.map_append, List.map_cons, hbefore, hrest]
    rfl

/-- Without memory nothing changes. -/
theorem Contains.enpqueue_fails (h : Contains compareFunc pqueue xs) (data : α) :
    pqEnpqueue pqueue data none = some (pqueue, 1) := by
  obtain ⟨rfl, cells, hcells, rfl⟩ := h
  have hwalk := hcells.walk_all fun element => decide (0 ≤ pqueue.queue.sortFunc element data)
  have hlist : sortedListInsert pqueue.queue data none = some (pqueue.queue, .endDummy) := by
    simp only [sortedListInsert, sortedListBegin, sortedListEnd, dlistEnd, hcells.begin, hwalk, dlistInsert, bind,
      Option.bind_some, pure]
  unfold pqEnpqueue
  rw [hlist]
  rfl

/-- **The front** is what is peeked at, and taken off. -/
theorem Contains.depqueue (h : Contains compareFunc pqueue (x :: xs)) :
    pqPeek pqueue = some x ∧
      ∃ pqueue', pqDepqueue pqueue = some (pqueue', x) ∧ Contains compareFunc pqueue' xs := by
  obtain ⟨rfl, cells, hcells, hdata⟩ := h
  obtain ⟨e, rest, rfl, rfl, rfl⟩ := List.map_eq_cons_iff.mp hdata
  have hall : Holds pqueue.queue.sortedList ([] ++ e :: rest) := hcells
  obtain ⟨-, -, hget⟩ := hall.node
  obtain ⟨list', hremove, hrest, -⟩ := hall.remove
  have hpeek : pqPeek pqueue = some e.2 := by
    simp only [pqPeek, sortedListBegin, hcells.begin, sortedListGetData, first_cons, hget, bind, Option.bind_some]
  refine ⟨hpeek, ⟨⟨list', pqueue.queue.sortFunc⟩⟩, ?_, rfl, rest, hrest, rfl⟩
  simp only [pqDepqueue, hpeek, sortedListPopFront, hcells.begin, first_cons, hremove, bind, Option.bind_some, pure]

theorem Contains.clearLoop {turns : Nat} : ∀ {xs : List α} {pqueue : PQueue α}, Contains compareFunc pqueue xs →
    xs.length < turns → ∃ pqueue', pqClearLoop turns pqueue = some pqueue' ∧ Contains compareFunc pqueue' [] := by
  induction turns with
  | zero => exact fun _ hturns => absurd hturns (Nat.not_lt_zero _)
  | succ turns ih =>
      intro xs pqueue h hturns
      cases xs with
      | nil => exact ⟨pqueue, by simp [pqClearLoop, h.isEmpty], h⟩
      | cons x xs =>
          obtain ⟨-, pqueue', hdepqueue, hrest⟩ := h.depqueue
          obtain ⟨pqueue'', hclear, hempty⟩ := ih hrest (Nat.lt_of_succ_lt_succ hturns)
          exact ⟨pqueue'', by simp [pqClearLoop, h.isEmpty, hdepqueue, hclear], hempty⟩

/-- **All data** are taken off. -/
theorem Contains.clear (h : Contains compareFunc pqueue xs) :
    ∃ pqueue', pqClear pqueue = some pqueue' ∧ Contains compareFunc pqueue' [] := by
  have hlength : xs.length < pqueue.queue.sortedList.memory.length := by
    obtain ⟨-, cells, hcells, rfl⟩ := h
    rw [List.length_map]
    exact hcells.length_lt
  exact h.clearLoop hlength

/-- The data that a search for the key finds. -/
def isFound (isMatch : α → κ → Int) (key : κ) (x : α) : Bool := isMatch x key ≠ 0

/-- The list of the nodes is searched as the list of the data is. -/
theorem Holds.findIf {list : SortedList α} {cells : List (Nat × α)} (h : Holds list.sortedList cells)
    (isMatch : α → κ → Int) (key : κ) :
    sortedListFindIf list (first cells) .endDummy (wrapIsMatch isMatch) key =
      some (first (cells.dropWhile (fun e => !isFound isMatch key e.2))) := by
  have hwrap : (fun data => decide (wrapIsMatch isMatch data key ≠ 0)) = fun x => !isFound isMatch key x := by
    funext data
    unfold wrapIsMatch isFound
    by_cases hmatch : isMatch data key = 0 <;> simp [hmatch]
  unfold sortedListFindIf
  rw [hwrap]
  exact h.walk_all _

/-- **The first that is found** is erased. -/
theorem Contains.erase (h : Contains compareFunc pqueue xs) (isMatch : α → κ → Int) (key : κ) :
    ∃ pqueue', pqErase pqueue isMatch key = some (pqueue', xs.find? (isFound isMatch key)) ∧
      Contains compareFunc pqueue' (xs.eraseP (isFound isMatch key)) := by
  obtain ⟨rfl, cells, hcells, rfl⟩ := h
  have hfind := hcells.findIf isMatch key
  obtain ⟨before, rest, hsplit, hdrop, hbefore, -⟩ := span_cells (fun x => !isFound isMatch key x) cells
  rw [hdrop] at hfind
  -- nothing in front of the place is found
  have hnone : ∀ x ∈ before.map Prod.snd, ¬ isFound isMatch key x = true := by
    intro x hx
    rw [hbefore] at hx
    simpa using List.all_eq_true.mp List.all_takeWhile x hx
  cases rest with
  | nil =>
      rw [List.append_nil] at hsplit
      subst hsplit
      refine ⟨pqueue, ?_, rfl, cells, hcells, ?_⟩
      · simp only [pqErase, sortedListBegin, sortedListEnd, dlistEnd, hcells.begin, hfind, first_nil, bind,
          Option.bind_some, pure, ne_eq, not_true, if_false]
        rw [List.find?_eq_none.mpr hnone]
      · rw [List.eraseP_of_forall_not hnone]
  | cons e rest =>
      have hmatch : isFound isMatch key e.2 = true := by
        have hhead := List.head?_dropWhile_not (fun e : Nat × α => !isFound isMatch key e.2) cells
        rw [hdrop] at hhead
        simpa using hhead
      subst hsplit
      obtain ⟨-, -, hget⟩ := hcells.node
      obtain ⟨list', hremove, hcells', -⟩ := hcells.remove
      refine ⟨⟨⟨list', pqueue.queue.sortFunc⟩⟩, ?_, rfl, before ++ rest, hcells', ?_⟩
      · simp only [pqErase, sortedListBegin, sortedListEnd, dlistEnd, hcells.begin, hfind, first_cons, bind,
          Option.bind_some, pure, ne_eq, reduceCtorEq, not_false_iff, if_true, sortedListGetData, hget,
          sortedListRemove, hremove]
        rw [List.map_append, List.find?_append, List.find?_eq_none.mpr hnone, List.map_cons,
          List.find?_cons_of_pos hmatch]
        rfl
      · rw [List.map_append, List.map_append, List.map_cons, List.eraseP_append_right _ hnone,
          List.eraseP_cons_of_pos hmatch]

end Workbench.DoublyLinked
