import Mathlib.Data.List.TakeWhile
import Workbench.Linked.Dlist

/-!
# `Hash.Hash` — the hash table

A table is an array of doubly linked lists. The data of a user are found by a match function in the list at their hash.
An index outside the array, and an assertion that fails, are `none`.

## Main results
* `match_cases` — a list has no match, or a first one;
* `dlistFind_none`, `dlistFind_some` — where the walk through it ends.
-/

namespace Workbench.Hash

open DoublyLinked

structure HashTable (α : Type) where
  hashFunc : α → Nat
  matchFunc : α → α → Int
  capacity : Nat
  hashArr : List (Dlist α)

variable {α : Type}

/-- All allocations have memory. -/
def hashCreate (hashFunc : α → Nat) (isMatchFunc : α → α → Int) (capacity : Nat) : HashTable α :=
  ⟨hashFunc, isMatchFunc, capacity, List.replicate capacity dlistCreate⟩

/-- The loop of `HashSize`, with the lists that are left. -/
def hashSizeLoop (hashTable : HashTable α) : Nat → Nat → Nat → Option Nat
  | 0, _, count => some count
  | left + 1, i, count => do
      let list ← hashTable.hashArr[i]?
      let size ← dlistSize list
      hashSizeLoop hashTable left (i + 1) (count + size)

def hashSize (hashTable : HashTable α) : Option Nat := hashSizeLoop hashTable hashTable.capacity 0 0

def hashIsEmpty (hashTable : HashTable α) : Option Bool := do
  let size ← hashSize hashTable
  return 0 = size

/-- `hash_arr[index]` is changed in place. -/
def setList (hashTable : HashTable α) (index : Nat) (list : Dlist α) : HashTable α :=
  { hashTable with hashArr := hashTable.hashArr.set index list }

/-- `new` is the address that `malloc` returns. -/
def hashInsert (hashTable : HashTable α) (data : α) (new : Option Nat) : Option (HashTable α × Int) := do
  let index := hashTable.hashFunc data
  let list ← hashTable.hashArr[index]?
  let first ← dlistBegin list
  let iter ← dlistFind list first (dlistEnd list) hashTable.matchFunc data
  if dlistEnd list ≠ iter then do
    let list ← dlistSetData list iter data
    return (setList hashTable index list, 1)
  else do
    let (list, iter) ← dlistPushBack list data new
    return (setList hashTable index list, if dlistEnd list = iter then 0 else 1)

/-- The outer `none` is a failure, the inner one is `NULL`. -/
def findData (hashTable : HashTable α) (data : α) : Option (Option Iter) := do
  let list ← hashTable.hashArr[hashTable.hashFunc data]?
  let first ← dlistBegin list
  let iter ← dlistFind list first (dlistEnd list) hashTable.matchFunc data
  return if iter = dlistEnd list then none else some iter

def hashRemove (hashTable : HashTable α) (data : α) : Option (HashTable α) := do
  let index := hashTable.hashFunc data
  let iter ← findData hashTable data
  match iter with
  | none => return hashTable
  | some iter => do
      let list ← hashTable.hashArr[index]?
      let (list, _) ← dlistRemove list iter
      return setList hashTable index list

def hashFind (hashTable : HashTable α) (data : α) : Option (Option α) := do
  let iter ← findData hashTable data
  match iter with
  | none => return none
  | some iter => do
      let list ← hashTable.hashArr[hashTable.hashFunc data]?
      let found ← dlistGetData list iter
      return some found

/-! ## One list -/

variable {list : Dlist α} {xs before rest : List (Nat × α)} {e : Nat × α} {isMatch : α → α → Int} {data : α}

/-- A list has no match, or a first one. -/
theorem match_cases (isMatch : α → α → Int) (data : α) (xs : List (Nat × α)) :
    (∀ e ∈ xs, isMatch e.2 data = 0) ∨
      ∃ before e rest, xs = before ++ e :: rest ∧ (∀ u ∈ before, isMatch u.2 data = 0) ∧ isMatch e.2 data ≠ 0 := by
  induction xs with
  | nil => exact .inl fun e he => absurd he List.not_mem_nil
  | cons x xs ih =>
      by_cases hx : isMatch x.2 data = 0
      · rcases ih with hnone | ⟨before, e, rest, rfl, hbefore, he⟩
        · exact .inl fun e he => (List.mem_cons.mp he).elim (fun heq => heq ▸ hx) (hnone e)
        · refine .inr ⟨x :: before, e, rest, rfl, fun u hu => ?_, he⟩
          exact (List.mem_cons.mp hu).elim (fun heq => heq ▸ hx) (hbefore u)
      · exact .inr ⟨[], x, xs, rfl, fun u hu => absurd hu List.not_mem_nil, hx⟩

/-- **The walk ends** at the second dummy, if nothing matches. -/
theorem dlistFind_none (h : Holds list xs) (hnone : ∀ e ∈ xs, isMatch e.2 data = 0) :
    dlistFind list (first xs) (dlistEnd list) isMatch data = some .endDummy := by
  have hwalk := h.walk_all fun d => decide (isMatch d data = 0)
  have hall : xs.dropWhile (fun e => decide (isMatch e.2 data = 0)) = [] :=
    List.dropWhile_eq_nil_iff.mpr fun e he => decide_eq_true (hnone e he)
  rw [hall] at hwalk
  exact hwalk

/-- **The walk ends** at the first match. -/
theorem dlistFind_some (h : Holds list (before ++ e :: rest)) (hbefore : ∀ u ∈ before, isMatch u.2 data = 0)
    (he : isMatch e.2 data ≠ 0) :
    dlistFind list (first (before ++ e :: rest)) (dlistEnd list) isMatch data = some (.node e.1) := by
  have hwalk := h.walk_all fun d => decide (isMatch d data = 0)
  have hdrop : (before ++ e :: rest).dropWhile (fun e => decide (isMatch e.2 data = 0)) = e :: rest := by
    rw [List.dropWhile_append_of_pos fun u hu => decide_eq_true (hbefore u hu)]
    exact List.dropWhile_cons_of_neg (by simpa using he)
  rw [hdrop] at hwalk
  exact hwalk

end Workbench.Hash
