import Workbench.Hash.Hash
import Workbench.Lib.Blocks

/-!
# `Hash.Create` — the creation of a table in memory

`malloc` may fail at any call. The table, its array and its lists are blocks. `InitHashArray` releases what there is
when a list cannot be created, the table included, and says so by what it returns. `HashCreate` does not look at it.

## Main results
* `initLoop_succeeds`, `initLoop_outside` — the loop, with room for all lists in the array and without;
* `destroyBySize_releases` — what `DestroyBySize` releases;
* `hashDestroy_releases` — what is created can be released;
* `hashCreate_dangling` — what is returned when a list cannot be created;
* `hashCreate_iff` — for which failures and capacities `HashCreate` does what it should.
-/

namespace Workbench.Hash.Create

open DoublyLinked

variable {α : Type}

/-! ## Memory -/

/-- The address of a block, or `NULL`. -/
abbrev Ptr : Type := Option Nat

/-- An entry of an array is `none` until it is assigned to. A list has its nodes in a memory of its own. -/
inductive Block (α : Type)
  | table (hashFunc : α → Nat) (matchFunc : α → α → Int) (capacity : Nat) (hashArr : Ptr)
  | array (entries : List (Option Ptr))
  | list (list : Dlist α)

abbrev Memory (α : Type) := Blocks (Block α)

/-- `hash_table->capacity` and `hash_table->hash_arr`. -/
def derefTable (memory : Memory α) (hashTable : Nat) : Option (Nat × Ptr) :=
  match memory.block hashTable with
  | some (.table _ _ capacity hashArr) => some (capacity, hashArr)
  | _ => none

/-- `hash_table->hash_arr = hash_arr`. -/
def setHashArr (memory : Memory α) (hashTable : Nat) (hashArr : Ptr) : Option (Memory α) :=
  match memory.block hashTable with
  | some (.table hashFunc matchFunc capacity _) =>
      some (memory.write hashTable (.table hashFunc matchFunc capacity hashArr))
  | _ => none

/-- The array of a table. -/
def derefArray (memory : Memory α) (hashTable : Nat) : Option (Nat × List (Option Ptr)) := do
  let (_, hashArr) ← derefTable memory hashTable
  let address ← hashArr
  match memory.block address with
  | some (.array entries) => some (address, entries)
  | _ => none

/-- `hash_table->hash_arr[i]`. -/
def getEntry (memory : Memory α) (hashTable i : Nat) : Option Ptr := do
  let (_, entries) ← derefArray memory hashTable
  let entry ← entries[i]?
  entry

/-- `hash_table->hash_arr[i] = list`. -/
def setEntry (memory : Memory α) (hashTable i : Nat) (list : Ptr) : Option (Memory α) := do
  let (address, entries) ← derefArray memory hashTable
  if i < entries.length then
    some (memory.write address (.array (entries.set i (some list))))
  else
    none

def derefDlist (memory : Memory α) (list : Nat) : Option (Dlist α) :=
  match memory.block list with
  | some (.list list) => some list
  | _ => none

/-! ## The functions -/

def dlistCreate (fails : Nat → Bool) (memory : Memory α) : Ptr × Memory α :=
  Blocks.malloc fails (.list DoublyLinked.dlistCreate) memory

/-- The loop of `DlistDestroy`. A dummy is a part of its list, and cannot be released. -/
def dlistDestroyLoop : Nat → Dlist α → Iter → Option (Dlist α)
  | 0, _, _ => none
  | turns + 1, list, nodeRunner => do
      let node ← deref list nodeRunner
      match node.nextNode with
      | none => some list
      | some buffer =>
          match nodeRunner with
          | .beginDummy => none
          | .endDummy => none
          | .node address => dlistDestroyLoop turns ⟨Dict.erase list.memory (.node address)⟩ buffer

def dlistDestroy (memory : Memory α) (list : Nat) : Option (Memory α) := do
  let dlist ← derefDlist memory list
  let nodeRunner ← dlistNext dlist .beginDummy
  let _ ← dlistDestroyLoop dlist.memory.length dlist nodeRunner
  memory.free list

/-- The loop of `DestroyBySize`, with the lists that are left. -/
def destroyLoop (hashTable : Nat) : Nat → Nat → Memory α → Option (Memory α)
  | 0, _, memory => some memory
  | left + 1, j, memory => do
      let entry ← getEntry memory hashTable j
      let list ← entry
      let memory ← dlistDestroy memory list
      destroyLoop hashTable left (j + 1) memory

def destroyBySize (memory : Memory α) (hashTable i : Nat) : Option (Memory α) := do
  let memory ← destroyLoop hashTable i 0 memory
  let (_, hashArr) ← derefTable memory hashTable
  let memory ← match hashArr with
    | none => some memory
    | some address => memory.free address
  let memory ← setHashArr memory hashTable none
  memory.free hashTable

def hashDestroy (memory : Memory α) (hashTable : Nat) : Option (Memory α) := do
  let (capacity, _) ← derefTable memory hashTable
  destroyBySize memory hashTable capacity

/-- The loop of `InitHashArray`, with the lists that are left. -/
def initLoop (fails : Nat → Bool) (hashTable : Nat) : Nat → Nat → Memory α → Option (Ptr × Memory α)
  | 0, _, memory => some (some hashTable, memory)
  | left + 1, i, memory => do
      let (list, memory) := dlistCreate fails memory
      let memory ← setEntry memory hashTable i list
      let entry ← getEntry memory hashTable i
      if entry = none then do
        let memory ← destroyBySize memory hashTable i
        some (none, memory)
      else
        initLoop fails hashTable left (i + 1) memory

/-- `sizeof(size_t)`. -/
def entrySize : Nat := 8

/-- What `size_t` can count to, and one more. -/
def sizeRange : Nat := 18446744073709551616

/-- How many entries the array has room for: the size in bytes is a `size_t`. -/
def arrayEntries (capacity : Nat) : Nat := capacity * entrySize % sizeRange / entrySize

def initHashArray (fails : Nat → Bool) (hashTable : Nat) (memory : Memory α) : Option (Ptr × Memory α) := do
  let (capacity, _) ← derefTable memory hashTable
  let (hashArr, memory) := Blocks.malloc fails (.array (List.replicate (arrayEntries capacity) none)) memory
  let memory ← setHashArr memory hashTable hashArr
  match hashArr with
  | none => some (none, memory)
  | some _ => initLoop fails hashTable capacity 0 memory

/-- `HashCreate`: what is returned, and the memory; or what is not allocated is touched. -/
def hashCreate (fails : Nat → Bool) (hashFunc : α → Nat) (isMatchFunc : α → α → Int) (capacity : Nat) :
    Option (Ptr × Memory α) :=
  match Blocks.malloc fails (.table hashFunc isMatchFunc capacity none) Blocks.empty with
  | (none, memory) => some (none, memory)
  | (some hashTable, memory) => do
      let (_, memory) ← initHashArray fails hashTable memory
      some (some hashTable, memory)

/-! ## A table in memory -/

/-- An entry with a list. -/
def entryOf (list : Nat) : Option Ptr := some (some list)

/-- The table, and its array with the lists that were created, are in memory. -/
structure Built (memory : Memory α) (hashFunc : α → Nat) (matchFunc : α → α → Int) (capacity t a : Nat)
    (lists : List Nat) (rest : List (Option Ptr)) : Prop where
  table : memory.block t = some (.table hashFunc matchFunc capacity (some a))
  array : memory.block a = some (.array (lists.map entryOf ++ rest))
  list : ∀ l ∈ lists, memory.block l = some (.list DoublyLinked.dlistCreate)
  nodup : (t :: a :: lists).Nodup
  calls : ∀ p ∈ t :: a :: lists, p < memory.calls

/-- Nothing else is in memory. -/
def Only (memory : Memory α) (addresses : List Nat) : Prop := ∀ p, p ∉ addresses → memory.block p = none

variable {fails : Nat → Bool} {memory memory' : Memory α} {hashFunc : α → Nat} {matchFunc : α → α → Int}
  {capacity t a i k l left : Nat} {lists gone : List Nat} {entries rest : List (Option Ptr)} {entry : Option Ptr}
  {hashArr ptr : Ptr}

theorem derefTable_eq (h : memory.block t = some (.table hashFunc matchFunc capacity hashArr)) :
    derefTable memory t = some (capacity, hashArr) := by
  rw [derefTable, h]

theorem setHashArr_eq (h : memory.block t = some (.table hashFunc matchFunc capacity hashArr)) (ptr : Ptr) :
    setHashArr memory t ptr = some (memory.write t (.table hashFunc matchFunc capacity ptr)) := by
  rw [setHashArr, h]

theorem derefArray_eq (htable : memory.block t = some (.table hashFunc matchFunc capacity (some a)))
    (harray : memory.block a = some (.array entries)) : derefArray memory t = some (a, entries) := by
  simp only [derefArray, derefTable_eq htable, harray, bind, Option.bind_some]

theorem getEntry_eq (hderef : derefArray memory t = some (a, entries)) (hentry : entries[i]? = some entry) :
    getEntry memory t i = entry := by
  simp only [getEntry, hderef, hentry, bind, Option.bind_some]

theorem setEntry_eq (hderef : derefArray memory t = some (a, entries)) (hi : i < entries.length) (ptr : Ptr) :
    setEntry memory t i ptr = some (memory.write a (.array (entries.set i (some ptr)))) := by
  simp only [setEntry, hderef, bind, Option.bind_some, if_pos hi]

theorem setEntry_outside (hderef : derefArray memory t = some (a, entries)) (hi : entries.length ≤ i) (ptr : Ptr) :
    setEntry memory t i ptr = none := by
  simp only [setEntry, hderef, bind, Option.bind_some, if_neg (Nat.not_lt.mpr hi)]

theorem Built.derefArray (h : Built memory hashFunc matchFunc capacity t a lists rest) :
    derefArray memory t = some (a, lists.map entryOf ++ rest) := derefArray_eq h.table h.array

/-- The first entry behind the lists. -/
theorem getElem?_entry (lists : List Nat) (entry : Option Ptr) (rest : List (Option Ptr)) :
    (lists.map entryOf ++ entry :: rest)[lists.length]? = some entry := by
  rw [List.getElem?_append_right (by rw [List.length_map]), List.length_map, Nat.sub_self]
  rfl

theorem set_entry (lists : List Nat) (entry entry' : Option Ptr) (rest : List (Option Ptr)) :
    (lists.map entryOf ++ entry :: rest).set lists.length entry' = lists.map entryOf ++ entry' :: rest := by
  rw [List.set_append_right _ _ (by rw [List.length_map]), List.length_map, Nat.sub_self]
  rfl

theorem Built.table_ne (h : Built memory hashFunc matchFunc capacity t a lists rest) : t ≠ a := by
  rintro rfl
  exact (List.nodup_cons.mp h.nodup).1 List.mem_cons_self

theorem Built.list_ne (h : Built memory hashFunc matchFunc capacity t a lists rest) (hl : l ∈ lists) : l ≠ a := by
  rintro rfl
  exact (List.nodup_cons.mp (List.nodup_cons.mp h.nodup).2).1 hl

/-- What is there stays when there is more. -/
theorem Built.mono (h : Built memory hashFunc matchFunc capacity t a lists rest) (hcalls : memory.calls ≤ memory'.calls)
    (hblock : ∀ p ∈ t :: a :: lists, memory'.block p = memory.block p) :
    Built memory' hashFunc matchFunc capacity t a lists rest where
  table := (hblock t List.mem_cons_self).trans h.table
  array := (hblock a (List.mem_cons_of_mem t List.mem_cons_self)).trans h.array
  list l hl := (hblock l (List.mem_cons_of_mem t (List.mem_cons_of_mem a hl))).trans (h.list l hl)
  nodup := h.nodup
  calls p hp := Nat.lt_of_lt_of_le (h.calls p hp) hcalls

/-- **An assignment to the first entry behind the lists.** -/
theorem Built.setEntry (h : Built memory hashFunc matchFunc capacity t a lists (entry :: rest)) (ptr : Ptr) :
    ∃ memory', Create.setEntry memory t lists.length ptr = some memory' ∧ getEntry memory' t lists.length = some ptr ∧
      Built memory' hashFunc matchFunc capacity t a lists (some ptr :: rest) ∧ memory'.calls = memory.calls ∧
      ∀ p, p ≠ a → memory'.block p = memory.block p := by
  have hlength : lists.length < (lists.map entryOf ++ entry :: rest).length := by
    rw [List.length_append, List.length_map, List.length_cons]
    omega
  let memory₁ := memory.write a (.array ((lists.map entryOf ++ entry :: rest).set lists.length (some ptr)))
  have hother : ∀ p, p ≠ a → memory₁.block p = memory.block p := fun p hp => Blocks.block_write_ne hp
  have hbuilt : Built memory₁ hashFunc matchFunc capacity t a lists (some ptr :: rest) := by
    refine ⟨(hother t h.table_ne).trans h.table, ?_, fun l hl => (hother l (h.list_ne hl)).trans (h.list l hl), h.nodup,
      h.calls⟩
    rw [Blocks.block_write_self, set_entry]
  exact ⟨memory₁, setEntry_eq h.derefArray hlength ptr, getEntry_eq hbuilt.derefArray (getElem?_entry ..), hbuilt, rfl,
    hother⟩

/-- The first entry behind the lists has a new list. -/
theorem Built.push (h : Built memory hashFunc matchFunc capacity t a lists (entryOf l :: rest))
    (hl : memory.block l = some (.list DoublyLinked.dlistCreate)) (hnew : l ∉ t :: a :: lists)
    (hcalls : l < memory.calls) :
    Built memory hashFunc matchFunc capacity t a (lists ++ [l]) rest where
  table := h.table
  array := by
    rw [h.array, List.map_append, List.append_assoc]
    rfl
  list k hk := by
    rcases List.mem_append.mp hk with hk | hk
    · exact h.list k hk
    · rw [List.mem_singleton.mp hk, hl]
  nodup := by
    refine List.nodup_append.mpr ⟨h.nodup, List.nodup_singleton l, fun p hp q hq heq => hnew ?_⟩
    rw [← List.mem_singleton.mp hq, ← heq]
    exact hp
  calls p hp := by
    rcases List.mem_append.mp (show p ∈ (t :: a :: lists) ++ [l] from hp) with hp | hp
    · exact h.calls p hp
    · rw [List.mem_singleton.mp hp]
      exact hcalls

/-! ## The loop -/

/-- **A list more.** -/
theorem Built.granted (h : Built memory hashFunc matchFunc capacity t a lists (entry :: rest))
    (hfails : fails memory.calls = false) (left : Nat) :
    ∃ memory', initLoop fails t (left + 1) lists.length memory =
        initLoop fails t left (lists ++ [memory.calls]).length memory' ∧
      Built memory' hashFunc matchFunc capacity t a (lists ++ [memory.calls]) rest ∧
      memory'.calls = memory.calls + 1 ∧
      (Only memory (t :: a :: lists) → Only memory' (t :: a :: (lists ++ [memory.calls]))) := by
  let memory₁ : Memory α := memory.granted (.list DoublyLinked.dlistCreate)
  have hold : ∀ p ∈ t :: a :: lists, p ≠ memory.calls := fun p hp => Nat.ne_of_lt (h.calls p hp)
  have hbuilt₁ : Built memory₁ hashFunc matchFunc capacity t a lists (entry :: rest) :=
    h.mono (Nat.le_succ _) fun p hp => Blocks.block_granted_ne (hold p hp)
  obtain ⟨memory₂, hset, hget, hbuilt₂, hcalls₂, hother⟩ := hbuilt₁.setEntry (some memory.calls)
  have ha : memory.calls ≠ a := (hold a (List.mem_cons_of_mem t List.mem_cons_self)).symm
  refine ⟨memory₂, ?_, hbuilt₂.push ?_ (fun hmem => hold _ hmem rfl) ?_, hcalls₂, fun honly p hp => ?_⟩
  · have hcreate : dlistCreate fails memory = (some memory.calls, memory₁) := Blocks.malloc_granted hfails _
    simp only [initLoop, hcreate, hset, hget, bind, Option.bind_some, reduceCtorEq, if_false, List.length_append,
      List.length_singleton]
  · rw [hother _ ha]
    exact Blocks.block_granted_self
  · rw [hcalls₂]
    exact Nat.lt_succ_self _
  · have hp : p ∉ (t :: a :: lists) ++ [memory.calls] := hp
    rw [List.mem_append, not_or, List.mem_singleton] at hp
    have hpa : p ≠ a := fun heq => hp.1 (heq ▸ List.mem_cons_of_mem t List.mem_cons_self)
    rw [hother p hpa]
    exact (Blocks.block_granted_ne hp.2).trans (honly p hp.1)

/-- **No list more**: what there is is released, and `NULL` is returned. -/
theorem Built.refused (h : Built memory hashFunc matchFunc capacity t a lists (entry :: rest))
    (hfails : fails memory.calls = true) (left : Nat) :
    ∃ memory', initLoop fails t (left + 1) lists.length memory =
        (destroyBySize memory' t lists.length).map (fun memory => (none, memory)) ∧
      Built memory' hashFunc matchFunc capacity t a lists (some none :: rest) ∧
      (Only memory (t :: a :: lists) → Only memory' (t :: a :: lists)) := by
  let memory₁ : Memory α := memory.refused
  have hbuilt₁ : Built memory₁ hashFunc matchFunc capacity t a lists (entry :: rest) :=
    h.mono (Nat.le_succ _) fun _ _ => rfl
  obtain ⟨memory₂, hset, hget, hbuilt₂, -, hother⟩ := hbuilt₁.setEntry none
  refine ⟨memory₂, ?_, hbuilt₂, fun honly p hp => ?_⟩
  · have hcreate : dlistCreate fails memory = (none, memory₁) := Blocks.malloc_refused hfails _
    simp only [initLoop, hcreate, hset, hget, bind, Option.bind_some, if_true]
    cases destroyBySize memory₂ t lists.length with
    | none => rfl
    | some memory => rfl
  · have hpa : p ≠ a := fun heq => hp (heq ▸ List.mem_cons_of_mem t List.mem_cons_self)
    rw [hother p hpa]
    exact honly p hp

/-- **An array that has room for all lists.** -/
theorem initLoop_succeeds (h : Built memory hashFunc matchFunc capacity t a lists rest) (hleft : left ≤ rest.length)
    (hfails : ∀ k < left, fails (memory.calls + k) = false) :
    ∃ memory' new, initLoop fails t left lists.length memory = some (some t, memory') ∧ new.length = left ∧
      Built memory' hashFunc matchFunc capacity t a (lists ++ new) (rest.drop left) ∧
      (Only memory (t :: a :: lists) → Only memory' (t :: a :: (lists ++ new))) := by
  induction left generalizing memory lists rest with
  | zero =>
      refine ⟨memory, [], rfl, rfl, ?_, fun honly => ?_⟩
      · rw [List.append_nil, List.drop_zero]
        exact h
      · rw [List.append_nil]
        exact honly
  | succ left ih =>
      cases rest with
      | nil => exact absurd hleft (Nat.not_succ_le_zero left)
      | cons entry rest =>
          obtain ⟨memory₁, hloop, hbuilt, hcalls, honly⟩ := h.granted (hfails 0 (Nat.zero_lt_succ left)) left
          have hrest : ∀ k < left, fails (memory₁.calls + k) = false := by
            intro k hk
            rw [hcalls, Nat.add_right_comm]
            exact hfails (k + 1) (Nat.succ_lt_succ hk)
          obtain ⟨memory', new, hloop', hlength, hbuilt', honly'⟩ := ih hbuilt (Nat.le_of_succ_le_succ hleft) hrest
          refine ⟨memory', memory.calls :: new, hloop.trans hloop', ?_, ?_, fun h => ?_⟩
          · rw [List.length_cons, hlength]
          · rw [List.append_cons, List.drop_succ_cons]
            exact hbuilt'
          · rw [List.append_cons]
            exact honly' (honly h)

/-- **An array that has not**: the list behind the last entry is written outside. -/
theorem initLoop_outside (h : Built memory hashFunc matchFunc capacity t a lists rest) (hleft : rest.length < left)
    (hfails : ∀ k < left, fails (memory.calls + k) = false) : initLoop fails t left lists.length memory = none := by
  induction left generalizing memory lists rest with
  | zero => exact absurd hleft (Nat.not_lt_zero _)
  | succ left ih =>
      have hgranted : fails memory.calls = false := hfails 0 (Nat.zero_lt_succ left)
      cases rest with
      | nil =>
          let memory₁ : Memory α := memory.granted (.list DoublyLinked.dlistCreate)
          have hcreate : dlistCreate fails memory = (some memory.calls, memory₁) := Blocks.malloc_granted hgranted _
          have hbuilt₁ : Built memory₁ hashFunc matchFunc capacity t a lists [] :=
            h.mono (Nat.le_succ _) fun p hp => Blocks.block_granted_ne (Nat.ne_of_lt (h.calls p hp))
          have hset := setEntry_outside (i := lists.length) hbuilt₁.derefArray
            (by rw [List.append_nil, List.length_map]) (some memory.calls)
          simp only [initLoop, hcreate, hset, bind, Option.bind_none]
      | cons entry rest =>
          obtain ⟨memory₁, hloop, hbuilt, hcalls, -⟩ := h.granted hgranted left
          rw [hloop]
          refine ih hbuilt (Nat.lt_of_succ_lt_succ hleft) fun k hk => ?_
          rw [hcalls, Nat.add_right_comm]
          exact hfails (k + 1) (Nat.succ_lt_succ hk)

/-! ## What is released -/

theorem dlistDestroy_eq (h : memory.block l = some (.list DoublyLinked.dlistCreate)) :
    dlistDestroy memory l = some (memory.release l) := by
  have hderef : derefDlist memory l = some DoublyLinked.dlistCreate := by rw [derefDlist, h]
  have hnext : dlistNext (DoublyLinked.dlistCreate : Dlist α) .beginDummy = some .endDummy := rfl
  have hloop : dlistDestroyLoop (DoublyLinked.dlistCreate : Dlist α).memory.length (DoublyLinked.dlistCreate : Dlist α)
      .endDummy = some DoublyLinked.dlistCreate := rfl
  simp only [dlistDestroy, hderef, hnext, hloop, bind, Option.bind_some]
  exact Blocks.free_eq h

/-- **Each list is released once.** -/
theorem destroyLoop_eq (htable : memory.block t = some (.table hashFunc matchFunc capacity (some a)))
    (harray : memory.block a = some (.array ((gone ++ lists).map entryOf ++ rest)))
    (hlist : ∀ l ∈ lists, memory.block l = some (.list DoublyLinked.dlistCreate)) (hnodup : (t :: a :: lists).Nodup) :
    ∃ memory', destroyLoop t lists.length gone.length memory = some memory' ∧
      (∀ p ∈ lists, memory'.block p = none) ∧ ∀ p, p ∉ lists → memory'.block p = memory.block p := by
  induction lists generalizing memory gone with
  | nil => exact ⟨memory, rfl, fun p hp => absurd hp List.not_mem_nil, fun _ _ => rfl⟩
  | cons l lists ih =>
      have hperm : ([t, a] ++ l :: lists).Perm (l :: ([t, a] ++ lists)) := List.perm_middle
      have hswap : (l :: t :: a :: lists).Nodup := hperm.nodup_iff.mp hnodup
      obtain ⟨hl, hnodup'⟩ := List.nodup_cons.mp hswap
      have hother : ∀ p ∈ t :: a :: lists, (memory.release l).block p = memory.block p := by
        intro p hp
        refine Blocks.block_release_ne ?_
        rintro rfl
        exact hl hp
      have hentries : (gone ++ l :: lists).map entryOf ++ rest =
          gone.map entryOf ++ entryOf l :: (lists.map entryOf ++ rest) := by
        rw [List.map_append, List.map_cons, List.append_assoc, List.cons_append]
      have hget : getEntry memory t gone.length = some (some l) := by
        refine getEntry_eq (derefArray_eq htable harray) ?_
        rw [hentries, getElem?_entry]
        rfl
      have hdestroy := dlistDestroy_eq (hlist l List.mem_cons_self)
      have harray' : (memory.release l).block a = some (.array (((gone ++ [l]) ++ lists).map entryOf ++ rest)) := by
        rw [hother a (List.mem_cons_of_mem t List.mem_cons_self), harray, List.append_cons gone l lists]
      obtain ⟨memory', hloop, hreleased, hkept⟩ := ih
        ((hother t List.mem_cons_self).trans htable) harray'
        (fun k hk => (hother k (List.mem_cons_of_mem t (List.mem_cons_of_mem a hk))).trans
          (hlist k (List.mem_cons_of_mem l hk))) hnodup'
      have hnew : l ∉ lists := fun hmem => hl (List.mem_cons_of_mem t (List.mem_cons_of_mem a hmem))
      refine ⟨memory', ?_, fun p hp => ?_, fun p hp => ?_⟩
      · rw [List.length_append, List.length_singleton] at hloop
        simp only [List.length_cons, destroyLoop, hget, hdestroy, bind, Option.bind_some]
        exact hloop
      · rcases List.mem_cons.mp hp with rfl | hp
        · rw [hkept _ hnew]
          exact Blocks.block_release_self
        · exact hreleased p hp
      · obtain ⟨hpl, hp⟩ := not_or.mp (mt List.mem_cons.mpr hp)
        rw [hkept p hp]
        exact Blocks.block_release_ne hpl

/-- **What `DestroyBySize` releases**: the lists, the array and the table, each of them once. -/
theorem destroyBySize_releases (h : Built memory hashFunc matchFunc capacity t a lists rest)
    (honly : Only memory (t :: a :: lists)) :
    ∃ memory', destroyBySize memory t lists.length = some memory' ∧ ∀ p, memory'.block p = none := by
  obtain ⟨hta, hnodup⟩ := List.nodup_cons.mp h.nodup
  have ht : t ∉ lists := fun hmem => hta (List.mem_cons_of_mem a hmem)
  have ha : a ∉ lists := (List.nodup_cons.mp hnodup).1
  have harray : memory.block a = some (.array (([] ++ lists).map entryOf ++ rest)) := h.array
  obtain ⟨memory₁, hloop, hreleased, hkept⟩ := destroyLoop_eq h.table harray h.list h.nodup
  have htable₁ := (hkept t ht).trans h.table
  have htable₂ := (Blocks.block_release_ne h.table_ne).trans htable₁
  have hfree₁ : memory₁.free a = some (memory₁.release a) := Blocks.free_eq ((hkept a ha).trans h.array)
  let memory₃ := (memory₁.release a).write t (.table hashFunc matchFunc capacity none)
  have hset : setHashArr (memory₁.release a) t none = some memory₃ := setHashArr_eq htable₂ none
  have hfree₂ : memory₃.free t = some (memory₃.release t) := Blocks.free_eq Blocks.block_write_self
  have hderef : derefTable memory₁ t = some (capacity, some a) := derefTable_eq htable₁
  refine ⟨memory₃.release t, ?_, fun p => ?_⟩
  · simp only [List.length_nil] at hloop
    simp only [destroyBySize, hloop, hderef, hfree₁, hset, hfree₂, bind, Option.bind_some]
  · by_cases hpt : p = t
    · rw [hpt]
      exact Blocks.block_release_self
    rw [Blocks.block_release_ne hpt, Blocks.block_write_ne hpt]
    by_cases hpa : p = a
    · rw [hpa]
      exact Blocks.block_release_self
    rw [Blocks.block_release_ne hpa]
    by_cases hp : p ∈ lists
    · exact hreleased p hp
    · rw [hkept p hp]
      refine honly p fun hmem => ?_
      rcases List.mem_cons.mp hmem with heq | hmem
      · exact hpt heq
      · exact (List.mem_cons.mp hmem).elim hpa hp

/-- **A list that cannot be created**: nothing is left. -/
theorem initLoop_fails (h : Built memory hashFunc matchFunc capacity t a lists rest)
    (honly : Only memory (t :: a :: lists)) (hk : k < left) (hroom : k < rest.length)
    (hbefore : ∀ j < k, fails (memory.calls + j) = false) (hfails : fails (memory.calls + k) = true) :
    ∃ memory', initLoop fails t left lists.length memory = some (none, memory') ∧ ∀ p, memory'.block p = none := by
  induction k generalizing memory lists rest left with
  | zero =>
      obtain ⟨left, rfl⟩ := Nat.exists_eq_succ_of_ne_zero (Nat.ne_of_gt hk)
      obtain ⟨entry, rest, rfl⟩ := List.exists_cons_of_length_pos hroom
      obtain ⟨memory₁, hloop, hbuilt, honly'⟩ := h.refused hfails left
      obtain ⟨memory', hdestroy, hreleased⟩ := destroyBySize_releases hbuilt (honly' honly)
      refine ⟨memory', ?_, hreleased⟩
      rw [hloop, hdestroy, Option.map_some]
  | succ k ih =>
      obtain ⟨left, rfl⟩ := Nat.exists_eq_succ_of_ne_zero (Nat.ne_of_gt (Nat.zero_lt_of_lt hk))
      obtain ⟨entry, rest, rfl⟩ := List.exists_cons_of_length_pos (Nat.zero_lt_of_lt hroom)
      obtain ⟨memory₁, hloop, hbuilt, hcalls, honly'⟩ := h.granted (hbefore 0 (Nat.zero_lt_succ k)) left
      rw [hloop]
      refine ih hbuilt (honly' honly) (Nat.lt_of_succ_lt_succ hk) (Nat.lt_of_succ_lt_succ hroom) (fun j hj => ?_) ?_
      · rw [hcalls, Nat.add_right_comm]
        exact hbefore (j + 1) (Nat.succ_lt_succ hj)
      · rw [hcalls, Nat.add_right_comm]
        exact hfails

/-! ## Creation -/

/-- The table is in memory, with its lists. -/
def Represents (memory : Memory α) (t : Nat) (hashTable : HashTable α) : Prop :=
  ∃ a lists, memory.block t = some (.table hashTable.hashFunc hashTable.matchFunc hashTable.capacity (some a)) ∧
    memory.block a = some (.array (lists.map entryOf)) ∧ lists.Nodup ∧
    List.Forall₂ (fun l list => memory.block l = some (.list list)) lists hashTable.hashArr

/-- What `malloc` is called for: the table, the array, and the lists. -/
def mallocs (capacity : Nat) : Nat := capacity + 2

/-- What `HashCreate` should do: it touches nothing that is released; when an allocation fails it returns `NULL` and has
    released all blocks, and it returns a table of empty lists exactly if none fails. -/
def CreatesRight (fails : Nat → Bool) (hashFunc : α → Nat) (isMatchFunc : α → α → Int) (capacity : Nat) : Prop :=
  ∃ ptr memory, hashCreate fails hashFunc isMatchFunc capacity = some (ptr, memory) ∧
    ((∃ k < mallocs capacity, fails k = true) → ptr = none ∧ ∀ a, memory.block a = none) ∧
    ((∃ t, ptr = some t ∧ Represents memory t (Hash.hashCreate hashFunc isMatchFunc capacity)) ↔
      ∀ k < mallocs capacity, fails k = false)

/-- What was created is the table of the model in which all allocations have memory. -/
theorem Built.represents (h : Built memory hashFunc matchFunc capacity t a lists [])
    (hlength : lists.length = capacity) : Represents memory t (Hash.hashCreate hashFunc matchFunc capacity) := by
  refine ⟨a, lists, h.table, ?_, (List.nodup_cons.mp (List.nodup_cons.mp h.nodup).2).2, ?_⟩
  · rw [h.array, List.append_nil]
  · subst hlength
    have hlists := h.list
    clear h
    show List.Forall₂ _ lists (List.replicate lists.length DoublyLinked.dlistCreate)
    induction lists with
    | nil => exact .nil
    | cons l lists ih =>
        exact .cons (hlists l List.mem_cons_self) (ih fun k hk => hlists k (List.mem_cons_of_mem l hk))

/-- Without memory for the table, nothing happens. -/
theorem hashCreate_table (htable : fails 0 = true) :
    hashCreate fails hashFunc matchFunc capacity = some (none, Blocks.refused Blocks.empty) := by
  have hmalloc : Blocks.malloc fails (Block.table hashFunc matchFunc capacity none) Blocks.empty =
      (none, Blocks.refused Blocks.empty) := Blocks.malloc_refused htable _
  simp only [hashCreate, hmalloc]

/-- With memory for the table, it is returned whatever `InitHashArray` says. -/
theorem hashCreate_eq (htable : fails 0 = false) :
    hashCreate fails hashFunc matchFunc capacity =
      (initHashArray fails 0 (Blocks.empty.granted (.table hashFunc matchFunc capacity none))).map
        fun result => (some 0, result.2) := by
  have hmalloc : Blocks.malloc fails (Block.table hashFunc matchFunc capacity none) Blocks.empty =
      (some 0, Blocks.empty.granted (.table hashFunc matchFunc capacity none)) := Blocks.malloc_granted htable _
  simp only [hashCreate, hmalloc, bind]
  cases initHashArray fails 0 (Blocks.empty.granted (.table hashFunc matchFunc capacity none)) with
  | none => rfl
  | some result => rfl

/-- The table and its array are in memory, and the loop begins. -/
theorem hashCreate_loop (hashFunc : α → Nat) (matchFunc : α → α → Int) (capacity : Nat) (htable : fails 0 = false)
    (harray : fails 1 = false) :
    ∃ memory, Built memory hashFunc matchFunc capacity 0 1 [] (List.replicate (arrayEntries capacity) none) ∧
      Only memory [0, 1] ∧ memory.calls = 2 ∧
      hashCreate fails hashFunc matchFunc capacity =
        (initLoop fails 0 capacity 0 memory).map fun result => (some 0, result.2) := by
  let memory₁ : Memory α := Blocks.empty.granted (.table hashFunc matchFunc capacity none)
  let memory₂ : Memory α := memory₁.granted (.array (List.replicate (arrayEntries capacity) none))
  let memory₃ : Memory α := memory₂.write 0 (.table hashFunc matchFunc capacity (some 1))
  have htable₁ : memory₁.block 0 = some (.table hashFunc matchFunc capacity none) := Blocks.block_granted_self
  have htable₂ : memory₂.block 0 = some (.table hashFunc matchFunc capacity none) :=
    (Blocks.block_granted_ne Nat.zero_ne_one).trans htable₁
  have harray₂ : memory₂.block 1 = some (.array (List.replicate (arrayEntries capacity) none)) :=
    Blocks.block_granted_self
  refine ⟨memory₃, ⟨Blocks.block_write_self, ?_, ?_, by decide, ?_⟩, fun p hp => ?_, rfl, ?_⟩
  · rw [Blocks.block_write_ne (by decide), harray₂]
    rfl
  · exact fun l hl => absurd hl List.not_mem_nil
  · simp only [List.mem_cons, List.not_mem_nil, or_false, forall_eq_or_imp, forall_eq]
    exact ⟨Nat.zero_lt_two, Nat.one_lt_two⟩
  · simp only [List.mem_cons, List.not_mem_nil, or_false, not_or] at hp
    rw [Blocks.block_write_ne hp.1]
    exact (Blocks.block_granted_ne hp.2).trans (Blocks.block_granted_ne hp.1)
  · have hmalloc : Blocks.malloc fails (Block.array (List.replicate (arrayEntries capacity) none)) memory₁ =
        (some 1, memory₂) := Blocks.malloc_granted harray _
    have hset : setHashArr memory₂ 0 (some 1) = some memory₃ := setHashArr_eq htable₂ _
    rw [hashCreate_eq htable]
    show (initHashArray fails 0 memory₁).map _ = _
    simp only [initHashArray, derefTable_eq htable₁, hmalloc, hset, bind, Option.bind_some]

/-- **A dangling table**: when a list cannot be created, all blocks are released, and the table is returned. -/
theorem hashCreate_dangling (hashFunc : α → Nat) (matchFunc : α → α → Int) (hk : k < capacity)
    (hroom : k < arrayEntries capacity) (hbefore : ∀ j < k + 2, fails j = false) (hfails : fails (k + 2) = true) :
    ∃ memory, hashCreate fails hashFunc matchFunc capacity = some (some 0, memory) ∧ ∀ p, memory.block p = none := by
  obtain ⟨memory, hbuilt, honly, hcalls, hcreate⟩ := hashCreate_loop hashFunc matchFunc capacity
    (hbefore 0 (Nat.zero_lt_succ _)) (hbefore 1 (Nat.succ_lt_succ (Nat.zero_lt_succ _)))
  have hroom' : k < (List.replicate (arrayEntries capacity) (none : Option Ptr)).length := by
    rw [List.length_replicate]
    exact hroom
  obtain ⟨memory', hloop, hreleased⟩ := initLoop_fails hbuilt honly hk hroom'
    (fun j hj => by rw [hcalls]; exact hbefore (2 + j) (by omega)) (by rw [hcalls, Nat.add_comm]; exact hfails)
  have hloop' : initLoop fails 0 capacity 0 memory = some (none, memory') := hloop
  refine ⟨memory', ?_, hreleased⟩
  rw [hcreate, hloop', Option.map_some]

/-- The array has room for all lists, unless its size in bytes is too large. -/
theorem arrayEntries_eq_iff (h : capacity < sizeRange) :
    arrayEntries capacity = capacity ↔ capacity < sizeRange / entrySize := by
  unfold arrayEntries sizeRange entrySize at *
  omega

theorem arrayEntries_lt (h : capacity < sizeRange) (hne : arrayEntries capacity ≠ capacity) :
    arrayEntries capacity < capacity := by
  unfold arrayEntries sizeRange entrySize at *
  omega

/-- With memory for everything, the table is complete if its array has room for it. -/
theorem hashCreate_built (hashFunc : α → Nat) (matchFunc : α → α → Int) (hentries : arrayEntries capacity = capacity)
    (hfails : ∀ k < mallocs capacity, fails k = false) :
    ∃ memory lists, hashCreate fails hashFunc matchFunc capacity = some (some 0, memory) ∧ lists.length = capacity ∧
      Built memory hashFunc matchFunc capacity 0 1 lists [] ∧ Only memory (0 :: 1 :: lists) := by
  have hmallocs : mallocs capacity = capacity + 2 := rfl
  obtain ⟨memory, hbuilt, honly, hcalls, hcreate⟩ := hashCreate_loop hashFunc matchFunc capacity
    (hfails 0 (by omega)) (hfails 1 (by omega))
  rw [hentries] at hbuilt
  obtain ⟨memory', lists, hloop, hlength, hbuilt', honly'⟩ := initLoop_succeeds hbuilt
    (Nat.le_of_eq (List.length_replicate).symm) fun k hk => by
      rw [hcalls]
      exact hfails (2 + k) (by omega)
  rw [List.nil_append, List.drop_of_length_le (Nat.le_of_eq List.length_replicate)] at hbuilt'
  have hloop' : initLoop fails 0 capacity 0 memory = some (some 0, memory') := hloop
  refine ⟨memory', lists, ?_, hlength, hbuilt', honly' honly⟩
  rw [hcreate, hloop', Option.map_some]

/-- **A table that was created** is released by `HashDestroy`, with all that it has. -/
theorem hashDestroy_releases (hashFunc : α → Nat) (matchFunc : α → α → Int)
    (hentries : arrayEntries capacity = capacity) (hfails : ∀ k < mallocs capacity, fails k = false) :
    ∃ memory memory', hashCreate fails hashFunc matchFunc capacity = some (some 0, memory) ∧
      hashDestroy memory 0 = some memory' ∧ ∀ p, memory'.block p = none := by
  obtain ⟨memory, lists, hcreate, hlength, hbuilt, honly⟩ := hashCreate_built hashFunc matchFunc hentries hfails
  obtain ⟨memory', hdestroy, hreleased⟩ := destroyBySize_releases hbuilt honly
  refine ⟨memory, memory', hcreate, ?_, hreleased⟩
  rw [hlength] at hdestroy
  simp only [hashDestroy, derefTable_eq hbuilt.table, bind, Option.bind_some, hdestroy]

/-- Without room in the array, a list is written behind it. -/
theorem hashCreate_outside (hashFunc : α → Nat) (matchFunc : α → α → Int)
    (hentries : arrayEntries capacity < capacity) (hfails : ∀ k < mallocs capacity, fails k = false) :
    hashCreate fails hashFunc matchFunc capacity = none := by
  have hmallocs : mallocs capacity = capacity + 2 := rfl
  obtain ⟨memory, hbuilt, -, hcalls, hcreate⟩ := hashCreate_loop hashFunc matchFunc capacity
    (hfails 0 (by omega)) (hfails 1 (by omega))
  have hloop := initLoop_outside hbuilt (by rw [List.length_replicate]; exact hentries) fun k hk => by
    rw [hcalls]
    exact hfails (2 + k) (by omega)
  have hloop' : initLoop fails 0 capacity 0 memory = none := hloop
  rw [hcreate, hloop', Option.map_none]

/-- **A creation** does what it should exactly if the allocation of the table fails, or none fails and the size of the
array in bytes is not too large. -/
theorem hashCreate_iff (hcapacity : capacity < sizeRange) :
    CreatesRight fails hashFunc matchFunc capacity ↔
      fails 0 = true ∨ (∀ k < mallocs capacity, fails k = false) ∧ capacity < sizeRange / entrySize := by
  have hmallocs : mallocs capacity = capacity + 2 := rfl
  cases htable : fails 0 with
  | true =>
      have hnot : ¬ ∀ k < mallocs capacity, fails k = false := by
        intro hall
        rw [hall 0 (by omega)] at htable
        cases htable
      refine iff_of_true ⟨none, _, hashCreate_table htable, fun _ => ⟨rfl, fun _ => rfl⟩, iff_of_false ?_ hnot⟩
        (Or.inl rfl)
      rintro ⟨t, hnone, -⟩
      cases hnone
  | false =>
      rw [or_iff_right Bool.false_ne_true, ← arrayEntries_eq_iff hcapacity]
      constructor
      · rintro ⟨ptr, memory, hcreate, hreleased, -⟩
        -- the table is returned in any case
        have hptr : ptr = some 0 := by
          rw [hashCreate_eq htable] at hcreate
          obtain ⟨result, -, hresult⟩ := Option.map_eq_some_iff.mp hcreate
          exact (Prod.mk.inj hresult).1.symm
        have hall : ∀ k < mallocs capacity, fails k = false := by
          intro k hk
          by_contra hfail
          have hnone := (hreleased ⟨k, hk, Bool.not_eq_false _ ▸ hfail⟩).1
          rw [hptr] at hnone
          cases hnone
        refine ⟨hall, ?_⟩
        by_contra hne
        rw [hashCreate_outside hashFunc matchFunc (arrayEntries_lt hcapacity hne) hall] at hcreate
        cases hcreate
      · rintro ⟨hall, hentries⟩
        obtain ⟨memory, lists, hcreate, hlength, hbuilt, -⟩ := hashCreate_built hashFunc matchFunc hentries hall
        refine ⟨some 0, memory, hcreate, ?_, iff_of_true ⟨0, rfl, hbuilt.represents hlength⟩ hall⟩
        rintro ⟨k, hk, hfail⟩
        rw [hall k hk] at hfail
        cases hfail

theorem hashCreate_sample :
    CreatesRight (fun _ => false) (fun n : Nat => n % 3) (fun n m => if n = m then 1 else 0) 3 :=
  (hashCreate_iff (by decide)).mpr (.inr ⟨fun _ _ => rfl, by decide⟩)

/-- There is memory for the table, the array and a list, and not for the second list. -/
theorem hashCreate_released : ¬ ∀ (fails : Nat → Bool) (hashFunc : Nat → Nat) (isMatchFunc : Nat → Nat → Int)
    (capacity : Nat), capacity < sizeRange → CreatesRight fails hashFunc isMatchFunc capacity := by
  intro hright
  let fails : Nat → Bool := fun k => k == 3
  obtain ⟨ptr, memory, hcreate, hreleased, -⟩ :=
    hright fails (fun n => n % 3) (fun n m => if n = m then 1 else 0) 3 (by decide)
  have hlist : 1 < 3 := by decide
  have hroom : 1 < arrayEntries 3 := by decide
  have hbefore : ∀ j < 1 + 2, fails j = false := by decide
  have hfails : fails (1 + 2) = true := rfl
  obtain ⟨memory', hdangling, -⟩ := hashCreate_dangling (fun n : Nat => n % 3) (fun n m => if n = m then 1 else 0)
    hlist hroom hbefore hfails
  have hptr := (Prod.mk.inj (Option.some.inj (hcreate.symm.trans hdangling))).1
  rw [(hreleased ⟨3, by decide, rfl⟩).1] at hptr
  cases hptr

end Workbench.Hash.Create
