import Mathlib.Logic.Function.Basic

/-!
# `Lib.Blocks` — blocks that are allocated and released

A block is at the number of the call of `malloc` that gave it, so that no address is given twice. Which calls fail is
given. To release what is not allocated is a failure.

## Main results
* `malloc_granted`, `malloc_refused` — the two results of an allocation;
* `free_eq` — what is allocated can be released.
-/

namespace Workbench

/-- How often `malloc` was called, and what is allocated. -/
structure Blocks (β : Type) where
  calls : Nat
  block : Nat → Option β

namespace Blocks

variable {β : Type} {fails : Nat → Bool} {memory : Blocks β} {a b : Nat} {content content' : β}

def empty : Blocks β := ⟨0, fun _ => none⟩

def write (memory : Blocks β) (a : Nat) (content : β) : Blocks β :=
  { memory with block := Function.update memory.block a (some content) }

def release (memory : Blocks β) (a : Nat) : Blocks β := { memory with block := Function.update memory.block a none }

def free (memory : Blocks β) (a : Nat) : Option (Blocks β) :=
  if (memory.block a).isSome then some (memory.release a) else none

/-- The memory after a call of `malloc` that gives nothing. -/
def refused (memory : Blocks β) : Blocks β := { memory with calls := memory.calls + 1 }

/-- The memory after a call of `malloc` that gives a block. -/
def granted (memory : Blocks β) (content : β) : Blocks β :=
  { memory.write memory.calls content with calls := memory.calls + 1 }

/-- `malloc`, with what is put into the block at once. -/
def malloc (fails : Nat → Bool) (content : β) (memory : Blocks β) : Option Nat × Blocks β :=
  if fails memory.calls then (none, memory.refused) else (some memory.calls, memory.granted content)

theorem malloc_refused (h : fails memory.calls = true) (content : β) :
    malloc fails content memory = (none, memory.refused) := if_pos h

theorem malloc_granted (h : fails memory.calls = false) (content : β) :
    malloc fails content memory = (some memory.calls, memory.granted content) := by
  rw [malloc, h]
  rfl

theorem block_write_self : (memory.write a content).block a = some content := Function.update_self ..

theorem block_write_ne (h : b ≠ a) : (memory.write a content).block b = memory.block b := Function.update_of_ne h ..

theorem block_granted_self : (memory.granted content).block memory.calls = some content := Function.update_self ..

theorem block_granted_ne (h : b ≠ memory.calls) : (memory.granted content).block b = memory.block b :=
  Function.update_of_ne h ..

theorem block_release_self : (memory.release a).block a = none := Function.update_self ..

theorem block_release_ne (h : b ≠ a) : (memory.release a).block b = memory.block b := Function.update_of_ne h ..

/-- **What is allocated** can be released. -/
theorem free_eq (h : memory.block a = some content) : memory.free a = some (memory.release a) := by
  rw [free, h]
  rfl

end Blocks

end Workbench
