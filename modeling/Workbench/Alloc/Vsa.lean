import Workbench.Lib.Bytes
import Workbench.Lib.System

/-!
# `Alloc.Vsa` — the variable size allocator

The pool is tiled by blocks, each with a header of two words before its payload: its size, negative for a block that
is allocated, and a magic number. The header of size 0 is the end. Addresses are offsets in the pool.

## Contents
* headers: `blockSize`, `vsaSetBlockSize`, `getNextBlock`;
* the functions: `vsaInit`, `vsaAlloc`, `vsaFree`, `vsaLargestChunkAvailable`; a loop gets fuel, and `none` is a call
  that does not return or that writes in front of the pool;
* `Vsa.system` — the runs, with a client that writes into the blocks it has.
-/

namespace Workbench.Vsa

/-- `SIZE_OF_VSA_STRUCT`. -/
def headerSize : Nat := 16

/-- `SPECIAL_MAGIC_NUM`. -/
def specialMagicNum : Int := 6897104101114

/-! ## Headers -/

/-- `block->block_size`. -/
def blockSize (m : Mem) (h : Nat) : Int := (m.load h).toInt

/-- `block->block_size = v`. -/
def setBlockSize (m : Mem) (h : Nat) (v : Int) : Mem := m.store h (BitVec.ofInt 64 v)

/-- `block->magic_num`. -/
def magicNum (m : Mem) (h : Nat) : Int := (m.load (h + 8)).toInt

/-- `VsaSetBlockSize`. -/
def vsaSetBlockSize (m : Mem) (h : Nat) (v : Int) : Mem :=
  (setBlockSize m h v).store (h + 8) (BitVec.ofInt 64 specialMagicNum)

/-- `CheckMagicNum`. -/
def checkMagicNum (m : Mem) (h : Nat) : Bool := magicNum m h == specialMagicNum

/-- `GetNextBlock`. -/
def getNextBlock (m : Mem) (h : Nat) : Nat := h + (blockSize m h).natAbs + headerSize

/-- `MergeFreeBlocks`. -/
def mergeFreeBlocks (first second : Int) : Int := first + second + headerSize

/-! ## The functions -/

/-- `VSAInit`. -/
def vsaInit (m : Mem) (memorySize : Nat) : Option Mem :=
  if memorySize < 2 * headerSize then none
  else
    -- one free block, and the end behind it
    let m := vsaSetBlockSize m 0 (memorySize - 2 * headerSize)
    some (vsaSetBlockSize m (getNextBlock m 0) 0)

/-- The body of the loop of `FindEnoughBLockSize`. -/
def findStep (m : Mem) (runner : Nat) : Mem × Nat :=
  if blockSize m runner < 0 then (m, getNextBlock m runner)
  else
    let next := getNextBlock m runner
    if 0 < blockSize m next then
      (setBlockSize m runner (mergeFreeBlocks (blockSize m runner) (blockSize m next)), runner)
    else
      -- here the header of the block is not skipped
      (m, runner + (blockSize m runner).toNat)

/-- `FindEnoughBLockSize`. -/
def findEnoughBlockSize (size : Int) : Nat → Mem → Nat → Option (Mem × Nat)
  | 0, _, _ => none
  | fuel + 1, m, runner =>
      if blockSize m runner < size ∧ blockSize m runner ≠ 0 then
        findEnoughBlockSize size fuel (findStep m runner).1 (findStep m runner).2
      else some (m, runner)

/-- `AllocateBlock`. -/
def allocateBlock (m : Mem) (runner : Nat) (size : Int) : Option (Mem × Nat) :=
  if blockSize m runner ≤ size + headerSize then
    some (vsaSetBlockSize m runner (-blockSize m runner), runner + headerSize)
  else
    -- the rest becomes a free block; the two headers are written without the magic number
    let next : Int := runner + size + headerSize
    -- a negative size leads back, at last in front of the pool
    if next < 0 then none
    else
      let m' := setBlockSize m next.toNat (blockSize m runner - size - headerSize)
      some (setBlockSize m' runner (-size), runner + headerSize)

/-- A `size_t` as a `long`. -/
def toLong (size : Nat) : Int := (BitVec.ofNat 64 size).toInt

/-- `VSAAlloc`; the assertion is the one of `CheckMagicNum`. -/
def vsaAlloc (fuel : Nat) (m : Mem) (size : Nat) : Option (Mem × Option Nat) :=
  if checkMagicNum m 0 then
    match findEnoughBlockSize (toLong size) fuel m 0 with
    | none => none
    | some (m, runner) =>
        -- the search has come to the end of the pool
        if blockSize m runner = 0 then some (m, none)
        else (allocateBlock m runner (toLong size)).map fun (m, block) => (m, some block)
  else none

/-- `VSAFree`. -/
def vsaFree (m : Mem) (block : Nat) : Mem :=
  setBlockSize m (block - headerSize) (blockSize m (block - headerSize)).natAbs

/-- The inner loop of `VSALargestChunkAvailable`. -/
def mergeFollowing : Nat → Mem → Nat → Option Mem
  | 0, _, _ => none
  | fuel + 1, m, runner =>
      let next := getNextBlock m runner
      if 0 < blockSize m runner ∧ 0 < blockSize m next then
        mergeFollowing fuel
          (vsaSetBlockSize m runner (mergeFreeBlocks (blockSize m runner) (blockSize m next))) runner
      else some m

/-- The outer loop of `VSALargestChunkAvailable`. -/
def largestFrom : Nat → Mem → Nat → Int → Option (Mem × Int)
  | 0, _, _, _ => none
  | fuel + 1, m, runner, most =>
      if blockSize m runner = 0 then some (m, most)
      else
        match mergeFollowing fuel m runner with
        | none => none
        | some m => largestFrom fuel m (getNextBlock m runner) (max most (blockSize m runner))

/-- `VSALargestChunkAvailable`. -/
def vsaLargestChunkAvailable (fuel : Nat) (m : Mem) : Option (Mem × Int) :=
  if checkMagicNum m 0 then largestFrom fuel m 0 0 else none

/-! ## Runs -/

/-- The pool, and the blocks that the client has: their addresses, and what it asked for. -/
structure State where
  mem : Mem
  live : List (Nat × Nat)

inductive Call where
  | alloc (size : Nat)
  | free (block : Nat)
  | largest
  /-- The client writes a byte. -/
  | write (address : Nat) (value : BitVec 8)

/-- `LONG_MAX`. -/
def longMax : Nat := 9223372036854775807

/-- What a call does, when it returns. The client writes into the payload of a block that it has, and frees no other
    blocks. -/
inductive Step : State → Call → State → Prop
  | alloc {m m' : Mem} {live : List (Nat × Nat)} {size fuel block : Nat} :
      1 ≤ size → size ≤ longMax → vsaAlloc fuel m size = some (m', some block) →
      Step ⟨m, live⟩ (.alloc size) ⟨m', (block, size) :: live⟩
  | null {m m' : Mem} {live : List (Nat × Nat)} {size fuel : Nat} :
      1 ≤ size → size ≤ longMax → vsaAlloc fuel m size = some (m', none) →
      Step ⟨m, live⟩ (.alloc size) ⟨m', live⟩
  | free {m : Mem} {live : List (Nat × Nat)} {block size : Nat} :
      (block, size) ∈ live → Step ⟨m, live⟩ (.free block) ⟨vsaFree m block, live.erase (block, size)⟩
  | largest {m m' : Mem} {live : List (Nat × Nat)} {fuel : Nat} {most : Int} :
      vsaLargestChunkAvailable fuel m = some (m', most) → Step ⟨m, live⟩ .largest ⟨m', live⟩
  | write {m : Mem} {live : List (Nat × Nat)} {block size address : Nat} {value : BitVec 8} :
      (block, size) ∈ live → block ≤ address → address < block + (blockSize m (block - headerSize)).natAbs →
      Step ⟨m, live⟩ (.write address value) ⟨m.setByte address value, live⟩

/-- The runs of a pool of `memorySize` bytes, whatever is in it at first. -/
def system (memorySize : Nat) : System State Call where
  init := fun s => ∃ m, vsaInit m memorySize = some s.mem ∧ s.live = []
  step := Step

end Workbench.Vsa
