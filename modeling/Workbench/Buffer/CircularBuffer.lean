import Mathlib.Tactic.Common

/-!
# `Buffer.CircularBuffer` — the circular buffer of bytes

The array has one byte more than the buffer holds, so that a full buffer is not an empty one. `size_t` is `UInt64`, and
`ssize_t` is `Int64`. A copy from or to bytes outside an array is `none`.

## Contents
* `cbufferCreate`, `cbufferSize`, `cbufferFreeSpace`, `cbufferIsEmpty`;
* `cbufferRead`, `cbufferWrite` — with one copy up to the end of the array, and one from its begin.
-/

namespace Workbench.Circular

/-- `struct CBuffer`. -/
structure CBuffer where
  capacity : UInt64
  readIndex : UInt64
  writeIndex : UInt64
  bufferArray : List UInt8

def freeByte : UInt64 := 1

/-- `MIN`. -/
def minimum (x y : UInt64) : UInt64 := if x > y then y else x

/-- `memcpy(&destination[i], &source[j], count)`. -/
def memcpy (destination : List UInt8) (i : UInt64) (source : List UInt8) (j count : UInt64) : Option (List UInt8) :=
  if i.toNat + count.toNat ≤ destination.length ∧ j.toNat + count.toNat ≤ source.length then
    some (destination.take i.toNat ++ (source.drop j.toNat).take count.toNat ++
      destination.drop (i.toNat + count.toNat))
  else
    none

def cbufferSize (cbuffer : CBuffer) : UInt64 :=
  (cbuffer.writeIndex - cbuffer.readIndex + cbuffer.capacity) % cbuffer.capacity

def cbufferIsEmpty (cbuffer : CBuffer) : Bool := 0 = cbufferSize cbuffer

def cbufferFreeSpace (cbuffer : CBuffer) : UInt64 := cbuffer.capacity - freeByte - cbufferSize cbuffer

/-- The buffer, the output and the number that is returned. -/
def cbufferRead (cbuffer : CBuffer) (output : List UInt8) (countBytes : UInt64) :
    Option (CBuffer × List UInt8 × Int64) := do
  let countBytes := minimum (cbufferSize cbuffer) countBytes
  let firstMemcpySteps := minimum countBytes (cbuffer.capacity - cbuffer.readIndex)
  let output ← memcpy output 0 cbuffer.bufferArray cbuffer.readIndex firstMemcpySteps
  let cbuffer := { cbuffer with readIndex := cbuffer.readIndex + firstMemcpySteps }
  let secondMemcpySteps := countBytes - firstMemcpySteps
  let output ← memcpy output firstMemcpySteps cbuffer.bufferArray 0 secondMemcpySteps
  let cbuffer := { cbuffer with readIndex := (cbuffer.readIndex + secondMemcpySteps) % cbuffer.capacity }
  return (cbuffer, output, countBytes.toInt64)

/-- The buffer and the number that is returned. -/
def cbufferWrite (cbuffer : CBuffer) (input : List UInt8) (countBytes : UInt64) : Option (CBuffer × Int64) := do
  let countBytes := minimum (cbufferFreeSpace cbuffer) countBytes
  let firstMemcpySteps := minimum countBytes (cbuffer.capacity - cbuffer.writeIndex)
  let bufferArray ← memcpy cbuffer.bufferArray cbuffer.writeIndex input 0 firstMemcpySteps
  let cbuffer := { cbuffer with bufferArray, writeIndex := cbuffer.writeIndex + firstMemcpySteps }
  let secondMemcpySteps := countBytes - firstMemcpySteps
  let bufferArray ← memcpy cbuffer.bufferArray 0 input firstMemcpySteps secondMemcpySteps
  let cbuffer :=
    { cbuffer with bufferArray, writeIndex := (cbuffer.writeIndex + secondMemcpySteps) % cbuffer.capacity }
  return (cbuffer, countBytes.toInt64)

end Workbench.Circular
