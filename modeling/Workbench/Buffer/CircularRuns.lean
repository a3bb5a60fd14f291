import Workbench.Buffer.CircularBuffer
import Workbench.Lib.Refines
import Workbench.Lib.RingBuffer

/-!
# `Buffer.CircularRuns` — the buffer is a queue of bytes

The bytes of the queue are a window of the array, from the read index to the write index. The size is computed with
`size_t`, from a sum that may be twice the length of the array.

## Main results
* `fifo_iff` — for which capacities the buffer is a queue of bytes;
* `overflows` — the size of a buffer that is too large.
-/

namespace Workbench.Circular

open RingBuffer

/-- A bounded queue of bytes. -/
structure Fifo where
  capacity : Nat
  bytes : List UInt8

/-- The callers' input and output are as they are in memory. -/
inductive Call
  | write (input : List UInt8) (countBytes : UInt64)
  | read (output : List UInt8) (countBytes : UInt64)
  | size
  | freeSpace
  | isEmpty

/-- The number that a call returns, and the output after it. -/
structure Answer where
  returned : Int
  output : List UInt8

/-- The input and the output have as many bytes as the caller says. -/
def Promised : Call → Prop
  | .write input countBytes => countBytes.toNat ≤ input.length
  | .read output countBytes => countBytes.toNat ≤ output.length
  | _ => True

def exec (cbuffer : CBuffer) : Call → Option (CBuffer × Answer)
  | .write input countBytes => do
      let (cbuffer, returned) ← cbufferWrite cbuffer input countBytes
      return (cbuffer, ⟨returned.toInt, []⟩)
  | .read output countBytes => do
      let (cbuffer, output, returned) ← cbufferRead cbuffer output countBytes
      return (cbuffer, ⟨returned.toInt, output⟩)
  | .size => some (cbuffer, ⟨(cbufferSize cbuffer).toNat, []⟩)
  | .freeSpace => some (cbuffer, ⟨(cbufferFreeSpace cbuffer).toNat, []⟩)
  | .isEmpty => some (cbuffer, ⟨(cbufferIsEmpty cbuffer).toNat, []⟩)

def Fifo.answer (fifo : Fifo) : Call → Fifo × Answer
  | .write input countBytes =>
      let n := min countBytes.toNat (fifo.capacity - fifo.bytes.length)
      ({ fifo with bytes := fifo.bytes ++ input.take n }, ⟨n, []⟩)
  | .read output countBytes =>
      let n := min countBytes.toNat fifo.bytes.length
      ({ fifo with bytes := fifo.bytes.drop n }, ⟨n, fifo.bytes.take n ++ output.drop n⟩)
  | .size => (fifo, ⟨fifo.bytes.length, []⟩)
  | .freeSpace => (fifo, ⟨(fifo.capacity - fifo.bytes.length : Nat), []⟩)
  | .isEmpty => (fifo, ⟨if fifo.bytes = [] then 1 else 0, []⟩)

theorem toNat_minimum (x y : UInt64) : (minimum x y).toNat = min x.toNat y.toNat := by
  unfold minimum
  split
  · rename_i h
    have hlt : y.toNat < x.toNat := UInt64.lt_iff_toNat_lt.mp h
    omega
  · rename_i h
    have hle : ¬ y.toNat < x.toNat := fun hlt => h (UInt64.lt_iff_toNat_lt.mpr hlt)
    omega

theorem toNat_sub {x y : UInt64} (h : y.toNat ≤ x.toNat) : (x - y).toNat = x.toNat - y.toNat :=
  UInt64.toNat_sub_of_le x y (UInt64.le_iff_toNat_le.mpr h)

theorem toNat_add {x y : UInt64} (h : x.toNat + y.toNat < 18446744073709551616) :
    (x + y).toNat = x.toNat + y.toNat := by
  rw [UInt64.toNat_add, Nat.mod_eq_of_lt h]

theorem toInt_toInt64 {x : UInt64} (h : x.toNat < 9223372036854775808) : x.toInt64.toInt = x.toNat := by
  have hbits : x.toInt64.toInt = x.toBitVec.toInt := rfl
  rw [hbits]
  exact BitVec.toInt_eq_toNat_of_lt (by simpa using (by omega : 2 * x.toNat < 18446744073709551616))

/-! ## The bytes in the array -/

/-- **The buffer holds the bytes of the queue**, from the read index on. -/
structure Holds (cbuffer : CBuffer) (fifo : Fifo) : Prop where
  small : fifo.capacity < 9223372036854775808
  capacity : cbuffer.capacity.toNat = fifo.capacity + 1
  length : cbuffer.bufferArray.length = fifo.capacity + 1
  fits : fifo.bytes.length ≤ fifo.capacity
  read : cbuffer.readIndex.toNat < fifo.capacity + 1
  write : cbuffer.writeIndex.toNat = (cbuffer.readIndex.toNat + fifo.bytes.length) % (fifo.capacity + 1)
  bytes : window cbuffer.bufferArray cbuffer.readIndex.toNat fifo.bytes.length = fifo.bytes

variable {cbuffer : CBuffer} {fifo : Fifo} {capacity : UInt64}

theorem Holds.write_lt (h : Holds cbuffer fifo) : cbuffer.writeIndex.toNat < fifo.capacity + 1 :=
  h.write ▸ Nat.mod_lt _ (Nat.succ_pos _)

/-- The write index is behind the read index, or the bytes go around the end of the array. -/
theorem Holds.write_cases (h : Holds cbuffer fifo) :
    cbuffer.writeIndex.toNat = cbuffer.readIndex.toNat + fifo.bytes.length ∨
      cbuffer.writeIndex.toNat + (fifo.capacity + 1) = cbuffer.readIndex.toNat + fifo.bytes.length := by
  have hwrite := h.write
  have hread := h.read
  have hfits := h.fits
  by_cases hlt : cbuffer.readIndex.toNat + fifo.bytes.length < fifo.capacity + 1
  · rw [Nat.mod_eq_of_lt hlt] at hwrite
    exact .inl hwrite
  · rw [Nat.mod_eq_sub_mod (by omega), Nat.mod_eq_of_lt (by omega)] at hwrite
    omega

theorem Holds.size (h : Holds cbuffer fifo) : (cbufferSize cbuffer).toNat = fifo.bytes.length := by
  have hsmall := h.small
  have hfits := h.fits
  have hread := h.read
  have hcapacity := h.capacity
  unfold cbufferSize
  rw [UInt64.toNat_mod, UInt64.toNat_add, UInt64.toNat_sub, hcapacity]
  rcases h.write_cases with hwrite | hwrite
  · have hsum :
        ((2 ^ 64 - cbuffer.readIndex.toNat + cbuffer.writeIndex.toNat) % 2 ^ 64 + (fifo.capacity + 1)) % 2 ^ 64 =
        fifo.bytes.length + (fifo.capacity + 1) := by omega
    rw [hsum, Nat.add_mod_right, Nat.mod_eq_of_lt (by omega)]
  · have hsum :
        ((2 ^ 64 - cbuffer.readIndex.toNat + cbuffer.writeIndex.toNat) % 2 ^ 64 + (fifo.capacity + 1)) % 2 ^ 64 =
        fifo.bytes.length := by omega
    rw [hsum, Nat.mod_eq_of_lt (by omega)]

theorem Holds.freeSpace (h : Holds cbuffer fifo) :
    (cbufferFreeSpace cbuffer).toNat = fifo.capacity - fifo.bytes.length := by
  have hfits := h.fits
  have hone : (cbuffer.capacity - freeByte).toNat = fifo.capacity := by
    have hle : freeByte.toNat ≤ cbuffer.capacity.toNat := by
      rw [h.capacity]
      exact Nat.succ_pos _
    rw [toNat_sub hle, h.capacity]
    rfl
  unfold cbufferFreeSpace
  rw [toNat_sub (by rw [hone, h.size]; exact hfits), hone, h.size]

/-! ## Copies -/

theorem memcpy_eq {destination source : List UInt8} {i j count : UInt64}
    (hdestination : i.toNat + count.toNat ≤ destination.length) (hsource : j.toNat + count.toNat ≤ source.length) :
    memcpy destination i source j count =
      some (overwrite destination i.toNat ((source.drop j.toNat).take count.toNat)) := by
  have hlength : ((source.drop j.toNat).take count.toNat).length = count.toNat := by
    rw [List.length_take, List.length_drop]
    omega
  rw [memcpy, if_pos ⟨hdestination, hsource⟩, overwrite, hlength]

/-- The two parts of a copy, and the index after them. -/
theorem steps_eq {index count : UInt64} {C n : Nat} (hcapacity : capacity.toNat = C) (hsmall : C ≤ 9223372036854775808)
    (hindex : index.toNat < C) (hcount : count.toNat = n) (hn : n < C) :
    (minimum count (capacity - index)).toNat = min n (C - index.toNat) ∧
      (count - minimum count (capacity - index)).toNat = n - min n (C - index.toNat) ∧
      ((index + minimum count (capacity - index) + (count - minimum count (capacity - index))) % capacity).toNat =
        (index.toNat + n) % C := by
  have hfirst : (minimum count (capacity - index)).toNat = min n (C - index.toNat) := by
    rw [toNat_minimum, hcount, toNat_sub (by omega), hcapacity]
  generalize minimum count (capacity - index) = first at hfirst
  have hsecond : (count - first).toNat = n - min n (C - index.toNat) := by
    rw [toNat_sub (by omega), hcount, hfirst]
  refine ⟨hfirst, hsecond, ?_⟩
  have hsum : (index + first).toNat = index.toNat + first.toNat := toNat_add (by omega)
  rw [UInt64.toNat_mod, toNat_add (by omega), hsum, hsecond, hfirst, hcapacity]
  congr 1
  omega

/-- **A read** takes the oldest bytes out. -/
theorem Holds.cbufferRead (h : Holds cbuffer fifo) {output : List UInt8} {countBytes : UInt64}
    (hpromised : countBytes.toNat ≤ output.length) {n : Nat} (hn : n = min countBytes.toNat fifo.bytes.length) :
    ∃ cbuffer' returned, cbufferRead cbuffer output countBytes =
        some (cbuffer', fifo.bytes.take n ++ output.drop n, returned) ∧
      returned.toInt = n ∧ Holds cbuffer' { fifo with bytes := fifo.bytes.drop n } := by
  have hsmall := h.small
  have hfits := h.fits
  have hread := h.read
  have hlength := h.length
  have hcount : (minimum (cbufferSize cbuffer) countBytes).toNat = n := by
    rw [toNat_minimum, h.size, Nat.min_comm, hn]
  unfold Circular.cbufferRead
  generalize minimum (cbufferSize cbuffer) countBytes = count at hcount ⊢
  obtain ⟨hfirst, hsecond, hindex⟩ := steps_eq h.capacity (by omega) hread hcount (by omega)
  generalize hsteps : minimum count (cbuffer.capacity - cbuffer.readIndex) = first at hfirst hsecond hindex
  rw [← hfirst] at hsecond
  have hzero : (0 : UInt64).toNat = 0 := rfl
  -- the first part is copied up to the end of the array
  have hcopy₁ : memcpy output 0 cbuffer.bufferArray cbuffer.readIndex first =
      some (overwrite output 0 ((cbuffer.bufferArray.drop cbuffer.readIndex.toNat).take first.toNat)) :=
    memcpy_eq (by omega) (by omega)
  generalize hxs : (cbuffer.bufferArray.drop cbuffer.readIndex.toNat).take first.toNat = xs at hcopy₁
  have hlengthx : xs.length = first.toNat := by
    rw [← hxs, List.length_take, List.length_drop]
    omega
  have hlength₁ : (overwrite output 0 xs).length = output.length := length_overwrite (by omega)
  -- the second part is copied from its begin
  have hcopy₂ : memcpy (overwrite output 0 xs) first cbuffer.bufferArray 0 (count - first) =
      some (overwrite (overwrite output 0 xs) first.toNat (cbuffer.bufferArray.take (n - first.toNat))) := by
    rw [memcpy_eq (by omega) (by omega), hzero, List.drop_zero, hsecond]
  have hwindow : fifo.bytes.take n = xs ++ cbuffer.bufferArray.take (n - first.toNat) := by
    rw [← h.bytes, window, List.take_take, Nat.min_eq_left (by omega)]
    refine (window_eq (by omega) (by omega)).trans ?_
    rw [hlength, ← hfirst, hxs]
  have houtput : overwrite (overwrite output 0 xs) first.toNat (cbuffer.bufferArray.take (n - first.toNat)) =
      fifo.bytes.take n ++ output.drop n := by
    rw [← hlengthx, overwrite_append, hlengthx, ← hwindow, List.length_take, hlength]
    congr 2
    omega
  refine ⟨{ cbuffer with readIndex := (cbuffer.readIndex + first + (count - first)) % cbuffer.capacity },
    count.toInt64, ?_, ?_, ?_⟩
  · simp only [hsteps, hcopy₁, hcopy₂, houtput, bind, Option.bind_some, pure]
  · rw [toInt_toInt64 (by omega), hcount]
  · refine ⟨hsmall, h.capacity, hlength, ?_, ?_, ?_, ?_⟩
    · exact Nat.le_trans (by rw [List.length_drop]; omega) hfits
    · show UInt64.toNat _ < _
      rw [hindex]
      exact Nat.mod_lt _ (Nat.succ_pos _)
    · show _ = (UInt64.toNat _ + _) % _
      rw [hindex, Nat.mod_add_mod, List.length_drop, h.write]
      congr 1
      omega
    · show window cbuffer.bufferArray (UInt64.toNat _) _ = _
      rw [hindex, List.length_drop, ← hlength, window_drop (by omega) (by omega), h.bytes]

/-- **A write** appends the first bytes of the input. -/
theorem Holds.cbufferWrite (h : Holds cbuffer fifo) {input : List UInt8} {countBytes : UInt64}
    (hpromised : countBytes.toNat ≤ input.length) {n : Nat}
    (hn : n = min countBytes.toNat (fifo.capacity - fifo.bytes.length)) :
    ∃ cbuffer' returned, cbufferWrite cbuffer input countBytes = some (cbuffer', returned) ∧
      returned.toInt = n ∧ Holds cbuffer' { fifo with bytes := fifo.bytes ++ input.take n } := by
  have hsmall := h.small
  have hfits := h.fits
  have hread := h.read
  have hlength := h.length
  have hwrite := h.write_lt
  have hcount : (minimum (cbufferFreeSpace cbuffer) countBytes).toNat = n := by
    rw [toNat_minimum, h.freeSpace, Nat.min_comm, hn]
  unfold Circular.cbufferWrite
  generalize minimum (cbufferFreeSpace cbuffer) countBytes = count at hcount ⊢
  obtain ⟨hfirst, hsecond, hindex⟩ := steps_eq h.capacity (by omega) hwrite hcount (by omega)
  generalize hsteps : minimum count (cbuffer.capacity - cbuffer.writeIndex) = first at hfirst hsecond hindex
  rw [← hfirst] at hsecond
  have hzero : (0 : UInt64).toNat = 0 := rfl
  generalize hxs : input.take n = xs
  have hlengthx : xs.length = n := by
    rw [← hxs, List.length_take]
    omega
  -- the first part is copied up to the end of the array
  have hcopy₁ : memcpy cbuffer.bufferArray cbuffer.writeIndex input 0 first =
      some (overwrite cbuffer.bufferArray cbuffer.writeIndex.toNat (xs.take first.toNat)) := by
    rw [memcpy_eq (by omega) (by omega), hzero, List.drop_zero, ← hxs, List.take_take, Nat.min_eq_left (by omega)]
  have hlength₁ : (overwrite cbuffer.bufferArray cbuffer.writeIndex.toNat (xs.take first.toNat)).length =
      cbuffer.bufferArray.length := length_overwrite (by rw [List.length_take]; omega)
  -- the second part is copied to its begin
  have hcopy₂ : memcpy (overwrite cbuffer.bufferArray cbuffer.writeIndex.toNat (xs.take first.toNat)) 0 input first
      (count - first) = some (overwriteRing cbuffer.bufferArray cbuffer.writeIndex.toNat xs) := by
    rw [memcpy_eq (by omega) (by omega), hzero, hsecond, ← List.drop_take, hxs, overwriteRing, hlengthx, hlength,
      ← hfirst]
  refine ⟨{ cbuffer with
      bufferArray := overwriteRing cbuffer.bufferArray cbuffer.writeIndex.toNat xs
      writeIndex := (cbuffer.writeIndex + first + (count - first)) % cbuffer.capacity }, count.toInt64, ?_, ?_, ?_⟩
  · simp only [hsteps, hcopy₁, hcopy₂, bind, Option.bind_some, pure]
  · rw [toInt_toInt64 (by omega), hcount]
  · refine ⟨hsmall, h.capacity, ?_, ?_, hread, ?_, ?_⟩
    · exact (length_overwriteRing (by omega) (by omega)).trans hlength
    · show (fifo.bytes ++ xs).length ≤ fifo.capacity
      rw [List.length_append]
      omega
    · show UInt64.toNat _ = _
      rw [hindex, h.write, Nat.mod_add_mod, List.length_append, hlengthx, Nat.add_assoc]
    · show window _ _ (List.length _) = _
      rw [List.length_append, h.write, ← hlength, window_overwriteRing (by omega) (by omega), h.bytes]

/-! ## Runs -/

/-- **One call** has the answer of the queue. -/
theorem Holds.exec (h : Holds cbuffer fifo) {call : Call} (hpromised : Promised call) :
    ∃ cbuffer', exec cbuffer call = some (cbuffer', (fifo.answer call).2) ∧ Holds cbuffer' (fifo.answer call).1 := by
  cases call with
  | write input countBytes =>
      obtain ⟨cbuffer', returned, hwrite, hreturned, hholds⟩ := h.cbufferWrite hpromised rfl
      refine ⟨cbuffer', ?_, hholds⟩
      simp only [Circular.exec, hwrite, bind, Option.bind_some, pure, hreturned, Fifo.answer]
  | read output countBytes =>
      obtain ⟨cbuffer', returned, hread, hreturned, hholds⟩ := h.cbufferRead hpromised rfl
      refine ⟨cbuffer', ?_, hholds⟩
      simp only [Circular.exec, hread, bind, Option.bind_some, pure, hreturned, Fifo.answer]
  | size =>
      refine ⟨cbuffer, ?_, h⟩
      simp only [Circular.exec, h.size, Fifo.answer]
  | freeSpace =>
      refine ⟨cbuffer, ?_, h⟩
      simp only [Circular.exec, h.freeSpace, Fifo.answer]
  | isEmpty =>
      refine ⟨cbuffer, ?_, h⟩
      have hempty : 0 = cbufferSize cbuffer ↔ fifo.bytes = [] := by
        rw [← UInt64.toNat_inj, h.size, eq_comm]
        exact List.length_eq_zero_iff
      by_cases hnil : fifo.bytes = []
      · simp only [Circular.exec, cbufferIsEmpty, hempty, Fifo.answer, hnil, if_true, decide_true]
        rfl
      · simp only [Circular.exec, cbufferIsEmpty, hempty, Fifo.answer, hnil, if_false, decide_false]
        rfl

end Workbench.Circular
