import Mathlib.Algebra.GroupWithZero.Nat
import Workbench.Lib.While

/-!
# `Events.Transfer` — `read_all` and `write_all`

The two loops differ in what a call does with the bytes. A pointer is an offset from the start of the buffer. A result
is stored in an `int`, and is added to the pointer and subtracted from the unsigned counter as it is. Where bytes
outside of the buffer are read or written, there is no result here.

## Contents
* `Descriptor`, `Channel` — what a call returns, and what it does;
* `readAll`, `writeAll` — the loops;
* `Sound` — what is expected of the calls;
* `flows_of_sound`, `transferAll_sound` — when a loop keeps to it;
* `all_iff` — the two loops.
-/

namespace Workbench.Events.Transfer

/-- What the calls return: -1, or a number of bytes up to those that were asked for. -/
structure Descriptor where
  respond (call : Nat) (asked : Nat) : Int
  valid (call asked : Nat) : -1 ≤ respond call asked ∧ respond call asked ≤ asked

/-- A buffer, which is smaller than half of the address space. -/
structure Buffer where
  bytes : List UInt8
  small : bytes.length < 9223372036854775808

/-- One call of `read` or `write`. -/
structure Call where
  buf : Int
  count : Nat
  result : Int

/-- The bytes that were transferred. -/
def delivered (calls : List Call) : Nat := (calls.map fun call => call.result.toNat).sum

/-- A way to transfer bytes between a buffer of so many bytes and a descriptor: what a call does, and the state after so
    many bytes were transferred in order. -/
structure Channel (δ : Type) (length : Nat) where
  move (buf : Int) (bytes : Nat) (data : δ) : Option δ
  ordered (total : Nat) : δ
  move_ordered (total bytes : Nat) (h : total + bytes ≤ length) :
    move total bytes (ordered total) = some (ordered (total + bytes))

/-- The variables of the loops, with the data and the calls so far. -/
structure State (δ : Type) where
  buf : Int
  count : Nat
  data : δ
  calls : List Call

variable {δ : Type} {length : Nat}

/-- The value that an `int` keeps of a result. -/
def toInt (result : Int) : Int := result.bmod 4294967296

/-- The result of the next call. -/
def State.result (fd : Descriptor) (s : State δ) : Int := fd.respond s.calls.length s.count

def State.call (fd : Descriptor) (s : State δ) : Call := ⟨s.buf, s.count, s.result fd⟩

def State.after (fd : Descriptor) (s : State δ) (data : δ) : State δ where
  buf := s.buf + toInt (s.result fd)
  count := ((s.count - toInt (s.result fd)) % 18446744073709551616).toNat
  data := data
  calls := s.calls ++ [s.call fd]

/-- A turn of the loop. -/
def turn (fd : Descriptor) (channel : Channel δ length) (s : State δ) : Option (State δ) :=
  (if 0 < s.result fd then channel.move s.buf (s.result fd).toNat s.data else some s.data).map (s.after fd)

def transferAll (fd : Descriptor) (channel : Channel δ length) (fuel : Nat) : Option (State δ) :=
  whileDo (fun s => some (decide (0 < s.count))) (turn fd channel) fuel ⟨0, length, channel.ordered 0, []⟩

/-- What `read` does: it puts the next bytes of the stream at `buf`. -/
def readBytes (stream : Nat → UInt8) (buf : Int) (bytes : Nat) (data : List UInt8 × Nat) : Option (List UInt8 × Nat) :=
  if 0 ≤ buf ∧ buf.toNat + bytes ≤ data.1.length then
    some (data.1.take buf.toNat ++ (List.range bytes).map (fun i => stream (data.2 + i)) ++
      data.1.drop (buf.toNat + bytes), data.2 + bytes)
  else
    none

/-- What `write` does: it sends the bytes at `buf`. -/
def writeBytes (block : List UInt8) (buf : Int) (bytes : Nat) (sent : List UInt8) : Option (List UInt8) :=
  if 0 ≤ buf ∧ buf.toNat + bytes ≤ block.length then
    some (sent ++ (block.drop buf.toNat).take bytes)
  else
    none

/-- The buffer with the first bytes of the stream. -/
def filled (block : List UInt8) (stream : Nat → UInt8) (total : Nat) : List UInt8 :=
  (List.range total).map stream ++ block.drop total

def readChannel (stream : Nat → UInt8) (buffer : Buffer) : Channel (List UInt8 × Nat) buffer.bytes.length where
  move := readBytes stream
  ordered total := (filled buffer.bytes stream total, total)
  move_ordered total bytes h := by
    have hlength : (filled buffer.bytes stream total).length = buffer.bytes.length := by
      rw [filled, List.length_append, List.length_map, List.length_range, List.length_drop]
      omega
    have hfront : (filled buffer.bytes stream total).take total = (List.range total).map stream :=
      List.take_left' (by rw [List.length_map, List.length_range])
    have hback : (filled buffer.bytes stream total).drop (total + bytes) = buffer.bytes.drop (total + bytes) := by
      rw [filled, ← List.drop_drop, List.drop_left' (by rw [List.length_map, List.length_range]), List.drop_drop]
    have hmore : filled buffer.bytes stream (total + bytes) =
        (List.range total).map stream ++ (List.range bytes).map (fun i => stream (total + i)) ++
          buffer.bytes.drop (total + bytes) := by
      rw [filled, List.range_add, List.map_append, List.map_map]
      rfl
    rw [readBytes, if_pos ⟨Int.natCast_nonneg total, by rw [Int.toNat_natCast, hlength]; exact h⟩, Int.toNat_natCast,
      hfront, hback, hmore]

def writeChannel (buffer : Buffer) : Channel (List UInt8) buffer.bytes.length where
  move := writeBytes buffer.bytes
  ordered total := buffer.bytes.take total
  move_ordered total bytes h := by
    rw [writeBytes, if_pos ⟨Int.natCast_nonneg total, by rw [Int.toNat_natCast]; exact h⟩, Int.toNat_natCast,
      List.take_add]

/-- `read_all` from a stream. -/
def readAll (fd : Descriptor) (stream : Nat → UInt8) (buffer : Buffer) (fuel : Nat) :
    Option (State (List UInt8 × Nat)) := transferAll fd (readChannel stream buffer) fuel

def writeAll (fd : Descriptor) (buffer : Buffer) (fuel : Nat) : Option (State (List UInt8)) :=
  transferAll fd (writeChannel buffer) fuel

/-! ## What is expected -/

/-- All bytes are transferred, or the descriptor has reported an error or the end of file. -/
def Finished (length : Nat) (calls : List Call) : Prop := delivered calls = length ∨ ∃ call ∈ calls, call.result ≤ 0

/-- **The calls of a transfer**: each one is inside of the buffer and starts where the bytes before it end, and they
    end when the transfer is finished. -/
structure Sound (length : Nat) (calls : List Call) : Prop where
  inside : ∀ call ∈ calls, 0 ≤ call.buf ∧ call.buf + call.count ≤ length
  inOrder : ∀ (before : List Call) (call : Call) (after : List Call),
    calls = before ++ call :: after → call.buf = delivered before
  ends : ∀ before after, calls = before ++ after → (after = [] ↔ Finished length before)

/-- **`read_all` ends**, with sound calls, and the first bytes of the stream are in the buffer in order. -/
def ReadsAll (fd : Descriptor) (stream : Nat → UInt8) (buffer : Buffer) : Prop :=
  ∃ fuel s, readAll fd stream buffer fuel = some s ∧ Sound buffer.bytes.length s.calls ∧
    s.data.1 = filled buffer.bytes stream (delivered s.calls)

/-- **`write_all` ends**, with sound calls, and the first bytes of the buffer are sent in order. -/
def WritesAll (fd : Descriptor) (buffer : Buffer) : Prop :=
  ∃ fuel s, writeAll fd buffer fuel = some s ∧ Sound buffer.bytes.length s.calls ∧
    s.data = buffer.bytes.take (delivered s.calls)

/-- The bytes that are left after some calls. -/
def left (fd : Descriptor) (length : Nat) : Nat → Nat
  | 0 => length
  | call + 1 => left fd length call - (fd.respond call (left fd length call)).toNat

/-- As long as bytes are left, a call transfers at least one, and not more than an `int` can count. -/
def Flows (fd : Descriptor) (length : Nat) : Prop :=
  ∀ call, 0 < left fd length call →
    0 < fd.respond call (left fd length call) ∧ fd.respond call (left fd length call) < 2147483648

/-! ## Good results -/

variable {fd : Descriptor} {channel : Channel δ length} {s s' : State δ} {calls : List Call} {call : Call}

theorem delivered_append (calls : List Call) (call : Call) :
    delivered (calls ++ [call]) = delivered calls + call.result.toNat := by
  rw [delivered, List.map_append, List.sum_append]
  rfl

/-- An `int` keeps a result that is small enough. -/
theorem toInt_eq {result : Int} (hlow : -1 ≤ result) (hhigh : result < 2147483648) : toInt result = result := by
  rw [toInt, Int.bmod_def]
  omega

/-- A larger one becomes smaller. -/
theorem toInt_lt {result : Int} (h : 2147483648 ≤ result) : -2147483648 ≤ toInt result ∧ toInt result < result := by
  rw [toInt, Int.bmod_def]
  omega

/-- So far all results were good. -/
structure Going (fd : Descriptor) (channel : Channel δ length) (s : State δ) : Prop where
  count : s.count = left fd length s.calls.length
  total : delivered s.calls + s.count = length
  buf : s.buf = delivered s.calls
  data : s.data = channel.ordered (delivered s.calls)
  inside : ∀ call ∈ s.calls, 0 ≤ call.buf ∧ call.buf + call.count ≤ length
  inOrder : ∀ (before : List Call) (call : Call) (after : List Call),
    s.calls = before ++ call :: after → call.buf = delivered before
  unfinished : ∀ before after, s.calls = before ++ after → after ≠ [] → ¬ Finished length before
  positive : ∀ call ∈ s.calls, 0 < call.result
  good : ∀ call < s.calls.length, 0 < fd.respond call (left fd length call) ∧
    fd.respond call (left fd length call) < 2147483648

theorem Going.start (fd : Descriptor) (channel : Channel δ length) :
    Going fd channel ⟨0, length, channel.ordered 0, []⟩ where
  count := rfl
  total := Nat.zero_add length
  buf := rfl
  data := rfl
  inside := nofun
  inOrder before call after h := by cases (List.append_eq_nil_iff.mp h.symm).2
  unfinished before after h hne := absurd (List.append_eq_nil_iff.mp h.symm).2 hne
  positive := nofun
  good := nofun

/-- A list with one more element is cut at the new element, or before it. -/
theorem concat_eq_append {calls before after : List Call} {last : Call} (h : calls ++ [last] = before ++ after)
    (hne : after ≠ []) : ∃ rest, after = rest ++ [last] ∧ calls = before ++ rest := by
  obtain ⟨rest, last', rfl⟩ := (List.eq_nil_or_concat after).resolve_left hne
  rw [List.concat_eq_append, ← List.append_assoc] at h
  obtain ⟨hcalls, hlast⟩ := List.append_inj' h rfl
  obtain rfl := List.singleton_inj.mp hlast
  exact ⟨rest, List.concat_eq_append, hcalls⟩

/-- The transfer is not finished before a turn. -/
theorem Going.not_finished (h : Going fd channel s) (hcount : 0 < s.count) : ¬ Finished length s.calls := by
  have htotal := h.total
  rintro (hall | ⟨call, hcall, hresult⟩)
  · omega
  · have hpositive := h.positive call hcall
    omega

theorem forall_mem_concat {P : Call → Prop} {calls : List Call} {last : Call} (hcalls : ∀ call ∈ calls, P call)
    (hlast : P last) : ∀ call ∈ calls ++ [last], P call := by
  intro call hcall
  rcases List.mem_append.mp hcall with hold | hnew
  · exact hcalls call hold
  · obtain rfl := List.mem_singleton.mp hnew
    exact hlast

/-- The next call is in order too. -/
theorem Going.inOrder_concat (h : Going fd channel s) (before : List Call) (call : Call) (after : List Call)
    (heq : s.calls ++ [s.call fd] = before ++ call :: after) : call.buf = delivered before := by
  obtain ⟨rest, hafter, hcalls⟩ := concat_eq_append heq (List.cons_ne_nil _ _)
  cases rest with
  | nil =>
      obtain ⟨rfl, -⟩ := List.cons.inj hafter
      rw [List.append_nil] at hcalls
      exact hcalls ▸ h.buf
  | cons call' rest =>
      obtain ⟨rfl, -⟩ := List.cons.inj hafter
      exact h.inOrder before call rest hcalls

theorem Going.unfinished_concat (h : Going fd channel s) (hcount : 0 < s.count) (before after : List Call)
    (heq : s.calls ++ [s.call fd] = before ++ after) (hne : after ≠ []) : ¬ Finished length before := by
  obtain ⟨rest, hafter, hcalls⟩ := concat_eq_append heq hne
  by_cases hrest : rest = []
  · rw [hrest, List.append_nil] at hcalls
    exact hcalls ▸ h.not_finished hcount
  · exact h.unfinished before rest hcalls hrest

/-- What is left after a good result. -/
theorem count_after (hsmall : length < 9223372036854775808) (hcount : s.count ≤ length) (hvalid : s.result fd ≤ s.count)
    (hlow : 0 < s.result fd) (hhigh : s.result fd < 2147483648) (data : δ) :
    (s.after fd data).count = s.count - (s.result fd).toNat := by
  show ((s.count - toInt (s.result fd)) % 18446744073709551616).toNat = _
  rw [toInt_eq (by omega) hhigh]
  omega

/-- **A turn with a good result.** -/
theorem Going.turn (h : Going fd channel s) (hsmall : length < 9223372036854775808) (hcount : 0 < s.count)
    (hlow : 0 < s.result fd) (hhigh : s.result fd < 2147483648) :
    ∃ s', turn fd channel s = some s' ∧ Going fd channel s' ∧ s'.count < s.count := by
  have htotal := h.total
  have hvalid : s.result fd ≤ s.count := (fd.valid _ _).2
  have hless := count_after hsmall (by omega) hvalid hlow hhigh
    (channel.ordered (delivered s.calls + (s.result fd).toNat))
  have hmove : channel.move s.buf (s.result fd).toNat s.data =
      some (channel.ordered (delivered s.calls + (s.result fd).toNat)) := by
    rw [h.buf, h.data]
    exact channel.move_ordered _ _ (by omega)
  have hdelivered : delivered (s.calls ++ [s.call fd]) = delivered s.calls + (s.result fd).toNat :=
    delivered_append s.calls (s.call fd)
  have hlength : (s.calls ++ [s.call fd]).length = s.calls.length + 1 := List.length_append
  refine ⟨s.after fd _, by rw [Transfer.turn, if_pos hlow, hmove]; rfl, ?_, by rw [hless]; omega⟩
  exact {
    count := by
      show _ = left fd length (s.calls ++ _).length
      rw [hless, hlength, left, ← h.count]
      rfl
    total := by
      show delivered (s.calls ++ _) + _ = length
      rw [hless, hdelivered]
      omega
    buf := by
      show s.buf + toInt (s.result fd) = delivered (s.calls ++ _)
      rw [hdelivered, toInt_eq (by omega) hhigh, h.buf]
      omega
    data := by
      show channel.ordered _ = channel.ordered (delivered (s.calls ++ _))
      rw [hdelivered]
    inside := by
      refine forall_mem_concat h.inside ?_
      show 0 ≤ s.buf ∧ s.buf + s.count ≤ length
      rw [h.buf]
      omega
    inOrder := h.inOrder_concat
    unfinished := h.unfinished_concat hcount
    positive := forall_mem_concat h.positive hlow
    good := by
      intro call hcall
      rcases Nat.lt_succ_iff_lt_or_eq.mp (hlength ▸ hcall) with hold | rfl
      · exact h.good call hold
      · rw [← h.count]
        exact ⟨hlow, hhigh⟩ }

/-- **All results were good**, and the loop is at its end. -/
theorem Going.sound (h : Going fd channel s) (hcount : s.count = 0) : Sound length s.calls := by
  refine ⟨h.inside, h.inOrder, fun before after heq => ⟨?_, fun hfinished => ?_⟩⟩
  · rintro rfl
    rw [List.append_nil] at heq
    have htotal := h.total
    exact .inl (by rw [← heq]; omega)
  · by_contra hne
    exact h.unfinished before after heq hne hfinished

/-! ## Other results -/

/-- A call at `buf` is not sound after these calls. -/
def Off (calls : List Call) (buf : Int) : Prop := (∃ call ∈ calls, call.result ≤ 0) ∨ buf ≠ delivered calls

theorem Sound.not_off {before : List Call} (h : Sound length calls) (hinitial : before ++ [call] <+: calls) :
    ¬ Off before call.buf := by
  obtain ⟨after, rfl⟩ := hinitial
  have heq : before ++ [call] ++ after = before ++ call :: after := List.append_assoc _ _ _
  rintro (hresult | hbuf)
  · exact List.cons_ne_nil _ _ ((h.ends before (call :: after) heq).mpr (.inr hresult))
  · exact hbuf (h.inOrder before call after heq)

/-- **A turn with another result**: the loop goes on, with a call that is not sound. -/
theorem Going.off (h : Going fd channel s) (hsmall : length < 9223372036854775808) (hcount : 0 < s.count)
    (hbad : ¬ (0 < s.result fd ∧ s.result fd < 2147483648)) (data : δ) :
    0 < (s.after fd data).count ∧ Off (s.after fd data).calls (s.after fd data).buf := by
  have htotal := h.total
  obtain ⟨hlow, hhigh⟩ : -1 ≤ s.result fd ∧ s.result fd ≤ s.count := fd.valid _ _
  by_cases hpositive : 0 < s.result fd
  · have hlarge : 2147483648 ≤ s.result fd := Int.not_lt.mp fun hlt => hbad ⟨hpositive, hlt⟩
    obtain ⟨hint, hless⟩ := toInt_lt hlarge
    constructor
    · show 0 < ((s.count - toInt (s.result fd)) % 18446744073709551616).toNat
      omega
    · refine .inr ?_
      show s.buf + toInt (s.result fd) ≠ delivered (s.calls ++ [s.call fd])
      have hdelivered : delivered (s.calls ++ [s.call fd]) = delivered s.calls + (s.result fd).toNat :=
        delivered_append s.calls (s.call fd)
      rw [hdelivered, h.buf]
      omega
  · constructor
    · show 0 < ((s.count - toInt (s.result fd)) % 18446744073709551616).toNat
      rw [toInt_eq hlow (by omega)]
      omega
    · exact .inl ⟨s.call fd, List.mem_append_right _ List.mem_cons_self, Int.not_lt.mp hpositive⟩

/-- All results were good, or a call is not sound, or the next one will not be. -/
def Inv (fd : Descriptor) (channel : Channel δ length) (s : State δ) : Prop :=
  Going fd channel s ∨ (0 < s.count ∧ Off s.calls s.buf) ∨
    ∃ before call, before ++ [call] <+: s.calls ∧ Off before call.buf

theorem turn_inv (hsmall : length < 9223372036854775808) (h : Inv fd channel s) (hcount : 0 < s.count)
    (hturn : turn fd channel s = some s') : Inv fd channel s' := by
  obtain ⟨data, -, hs'⟩ := Option.map_eq_some_iff.mp hturn
  rcases h with hgoing | ⟨-, hoff⟩ | ⟨before, call, hinitial, hoff⟩
  · by_cases hgood : 0 < s.result fd ∧ s.result fd < 2147483648
    · obtain ⟨s'', hturn', hgoing', -⟩ := hgoing.turn hsmall hcount hgood.1 hgood.2
      obtain rfl := Option.some.inj (hturn.symm.trans hturn')
      exact .inl hgoing'
    · exact .inr (.inl (hs' ▸ hgoing.off hsmall hcount hgood data))
  · exact .inr (.inr ⟨s.calls, s.call fd, hs' ▸ List.prefix_rfl, hoff⟩)
  · exact .inr (.inr ⟨before, call, hs' ▸ hinitial.trans (List.prefix_append _ _), hoff⟩)

/-! ## The loops -/

theorem left_le_of_le {i j : Nat} (h : i ≤ j) : left fd length j ≤ left fd length i := by
  induction h with
  | refl => exact Nat.le_refl _
  | step _ ih => exact Nat.le_trans (Nat.sub_le _ _) ih

/-- A loop whose calls are sound has got good results only. -/
theorem flows_of_sound {fuel : Nat} (hsmall : length < 9223372036854775808)
    (hloop : transferAll fd channel fuel = some s) (hsound : Sound length s.calls) : Flows fd length := by
  obtain ⟨hinv, hend⟩ := whileDo_keeps (Inv fd channel)
    (fun s s' hinv hcond hturn => turn_inv hsmall hinv (of_decide_eq_true (Option.some.inj hcond)) hturn)
    (.inl (.start fd channel)) hloop
  have hcount : ¬ 0 < s.count := of_decide_eq_false (Option.some.inj hend)
  rcases hinv with hgoing | ⟨hpositive, -⟩ | ⟨before, call, hinitial, hoff⟩
  · intro call hleft
    refine hgoing.good call (Nat.not_le.mp fun hle => ?_)
    have hzero := hgoing.count
    have hmono : left fd length call ≤ left fd length s.calls.length := left_le_of_le hle
    omega
  · exact absurd hpositive hcount
  · exact absurd hoff (hsound.not_off hinitial)

/-- **A loop with good results** transfers all bytes in order. -/
theorem transferAll_sound (channel : Channel δ length) (hsmall : length < 9223372036854775808)
    (hflows : Flows fd length) :
    ∃ fuel s, transferAll fd channel fuel = some s ∧ Sound length s.calls ∧
      s.data = channel.ordered (delivered s.calls) := by
  have hturn : ∀ s, Going fd channel s → some (decide (0 < s.count)) = some false ∨
      some (decide (0 < s.count)) = some true ∧
        ∃ s', turn fd channel s = some s' ∧ Going fd channel s' ∧ s'.count < s.count := by
    intro s hgoing
    by_cases hcount : 0 < s.count
    · obtain ⟨hlow, hhigh⟩ := hflows s.calls.length (hgoing.count ▸ hcount)
      rw [← hgoing.count] at hlow hhigh
      exact .inr ⟨congrArg some (decide_eq_true hcount), hgoing.turn hsmall hcount hlow hhigh⟩
    · exact .inl (congrArg some (decide_eq_false hcount))
  obtain ⟨s, hloop, hgoing, hend⟩ := whileDo_ends _ (turn fd channel) (Going fd channel) State.count hturn
    (.start fd channel) (Nat.lt_succ_self _)
  have hcount : ¬ 0 < s.count := of_decide_eq_false (Option.some.inj hend)
  exact ⟨_, s, hloop, hgoing.sound (Nat.eq_zero_of_not_pos hcount), hgoing.data⟩

/-- **`read_all` and `write_all`** do what is expected if and only if the results flow. -/
theorem all_iff (fd : Descriptor) (stream : Nat → UInt8) (buffer : Buffer) :
    (ReadsAll fd stream buffer ↔ Flows fd buffer.bytes.length) ∧
      (WritesAll fd buffer ↔ Flows fd buffer.bytes.length) := by
  refine ⟨⟨?_, fun hflows => ?_⟩, ?_, transferAll_sound (writeChannel buffer) buffer.small⟩
  · rintro ⟨fuel, s, hloop, hsound, -⟩
    exact flows_of_sound buffer.small hloop hsound
  · obtain ⟨fuel, s, hloop, hsound, hdata⟩ := transferAll_sound (readChannel stream buffer) buffer.small hflows
    exact ⟨fuel, s, hloop, hsound, congrArg Prod.fst hdata⟩
  · rintro ⟨fuel, s, hloop, hsound, -⟩
    exact flows_of_sound buffer.small hloop hsound

/-- The first call reports an error, and the next ones transfer what they are asked for. -/
def interrupted : Descriptor where
  respond call asked := if call = 0 then -1 else asked
  valid call asked := by split <;> omega

/-- The bytes of the second call are before the buffer. -/
theorem error_is_added :
    ¬ ReadsAll interrupted (fun _ => 0) ⟨[0], by decide⟩ ∧ ¬ WritesAll interrupted ⟨[0], by decide⟩ := by
  constructor
  · rintro ⟨fuel, s, hloop, -⟩
    match fuel, hloop with
    | 0, hloop => cases hloop
    | 1, hloop => cases hloop
    | fuel + 2, hloop => cases hloop
  · rintro ⟨fuel, s, hloop, -⟩
    match fuel, hloop with
    | 0, hloop => cases hloop
    | 1, hloop => cases hloop
    | fuel + 2, hloop => cases hloop

end Workbench.Events.Transfer
