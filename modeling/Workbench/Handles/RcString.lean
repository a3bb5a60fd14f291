import Workbench.Handles.CString
import Workbench.Lib.RefCount
import Workbench.Lib.Refines

/-!
# `Handles.RcString` — `RCString`, strings that share their buffers

A handle points to a buffer with a string and the number of its handles. What is freed is not accessed: a call that
would do it has no result here.

## Contents
* `State` — the memory and the handles, and the operations of the source on them;
* `Call`, `exec`, `answer` — the calls, what the code does, and what it does with a private copy for each handle;
* `Owns` — the invariant, and the relation to the private copies;
* `handles_are_copies` — the main result.
-/

namespace Workbench.Handles.RcString

/-- `SharedRef`. -/
structure SharedRef where
  count : Nat
  refStr : List UInt8
  deriving DecidableEq

/-- The buffers by their addresses, and `m_data` of the handles that are alive. -/
structure State (ι : Type) where
  heap : Nat → Option SharedRef
  data : ι → Option Nat

/-- The new buffer of `SharedInit`. -/
def sharedInit (str : List UInt8) : SharedRef := ⟨1, str.take (strlen str + 1)⟩

/-- The new buffer of `ConcatTwoRcstings`. -/
def concatTwoRcstings (this other : SharedRef) : SharedRef :=
  ⟨1, this.refStr.take (strlen this.refStr) ++ other.refStr.take (strlen other.refStr + 1)⟩

def isShared (r : SharedRef) : Bool := 1 < r.count

def length (r : SharedRef) : Nat := strlen r.refStr

variable {ι : Type} [DecidableEq ι]

namespace State

/-- The buffer of a handle, and its address. -/
def deref (s : State ι) (i : ι) : Option (Nat × SharedRef) := do
  let a ← s.data i
  let r ← s.heap a
  return (a, r)

def setBuffer (s : State ι) (a : Nat) (r : Option SharedRef) : State ι :=
  { s with heap := Function.update s.heap a r }

def setData (s : State ι) (i : ι) (a : Option Nat) : State ι := { s with data := Function.update s.data i a }

/-- The constructor from a C string: `new` returns the address `a`. -/
def construct (s : State ι) (i : ι) (str : List UInt8) (a : Nat) : State ι :=
  (s.setBuffer a (some (sharedInit str))).setData i (some a)

/-- The copy constructor. -/
def copy (s : State ι) (i other : ι) : Option (State ι) := do
  let (a, r) ← s.deref other
  return (s.setBuffer a (some { r with count := r.count + 1 })).setData i (some a)

/-- `operator=`. -/
def assign (s : State ι) (i other : ι) : Option (State ι) := do
  let bufferData ← s.data i
  let (a, r) ← s.deref other
  let s := (s.setBuffer a (some { r with count := r.count + 1 })).setData i (some a)
  let r ← s.heap bufferData
  let r := { r with count := r.count - 1 }
  return s.setBuffer bufferData (if 0 = r.count then none else some r)

/-- What the destructor and `Concat` do with the buffer of the handle. -/
def leave (s : State ι) (i : ι) : Option (State ι) := do
  let (a, r) ← s.deref i
  return s.setBuffer a (if !isShared r then none else some { r with count := r.count - 1 })

/-- The destructor. -/
def destroy (s : State ι) (i : ι) : Option (State ι) := do
  let s ← s.leave i
  return s.setData i none

/-- `Concat`: `new` returns the address `a`. -/
def concat (s : State ι) (i other : ι) (a : Nat) : Option (State ι) := do
  let (_, this) ← s.deref i
  let (_, other) ← s.deref other
  let s ← (s.setBuffer a (some (concatTwoRcstings this other))).leave i
  return s.setData i (some a)

/-- `operator[]` for a handle that is not const, and a byte that is written: `new` returns the address `a` if the buffer
    is shared. It is false if the position is out of range. -/
def write (s : State ι) (i : ι) (pos : Nat) (c : UInt8) (a : Nat) : Option (State ι × Bool) := do
  let (b, r) ← s.deref i
  if length r ≤ pos then
    return (s, false)
  else if isShared r then
    let copied := sharedInit r.refStr
    let s := (s.setBuffer b (some { r with count := r.count - 1 })).setBuffer a (some copied)
    let s := s.setData i (some a)
    return (s.setBuffer a (some { copied with refStr := copied.refStr.set pos c }), true)
  else
    return (s.setBuffer b (some { r with refStr := r.refStr.set pos c }), true)

/-- What `ToCStr` points to. -/
def toCStr (s : State ι) (i : ι) : Option (List UInt8) := do
  let (_, r) ← s.deref i
  return cstr r.refStr

end State

/-! ## Calls -/

inductive Call (ι : Type)
  | construct (i : ι) (str : List UInt8) (a : Nat)
  | copy (i other : ι)
  | assign (i other : ι)
  | concat (i other : ι) (a : Nat)
  | write (i : ι) (pos : Nat) (c : UInt8) (a : Nat)
  | toCStr (i : ι)
  | destroy (i : ι)

inductive Answer
  | done
  | outOfRange
  | string (str : List UInt8)
  deriving DecidableEq

def exec (s : State ι) : Call ι → Option (State ι × Answer)
  | .construct i str a => some (s.construct i str a, .done)
  | .copy i other => (s.copy i other).map (·, .done)
  | .assign i other => (s.assign i other).map (·, .done)
  | .concat i other a => (s.concat i other a).map (·, .done)
  | .write i pos c a => (s.write i pos c a).map fun (s, inRange) => (s, if inRange then .done else .outOfRange)
  | .toCStr i => (s.toCStr i).map fun str => (s, .string str)
  | .destroy i => (s.destroy i).map (·, .done)

/-- The strings of the handles that are alive, if each has a copy of its own. -/
abbrev Copies (ι : Type) := ι → Option (List UInt8)

def answer (copies : Copies ι) : Call ι → Copies ι × Answer
  | .construct i str _ => (Function.update copies i (some (cstr str)), .done)
  | .copy i other => (Function.update copies i (copies other), .done)
  | .assign i other => (Function.update copies i (copies other), .done)
  | .concat i other _ =>
      (Function.update copies i (some ((copies i).getD [] ++ (copies other).getD [])), .done)
  | .write i pos c _ =>
      if ((copies i).getD []).length ≤ pos then (copies, .outOfRange)
      else (Function.update copies i (some (((copies i).getD []).set pos c)), .done)
  | .toCStr i => (copies, .string ((copies i).getD []))
  | .destroy i => (Function.update copies i none, .done)

/-- A handle is constructed when it is not alive, and used when it is; `new` returns a free address; a C string has a
    NUL, and no other one is written. -/
def Allowed (s : State ι) (copies : Copies ι) : Call ι → Prop
  | .construct i str a => copies i = none ∧ s.heap a = none ∧ 0 ∈ str
  | .copy i other => copies i = none ∧ (copies other).isSome = true
  | .assign i other => (copies i).isSome = true ∧ (copies other).isSome = true
  | .concat i other a => (copies i).isSome = true ∧ (copies other).isSome = true ∧ s.heap a = none
  | .write i _ c a => (copies i).isSome = true ∧ s.heap a = none ∧ c ≠ 0
  | .toCStr i => (copies i).isSome = true
  | .destroy i => (copies i).isSome = true

/-- There are no handles and no buffers at first. -/
def rcStrings (ι : Type) [DecidableEq ι] : Component (State ι) (Call ι) Answer where
  init s := s = ⟨fun _ => none, fun _ => none⟩
  exec := exec

def privateCopies (ι : Type) [DecidableEq ι] : Model (Copies ι) (Call ι) Answer where
  init := fun _ => none
  answer := answer

/-! ## The invariant -/

/-- The numbers in the buffers. -/
def counts (s : State ι) : Nat → Option Nat := fun a => (s.heap a).map SharedRef.count

/-- **Each buffer has the number of its handles**, and the string of each of them. -/
structure Owns (s : State ι) (copies : Copies ι) : Prop where
  counted : Counted s.data (counts s)
  terminated : ∀ a r, s.heap a = some r → 0 ∈ r.refStr
  dead : ∀ i, s.data i = none → copies i = none
  strings : ∀ i a r, s.data i = some a → s.heap a = some r → copies i = some (cstr r.refStr)

variable {s s' : State ι} {copies : Copies ι} {i j other : ι} {a b n : Nat} {r r' : SharedRef} {c : UInt8}
  {str : List UInt8}

omit [DecidableEq ι] in
theorem counts_setBuffer (r : Option SharedRef) :
    counts (s.setBuffer a r) = Function.update (counts s) a (r.map SharedRef.count) := by
  funext b
  by_cases hb : b = a
  · subst hb
    simp [counts, State.setBuffer]
  · simp [counts, State.setBuffer, Function.update_of_ne hb]

theorem counts_setData (x : Option Nat) : counts (s.setData i x) = counts s := rfl

theorem heap_setData (x : Option Nat) : (s.setData i x).heap = s.heap := rfl

omit [DecidableEq ι] in
theorem heap_setBuffer_self (x : Option SharedRef) : (s.setBuffer a x).heap a = x := Function.update_self ..

omit [DecidableEq ι] in
theorem heap_setBuffer_ne (h : b ≠ a) (x : Option SharedRef) : (s.setBuffer a x).heap b = s.heap b :=
  Function.update_of_ne h ..

omit [DecidableEq ι] in
theorem heap_setBuffer {x : Option SharedRef} (h : (s.setBuffer a x).heap b = some r) :
    b = a ∧ x = some r ∨ b ≠ a ∧ s.heap b = some r := by
  by_cases hb : b = a
  · subst hb
    exact .inl ⟨rfl, (heap_setBuffer_self x).symm.trans h⟩
  · exact .inr ⟨hb, (heap_setBuffer_ne hb x).symm.trans h⟩

omit [DecidableEq ι] in
theorem deref_eq (hdata : s.data i = some a) (hheap : s.heap a = some r) : s.deref i = some (a, r) := by
  rw [State.deref, hdata]
  show (s.heap a).bind _ = _
  rw [hheap]
  rfl

/-- A buffer that loses a handle. -/
theorem lower_count (hcount : r.count = n + 1) :
    (if !isShared r then none else some { r with count := r.count - 1 }).map SharedRef.count =
      if n = 0 then none else some n := by
  by_cases hn : n = 0
  · simp [isShared, hcount, hn]
  · have hshared : 1 < n + 1 := by omega
    simp [isShared, hcount, hn, hshared]

theorem lower_refStr (h : (if !isShared r then none else some { r with count := r.count - 1 }) = some r') :
    r'.refStr = r.refStr := by
  obtain ⟨-, heq⟩ := Option.ite_none_left_eq_some.mp h
  rw [← Option.some.inj heq]

namespace Owns

omit [DecidableEq ι]

/-- A handle that is alive, with its buffer. -/
theorem alive (h : Owns s copies) (hi : (copies i).isSome = true) : ∃ a r n, s.data i = some a ∧ s.heap a = some r ∧
    r.count = n + 1 ∧ 0 ∈ r.refStr ∧ copies i = some (cstr r.refStr) := by
  cases hdata : s.data i with
  | none =>
      rw [h.dead i hdata] at hi
      cases hi
  | some a =>
      obtain ⟨n, hn⟩ := h.counted.alive hdata
      obtain ⟨r, hheap, hcount⟩ := Option.map_eq_some_iff.mp hn
      exact ⟨a, r, n, rfl, hheap, hcount, h.terminated a r hheap, h.strings i a r hdata hheap⟩

theorem data_none (h : Owns s copies) (hi : copies i = none) : s.data i = none := by
  cases hdata : s.data i with
  | none => rfl
  | some a =>
      obtain ⟨n, hn⟩ := h.counted.alive hdata
      obtain ⟨r, hheap, -⟩ := Option.map_eq_some_iff.mp hn
      rw [h.strings i a r hdata hheap] at hi
      cases hi

/-- A free address is nobody's. -/
theorem data_ne (h : Owns s copies) (ha : s.heap a = none) (i : ι) : s.data i ≠ some a := by
  intro hdata
  obtain ⟨n, hn⟩ := h.counted.alive hdata
  rw [counts, ha] at hn
  cases hn

/-- **One handle changes.** The buffers that others have keep their strings. -/
theorem update [DecidableEq ι] (h : Owns s copies) {x : Option Nat} {str : Option (List UInt8)}
    (hdata : s'.data = Function.update s.data i x) (hcounted : Counted (Function.update s.data i x) (counts s'))
    (hheap : ∀ a r', s'.heap a = some r' → (∃ r, s.heap a = some r ∧ r'.refStr = r.refStr) ∨
      0 ∈ r'.refStr ∧ ∀ j ≠ i, s.data j ≠ some a)
    (hstr : (x.bind fun a => (s'.heap a).map fun r => cstr r.refStr) = str) :
    Owns s' (Function.update copies i str) where
  counted := by rwa [hdata]
  terminated a r' hr' := by
    rcases hheap a r' hr' with ⟨r, hr, hstr⟩ | ⟨hzero, -⟩
    · rw [hstr]
      exact h.terminated a r hr
    · exact hzero
  dead j hj := by
    rw [hdata] at hj
    by_cases hji : j = i
    · subst hji
      rw [Function.update_self] at hj ⊢
      rw [← hstr, hj, Option.bind_none]
    · rw [Function.update_of_ne hji] at hj ⊢
      exact h.dead j hj
  strings j a r' hj hr' := by
    rw [hdata] at hj
    by_cases hji : j = i
    · subst hji
      rw [Function.update_self] at hj ⊢
      rw [← hstr, hj, Option.bind_some, hr', Option.map_some]
    · rw [Function.update_of_ne hji] at hj ⊢
      rcases hheap a r' hr' with ⟨r, hr, hstr⟩ | ⟨-, hothers⟩
      · rw [hstr]
        exact h.strings j a r hj hr
      · exact absurd hj (hothers j hji)

end Owns

/-! ## The operations -/

theorem Owns.construct (h : Owns s copies) (hi : copies i = none) (ha : s.heap a = none) (hstr : 0 ∈ str) :
    Owns (s.construct i str a) (Function.update copies i (some (cstr str))) := by
  have hzero : (counts s a).getD 0 = 0 := by rw [counts, ha]; rfl
  have htake : (sharedInit str).refStr = cstr str ++ [0] := take_strlen hstr
  refine h.update rfl ?_ (fun b r' hr' => ?_) ?_
  · rw [State.construct, counts_setData, counts_setBuffer]
    exact h.counted.retain (h.data_none hi) hzero
  · rcases heap_setBuffer hr' with ⟨rfl, hnew⟩ | ⟨-, hold⟩
    · obtain rfl := Option.some.inj hnew
      refine .inr ⟨?_, fun j _ => h.data_ne ha j⟩
      rw [htake]
      exact List.mem_append_right _ List.mem_cons_self
    · exact .inl ⟨r', hold, rfl⟩
  · rw [Option.bind_some, State.construct, heap_setData, heap_setBuffer_self, Option.map_some, htake,
      cstr_cons_zero not_mem_cstr]

theorem Owns.copy (h : Owns s copies) (hi : copies i = none) (hother : (copies other).isSome = true) :
    ∃ s', s.copy i other = some s' ∧ Owns s' (Function.update copies i (copies other)) := by
  obtain ⟨a, r, n, hdata, hheap, hcount, -, hcopies⟩ := h.alive hother
  have hcounts : (counts s a).getD 0 = r.count := by rw [counts, hheap]; rfl
  refine ⟨_, by rw [State.copy, deref_eq hdata hheap]; rfl, ?_⟩
  refine h.update rfl ?_ (fun b r' hr' => ?_) ?_
  · rw [counts_setData, counts_setBuffer]
    exact h.counted.retain (h.data_none hi) hcounts
  · rcases heap_setBuffer hr' with ⟨rfl, hnew⟩ | ⟨-, hold⟩
    · obtain rfl := Option.some.inj hnew
      exact .inl ⟨r, hheap, rfl⟩
    · exact .inl ⟨r', hold, rfl⟩
  · rw [Option.bind_some, heap_setData, heap_setBuffer_self, Option.map_some, hcopies]

/-- A handle that leaves its buffer. -/
theorem Owns.destroy (h : Owns s copies) (hi : (copies i).isSome = true) :
    ∃ s', s.destroy i = some s' ∧ Owns s' (Function.update copies i none) := by
  obtain ⟨a, r, n, hdata, hheap, hcount, -, -⟩ := h.alive hi
  have hcounts : counts s a = some (n + 1) := by rw [counts, hheap, Option.map_some, hcount]
  refine ⟨_, by rw [State.destroy, State.leave, deref_eq hdata hheap]; rfl, ?_⟩
  refine h.update rfl ?_ (fun b r' hr' => ?_) rfl
  · rw [counts_setData, counts_setBuffer, lower_count hcount]
    exact h.counted.release hdata hcounts
  · rcases heap_setBuffer hr' with ⟨rfl, hnew⟩ | ⟨-, hold⟩
    · exact .inl ⟨r, hheap, lower_refStr hnew⟩
    · exact .inl ⟨r', hold, rfl⟩

/-- The handle leaves its buffer for another one. -/
theorem Owns.move {old : SharedRef} {x : SharedRef} (h : Owns s copies) (hdata : s.data i = some b)
    (hold : s.heap b = some old) (hcount : old.count = n + 1) (hne : a ≠ b)
    (hx : (counts s a).getD 0 + 1 = x.count)
    (hheap : (∃ r, s.heap a = some r ∧ x.refStr = r.refStr) ∨ 0 ∈ x.refStr ∧ ∀ j ≠ i, s.data j ≠ some a) :
    Owns (((s.setBuffer a (some x)).setBuffer b
      (if !isShared old then none else some { old with count := old.count - 1 })).setData i (some a))
      (Function.update copies i (some (cstr x.refStr))) := by
  have hcounts : counts s b = some (n + 1) := by rw [counts, hold, Option.map_some, hcount]
  refine h.update rfl ?_ (fun d r' hr' => ?_) ?_
  · rw [counts_setData, counts_setBuffer, counts_setBuffer, lower_count hcount, Option.map_some, ← hx]
    exact h.counted.move hdata hcounts hne rfl
  · rcases heap_setBuffer hr' with ⟨rfl, hlower⟩ | ⟨-, hr'⟩
    · exact .inl ⟨old, hold, lower_refStr hlower⟩
    · rcases heap_setBuffer hr' with ⟨rfl, hnew⟩ | ⟨-, hsame⟩
      · obtain rfl := Option.some.inj hnew
        exact hheap
      · exact .inl ⟨r', hsame, rfl⟩
  · rw [Option.bind_some, heap_setData, heap_setBuffer_ne hne, heap_setBuffer_self, Option.map_some]

theorem Owns.assign (h : Owns s copies) (hi : (copies i).isSome = true) (hother : (copies other).isSome = true) :
    ∃ s', s.assign i other = some s' ∧ Owns s' (Function.update copies i (copies other)) := by
  obtain ⟨b, old, n, hdatai, hheapi, hcounti, -, hcopiesi⟩ := h.alive hi
  obtain ⟨a, r, m, hdata, hheap, hcount, -, hcopies⟩ := h.alive hother
  by_cases hab : a = b
  · -- the same buffer: its number is as before
    subst hab
    obtain rfl : old = r := Option.some.inj (hheapi.symm.trans hheap)
    refine ⟨s, ?_, ?_⟩
    · have hne : ¬ 0 = old.count := by omega
      have hrestored : old.count + 1 - 1 = old.count := by omega
      rw [State.assign, hdatai, deref_eq hdata hheap]
      simp only [bind, Option.bind_some, pure, heap_setData, heap_setBuffer_self, hrestored, if_neg hne]
      simp only [State.setBuffer, State.setData, Function.update_idem]
      rw [← hheap, Function.update_eq_self, ← hdatai, Function.update_eq_self]
    · rw [hcopies, ← hcopiesi, Function.update_eq_self]
      exact h
  · have hlower : (if 0 = old.count - 1 then none else some { old with count := old.count - 1 }) =
        if !isShared old then none else some { old with count := old.count - 1 } := by
      by_cases hn : n = 0
      · simp [isShared, hcounti, hn]
      · have hshared : 1 < n + 1 := by omega
        simp [isShared, hcounti, hshared, Ne.symm hn]
    have hold : ((s.setBuffer a (some { r with count := r.count + 1 })).setData i (some a)).heap b = some old := by
      rw [heap_setData, heap_setBuffer_ne (Ne.symm hab), hheapi]
    refine ⟨_, by
      rw [State.assign, hdatai, deref_eq hdata hheap]
      simp only [bind, Option.bind_some, hold, hlower]
      rfl, ?_⟩
    rw [hcopies]
    exact h.move hdatai hheapi hcounti hab (by rw [counts, hheap]; rfl) (.inl ⟨r, hheap, rfl⟩)

theorem Owns.concat (h : Owns s copies) (hi : (copies i).isSome = true) (hother : (copies other).isSome = true)
    (ha : s.heap a = none) : ∃ s', s.concat i other a = some s' ∧
      Owns s' (Function.update copies i (some ((copies i).getD [] ++ (copies other).getD []))) := by
  obtain ⟨b, old, n, hdatai, hheapi, hcounti, -, hcopiesi⟩ := h.alive hi
  obtain ⟨d, r, m, hdata, hheap, hcount, hzero, hcopies⟩ := h.alive hother
  have hab : a ≠ b := by
    rintro rfl
    rw [ha] at hheapi
    cases hheapi
  generalize hnew : concatTwoRcstings old r = new
  have hblock : new.refStr = (cstr old.refStr ++ cstr r.refStr) ++ 0 :: [] := by
    rw [← hnew, concatTwoRcstings, take_cstr, take_strlen hzero, List.append_assoc]
  have hnot : 0 ∉ cstr old.refStr ++ cstr r.refStr := fun hmem => by
    rcases List.mem_append.mp hmem with hmem | hmem
    · exact not_mem_cstr hmem
    · exact not_mem_cstr hmem
  have hstr : cstr new.refStr = cstr old.refStr ++ cstr r.refStr := by rw [hblock, cstr_cons_zero hnot]
  have hold : (s.setBuffer a (some new)).heap b = some old := by rw [heap_setBuffer_ne (Ne.symm hab), hheapi]
  have hderef : (s.setBuffer a (some new)).deref i = some (b, old) := deref_eq (show _ = _ from hdatai) hold
  refine ⟨_, by
    rw [State.concat, deref_eq hdatai hheapi, deref_eq hdata hheap]
    simp only [bind, Option.bind_some, hnew]
    rw [State.leave, hderef]
    rfl, ?_⟩
  rw [hcopies, hcopiesi, Option.getD_some, Option.getD_some, ← hstr]
  refine h.move hdatai hheapi hcounti hab (by rw [counts, ha, ← hnew]; rfl) (.inr ⟨?_, fun j _ => h.data_ne ha j⟩)
  rw [hblock]
  exact List.mem_append_right _ List.mem_cons_self

theorem Owns.write (h : Owns s copies) (pos : Nat) (hi : (copies i).isSome = true) (ha : s.heap a = none) (hc : c ≠ 0) :
    ∃ s' inRange, s.write i pos c a = some (s', inRange) ∧
      (answer copies (.write i pos c a)).2 = (if inRange then .done else .outOfRange) ∧
      Owns s' (answer copies (.write i pos c a)).1 := by
  obtain ⟨b, r, n, hdata, hheap, hcount, hzero, hcopies⟩ := h.alive hi
  have hab : a ≠ b := by
    rintro rfl
    rw [ha] at hheap
    cases hheap
  have hanswer : answer copies (.write i pos c a) = if length r ≤ pos then (copies, .outOfRange)
      else (Function.update copies i (some ((cstr r.refStr).set pos c)), .done) := by
    rw [answer, hcopies, Option.getD_some]
    rfl
  rw [hanswer, State.write, deref_eq hdata hheap]
  simp only [bind, Option.bind_some]
  by_cases hpos : length r ≤ pos
  · rw [if_pos hpos, if_pos hpos]
    exact ⟨s, false, rfl, rfl, h⟩
  rw [if_neg hpos, if_neg hpos]
  have hpos : pos < strlen r.refStr := Nat.lt_of_not_le hpos
  by_cases hshared : isShared r = true
  · -- the handle leaves the buffer for a copy
    rw [if_pos hshared]
    have hblock : (sharedInit r.refStr).refStr = cstr r.refStr ++ 0 :: [] := take_strlen hzero
    have hcstr : cstr (sharedInit r.refStr).refStr = cstr r.refStr := by rw [hblock, cstr_cons_zero not_mem_cstr]
    have hzero' : 0 ∈ (sharedInit r.refStr).refStr := by
      rw [hblock]
      exact List.mem_append_right _ List.mem_cons_self
    obtain ⟨hstr, hwritten⟩ := cstr_set hzero' (by rwa [strlen, hcstr]) hc
    generalize hcopied : ({ sharedInit r.refStr with refStr := (sharedInit r.refStr).refStr.set pos c } : SharedRef) =
      copied
    have hmove := h.move (x := copied) hdata hheap hcount hab (by rw [counts, ha, ← hcopied]; rfl)
      (.inr ⟨by rw [← hcopied]; exact hwritten, fun j _ => h.data_ne ha j⟩)
    have hlower : (if !isShared r then none else some { r with count := r.count - 1 }) =
        some { r with count := r.count - 1 } := if_neg (by rw [hshared]; simp)
    have hcopies' : cstr copied.refStr = (cstr r.refStr).set pos c := by rw [← hcopied, ← hcstr, ← hstr]
    refine ⟨_, true, rfl, rfl, ?_⟩
    rw [hlower, hcopies'] at hmove
    simp only [State.setBuffer, State.setData, Function.update_idem] at hmove ⊢
    rwa [Function.update_comm hab] at hmove
  · -- nobody else has the buffer
    rw [if_neg hshared]
    have hone : r.count = 1 := by
      rw [isShared, decide_eq_true_eq] at hshared
      omega
    have hcounts : counts s b = some 1 := by rw [counts, hheap, Option.map_some, hone]
    obtain ⟨hstr, hzero'⟩ := cstr_set hzero hpos hc
    refine ⟨_, true, rfl, rfl, ?_⟩
    refine h.update (x := some b) ?_ ?_ (fun d r' hr' => ?_) ?_
    · rw [← hdata, Function.update_eq_self]
      rfl
    · rw [← hdata, Function.update_eq_self, counts_setBuffer, Option.map_some, hone, ← hcounts,
        Function.update_eq_self]
      exact h.counted
    · rcases heap_setBuffer hr' with ⟨rfl, hnew⟩ | ⟨-, hold⟩
      · obtain rfl := Option.some.inj hnew
        exact .inr ⟨hzero', fun j hj hdataj => hj (h.counted.only hcounts hdataj hdata)⟩
      · exact .inl ⟨r', hold, rfl⟩
    · rw [Option.bind_some, heap_setBuffer_self, Option.map_some, hstr]

/-! ## Runs -/

theorem Owns.exec (h : Owns s copies) {call : Call ι} (hallowed : Allowed s copies call) :
    ∃ s', exec s call = some (s', (answer copies call).2) ∧ Owns s' (answer copies call).1 := by
  cases call with
  | construct i str a =>
      obtain ⟨hi, ha, hstr⟩ := hallowed
      exact ⟨_, rfl, h.construct hi ha hstr⟩
  | copy i other =>
      obtain ⟨hi, hother⟩ := hallowed
      obtain ⟨s', hcopy, howns⟩ := h.copy hi hother
      exact ⟨s', by rw [RcString.exec, hcopy]; rfl, howns⟩
  | assign i other =>
      obtain ⟨hi, hother⟩ := hallowed
      obtain ⟨s', hassign, howns⟩ := h.assign hi hother
      exact ⟨s', by rw [RcString.exec, hassign]; rfl, howns⟩
  | concat i other a =>
      obtain ⟨hi, hother, ha⟩ := hallowed
      obtain ⟨s', hconcat, howns⟩ := h.concat hi hother ha
      exact ⟨s', by rw [RcString.exec, hconcat]; rfl, howns⟩
  | write i pos c a =>
      obtain ⟨hi, ha, hc⟩ := hallowed
      obtain ⟨s', inRange, hwrite, hanswer, howns⟩ := h.write pos hi ha hc
      exact ⟨s', by rw [RcString.exec, hwrite, hanswer]; rfl, howns⟩
  | toCStr i =>
      obtain ⟨a, r, n, hdata, hheap, -, -, hcopies⟩ := h.alive hallowed
      refine ⟨s, ?_, h⟩
      rw [RcString.exec, State.toCStr, deref_eq hdata hheap, answer, hcopies]
      rfl
  | destroy i =>
      obtain ⟨s', hdestroy, howns⟩ := h.destroy hallowed
      exact ⟨s', by rw [RcString.exec, hdestroy]; rfl, howns⟩

omit [DecidableEq ι] in
theorem owns_nothing : Owns (⟨fun _ => none, fun _ => none⟩ : State ι) fun _ => none where
  counted := Counted.empty
  terminated _ _ h := by cases h
  dead _ _ := rfl
  strings _ _ _ h := by cases h

/-- **Handles that share buffers are as good as private copies**, after any calls:

    * each call returns, with the answer for private copies;
    * a handle that is alive has a buffer that is alive, with the number of its handles and the string of the copy;
    * a buffer is alive as long as it has a handle. -/
theorem handles_are_copies {s : State ι × Copies ι}
    (h : (sideBySide (rcStrings ι) (privateCopies ι) Allowed).Reachable System.Any s) :
    (∀ call, Allowed s.1 s.2 call → ∃ s', exec s.1 call = some (s', (answer s.2 call).2)) ∧
    (∀ i str, s.2 i = some str →
      ∃ a r, s.1.data i = some a ∧ s.1.heap a = some r ∧ r.count = references s.1.data a ∧ cstr r.refStr = str) ∧
    (∀ i, s.2 i = none → s.1.data i = none) ∧
    ∀ a, (s.1.heap a).isSome = true ↔ ∃ i, s.1.data i = some a := by
  have howns : Owns s.1 s.2 := by
    refine keeps_of_simulation (C := rcStrings ι) (M := privateCopies ι) (R := Owns) ?_
      (fun s copies call h hallowed => h.exec hallowed) h
    rintro s rfl
    exact owns_nothing
  refine ⟨fun call hallowed => ?_, fun i str hi => ?_, fun i hi => howns.data_none hi, fun a => ?_⟩
  · obtain ⟨s', hexec, -⟩ := howns.exec hallowed
    exact ⟨s', hexec⟩
  · obtain ⟨a, r, n, hdata, hheap, -, -, hcopies⟩ := howns.alive (by rw [hi]; rfl)
    refine ⟨a, r, hdata, hheap, howns.counted.eq ?_, Option.some.inj (hcopies.symm.trans hi)⟩
    rw [counts, hheap, Option.map_some]
  · rw [← howns.counted.isSome_iff, counts, Option.isSome_map]

/-- A string is copied, and the first byte of the original is written: the copy is as it was. -/
theorem copies_sample : ∃ s : State (Fin 2), s.toCStr 0 = some [98] ∧
    ∃ a r, s.data 1 = some a ∧ s.heap a = some r ∧ r.count = references s.data a ∧ cstr r.refStr = [97] := by
  have h₀ : (sideBySide (rcStrings (Fin 2)) (privateCopies (Fin 2)) Allowed).Reachable System.Any
      (⟨fun _ => none, fun _ => none⟩, fun _ => none) := .init ⟨rfl, rfl⟩
  -- the memory after each call
  obtain ⟨s₁, s₂, s₃, hconstruct, hcopy, hfree, hwrite, hstring⟩ : ∃ s₁ s₂ s₃,
      exec ⟨fun _ => none, fun _ => none⟩ (.construct (0 : Fin 2) [97, 0] 5) = some (s₁, .done) ∧
        exec s₁ (.copy 1 0) = some (s₂, .done) ∧ s₂.heap 6 = none ∧
        exec s₂ (.write 0 0 98 6) = some (s₃, .done) ∧ s₃.toCStr 0 = some [98] :=
    ⟨_, _, _, rfl, rfl, rfl, rfl, by decide⟩
  have h₁ : (sideBySide (rcStrings (Fin 2)) (privateCopies (Fin 2)) Allowed).Reachable System.Any
      (s₁, (answer (fun _ => none) (.construct 0 [97, 0] 5)).1) :=
    h₀.step (a := .construct 0 [97, 0] 5) trivial ⟨⟨rfl, rfl, by decide⟩, ⟨.done, hconstruct⟩, rfl⟩
  have h₂ : (sideBySide (rcStrings (Fin 2)) (privateCopies (Fin 2)) Allowed).Reachable System.Any
      (s₂, (answer (answer (fun _ => none) (.construct 0 [97, 0] 5)).1 (.copy 1 0)).1) :=
    h₁.step (a := .copy 1 0) trivial ⟨⟨rfl, rfl⟩, ⟨.done, hcopy⟩, rfl⟩
  have h₃ : (sideBySide (rcStrings (Fin 2)) (privateCopies (Fin 2)) Allowed).Reachable System.Any
      (s₃, (answer (answer (answer (fun _ => none) (.construct 0 [97, 0] 5)).1 (.copy 1 0)).1 (.write 0 0 98 6)).1) :=
    h₂.step (a := .write 0 0 98 6) trivial ⟨⟨rfl, hfree, by decide⟩, ⟨.done, hwrite⟩, rfl⟩
  exact ⟨s₃, hstring, (handles_are_copies h₃).2.1 1 [97] rfl⟩

end Workbench.Handles.RcString
