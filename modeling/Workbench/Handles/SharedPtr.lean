import Workbench.Lib.RefCount
import Workbench.Lib.System

/-!
# `Handles.SharedPtr` — `SharedPtr`, pointers that count themselves

Each object has a counter of its own, at another address. An assignment decrements one counter before it increments
the other one, which may be the same. What is deleted is not accessed: a call that would do it has no result here.

## Contents
* `State` — the objects, the counters and the handles, and the operations of the source on them;
* `Inv` — the invariant: the counters are right, and each belongs to one object;
* `counters_are_right` — the main result.
-/

namespace Workbench.Handles.SharedPtr

/-- A handle of the type `type`: `m_ptr` by the object that it points to, and `m_counter`. -/
structure Handle (τ : Type) where
  type : τ
  ptr : Nat
  counter : Nat

/-- The objects that are not deleted, the counters by their addresses, and the handles that are alive. -/
structure State (ι τ : Type) where
  objects : Nat → Bool
  counters : Nat → Option Nat
  handles : ι → Option (Handle τ)

variable {ι τ : Type} [DecidableEq ι]

namespace State

def setCounter (s : State ι τ) (a : Nat) (n : Option Nat) : State ι τ :=
  { s with counters := Function.update s.counters a n }

def setHandle (s : State ι τ) (i : ι) (h : Option (Handle τ)) : State ι τ :=
  { s with handles := Function.update s.handles i h }

/-- `delete` of an object: none if it is deleted already. -/
def deleteObject (s : State ι τ) (o : Nat) : Option (State ι τ) :=
  if s.objects o = true then some { s with objects := Function.update s.objects o false } else none

/-- `delete` of a counter: none if it is deleted already. -/
def deleteCounter (s : State ι τ) (a : Nat) : Option (State ι τ) := do
  let _ ← s.counters a
  return s.setCounter a none

/-- The constructor from the pointer to a new object: `new` returns the address of the counter, or throws. -/
def construct (s : State ι τ) (i : ι) (type : τ) (o : Nat) (new : Option Nat) : Option (State ι τ) :=
  let s := { s with objects := Function.update s.objects o true }
  match new with
  | none => s.deleteObject o
  | some a => some ((s.setCounter a (some 1)).setHandle i (some ⟨type, o, a⟩))

/-- The copy constructor, and the one that converts: the handle gets the type `type`. -/
def copy (s : State ι τ) (i other : ι) (type : τ) : Option (State ι τ) := do
  let h ← s.handles other
  let n ← s.counters h.counter
  return (s.setHandle i (some { h with type })).setCounter h.counter (some (n + 1))

/-- `operator=`. -/
def assign (s : State ι τ) (i other : ι) : Option (State ι τ) := do
  let tmp ← s.handles i
  let n ← s.counters tmp.counter
  let s := s.setCounter tmp.counter (some (n - 1))
  let h ← s.handles other
  let s := s.setHandle i (some { tmp with ptr := h.ptr, counter := h.counter })
  let m ← s.counters h.counter
  let s := s.setCounter h.counter (some (m + 1))
  let left ← s.counters tmp.counter
  if 0 = left then
    let s ← s.deleteObject tmp.ptr
    s.deleteCounter tmp.counter
  else
    return s

/-- The destructor. -/
def destroy (s : State ι τ) (i : ι) : Option (State ι τ) := do
  let h ← s.handles i
  let n ← s.counters h.counter
  let s := (s.setCounter h.counter (some (n - 1))).setHandle i none
  if 0 = n - 1 then
    let s ← s.deleteObject h.ptr
    s.deleteCounter h.counter
  else
    return s

end State

inductive Call (ι τ : Type)
  | construct (i : ι) (type : τ) (o : Nat) (new : Option Nat)
  | copy (i other : ι) (type : τ)
  | assign (i other : ι)
  | destroy (i : ι)

def exec (s : State ι τ) : Call ι τ → Option (State ι τ)
  | .construct i type o new => s.construct i type o new
  | .copy i other type => s.copy i other type
  | .assign i other => s.assign i other
  | .destroy i => s.destroy i

/-- A handle is constructed when it is not alive, and used when it is. The object is new, and so is the counter. Handles
    of one type are assigned. -/
def Allowed (s : State ι τ) : Call ι τ → Prop
  | .construct i _ o new => s.handles i = none ∧ s.objects o = false ∧ ∀ a, new = some a → s.counters a = none
  | .copy i other _ => s.handles i = none ∧ (s.handles other).isSome = true
  | .assign i other => (s.handles i).isSome = true ∧ (s.handles i).map Handle.type = (s.handles other).map Handle.type
  | .destroy i => (s.handles i).isSome = true

/-- The runs of the calls. There are no handles at first. -/
def program (ι τ : Type) [DecidableEq ι] : System (State ι τ) (Call ι τ) where
  init s := s = ⟨fun _ => false, fun _ => none, fun _ => none⟩
  step s call s' := Allowed s call ∧ exec s call = some s'

/-! ## The invariant -/

/-- The counters that the handles have. -/
def refs (s : State ι τ) : ι → Option Nat := fun i => (s.handles i).map Handle.counter

/-- **The counters are right**, two handles have one counter if they have one object, and an object is not deleted as
    long as it has a handle. -/
structure Inv (s : State ι τ) : Prop where
  counted : Counted (refs s) s.counters
  paired : ∀ i j h h', s.handles i = some h → s.handles j = some h' → (h.counter = h'.counter ↔ h.ptr = h'.ptr)
  objects : ∀ o, s.objects o = true ↔ ∃ i h, s.handles i = some h ∧ h.ptr = o

variable {s s' : State ι τ} {i j other : ι} {h h' : Handle τ} {n o : Nat} {type : τ}

theorem refs_update (x : Option (Handle τ)) (hhandles : s'.handles = Function.update s.handles i x) :
    refs s' = Function.update (refs s) i (x.map Handle.counter) := by
  funext j
  by_cases hj : j = i
  · subst hj
    simp [refs, hhandles]
  · simp [refs, hhandles, Function.update_of_ne hj]

namespace Inv

omit [DecidableEq ι]

theorem alive (hinv : Inv s) (hi : s.handles i = some h) :
    ∃ n, s.counters h.counter = some (n + 1) ∧ s.objects h.ptr = true := by
  obtain ⟨n, hn⟩ := hinv.counted.alive (show refs s i = some h.counter by rw [refs, hi]; rfl)
  exact ⟨n, hn, (hinv.objects h.ptr).mpr ⟨i, h, hi, rfl⟩⟩

/-- **One handle changes.** -/
theorem update [DecidableEq ι] (hinv : Inv s) {x : Option (Handle τ)}
    (hhandles : s'.handles = Function.update s.handles i x)
    (hcounted : Counted (Function.update (refs s) i (x.map Handle.counter)) s'.counters)
    (hpaired : ∀ h, x = some h → ∀ j ≠ i, ∀ h', s.handles j = some h' → (h.counter = h'.counter ↔ h.ptr = h'.ptr))
    (hobjects : ∀ o, s'.objects o = true ↔
      (∃ h, x = some h ∧ h.ptr = o) ∨ ∃ j h', j ≠ i ∧ s.handles j = some h' ∧ h'.ptr = o) : Inv s' where
  counted := by rwa [refs_update x hhandles]
  paired a b ha hb hha hhb := by
    rw [hhandles] at hha hhb
    by_cases hai : a = i <;> by_cases hbi : b = i
    · rw [hai, Function.update_self] at hha
      rw [hbi, Function.update_self] at hhb
      rw [Option.some.inj (hha.symm.trans hhb)]
      exact ⟨fun _ => rfl, fun _ => rfl⟩
    · rw [hai, Function.update_self] at hha
      rw [Function.update_of_ne hbi] at hhb
      exact hpaired ha hha b hbi hb hhb
    · rw [Function.update_of_ne hai] at hha
      rw [hbi, Function.update_self] at hhb
      have hiff := hpaired hb hhb a hai ha hha
      exact ⟨fun heq => (hiff.mp heq.symm).symm, fun heq => (hiff.mpr heq.symm).symm⟩
    · rw [Function.update_of_ne hai] at hha
      rw [Function.update_of_ne hbi] at hhb
      exact hinv.paired a b ha hb hha hhb
  objects o := by
    rw [hobjects o, hhandles]
    constructor
    · rintro (⟨h, hx, ho⟩ | ⟨j, h', hj, hh', ho⟩)
      · exact ⟨i, h, by rw [Function.update_self, hx], ho⟩
      · exact ⟨j, h', by rw [Function.update_of_ne hj, hh'], ho⟩
    · rintro ⟨j, h', hh', ho⟩
      by_cases hj : j = i
      · rw [hj, Function.update_self] at hh'
        exact .inl ⟨h', hh', ho⟩
      · rw [Function.update_of_ne hj] at hh'
        exact .inr ⟨j, h', hj, hh', ho⟩

/-- A handle leaves its object: the others still have theirs. -/
theorem left (hinv : Inv s) (hi : s.handles i = some h) (hn : s.counters h.counter = some (n + 1)) (o : Nat) :
    (if n = 0 then Function.update s.objects h.ptr false else s.objects) o = true ↔
      ∃ j h', j ≠ i ∧ s.handles j = some h' ∧ h'.ptr = o := by
  have hrefs : refs s i = some h.counter := by rw [refs, hi]; rfl
  by_cases hzero : n = 0
  · rw [if_pos hzero]
    constructor
    · intro ho
      have hne : o ≠ h.ptr := by
        rintro rfl
        rw [Function.update_self] at ho
        cases ho
      rw [Function.update_of_ne hne] at ho
      obtain ⟨j, h', hj, hptr⟩ := (hinv.objects o).mp ho
      refine ⟨j, h', ?_, hj, hptr⟩
      rintro rfl
      rw [hi] at hj
      exact hne (by rw [← hptr, Option.some.inj hj])
    · rintro ⟨j, h', hj, hh', hptr⟩
      -- the last handle of the counter is the one that leaves
      have hne : o ≠ h.ptr := fun heq => by
        have hcounter := (hinv.paired j i h' h hh' hi).mpr (hptr.trans heq)
        exact hj (hinv.counted.only (by rw [hn, hzero]) (show refs s j = _ by rw [refs, hh', Option.map_some, hcounter])
          hrefs)
      rw [Function.update_of_ne hne]
      exact (hinv.objects o).mpr ⟨j, h', hh', hptr⟩
  · rw [if_neg hzero, hinv.objects o]
    constructor
    · rintro ⟨j, h', hh', hptr⟩
      by_cases hj : j = i
      · -- another handle has the same counter
        obtain ⟨d, hd, hrefd⟩ := hinv.counted.another hn hzero i
        obtain ⟨hd', hhd, hcounter⟩ := Option.map_eq_some_iff.mp hrefd
        refine ⟨d, hd', hd, hhd, ?_⟩
        rw [hj, hi] at hh'
        rw [(hinv.paired d i hd' h hhd hi).mp hcounter, Option.some.inj hh', hptr]
      · exact ⟨j, h', hj, hh', hptr⟩
    · rintro ⟨j, h', -, hh', hptr⟩
      exact ⟨j, h', hh', hptr⟩

end Inv

/-! ## The operations -/

omit [DecidableEq ι] in
theorem delete_eq {a : Nat} (hobject : s.objects o = true) (hcounter : s.counters a = some n) :
    ((s.deleteObject o).bind fun s => s.deleteCounter a) =
      some { s with objects := Function.update s.objects o false, counters := Function.update s.counters a none } := by
  rw [State.deleteObject, if_pos hobject, Option.bind_some, State.deleteCounter]
  show (s.counters a).bind _ = _
  rw [hcounter]
  rfl

theorem Inv.construct (hinv : Inv s) (hi : s.handles i = none) (ho : s.objects o = false) {new : Option Nat}
    (hnew : ∀ a, new = some a → s.counters a = none) : ∃ s', s.construct i type o new = some s' ∧ Inv s' := by
  cases new with
  | none =>
      -- the object is deleted again
      have hrestored : Function.update (Function.update s.objects o true) o false = s.objects := by
        rw [Function.update_idem, ← ho, Function.update_eq_self]
      refine ⟨s, ?_, hinv⟩
      rw [State.construct, State.deleteObject]
      simp only [Function.update_self, if_true, hrestored]
  | some a =>
      have ha := hnew a rfl
      refine ⟨_, rfl, hinv.update (x := some ⟨type, o, a⟩) rfl ?_ ?_ fun o' => ?_⟩
      · exact hinv.counted.retain (show refs s i = none by rw [refs, hi]; rfl) (by rw [ha]; rfl)
      · intro h hx j _ h' hh'
        obtain rfl := Option.some.inj hx
        obtain ⟨n, hn, hobject⟩ := hinv.alive hh'
        refine ⟨fun heq => ?_, fun heq => ?_⟩
        · rw [← heq, ha] at hn
          cases hn
        · rw [← heq, ho] at hobject
          cases hobject
      · show Function.update s.objects o true o' = true ↔ _
        constructor
        · intro halive
          by_cases heq : o' = o
          · exact .inl ⟨_, rfl, heq.symm⟩
          · rw [Function.update_of_ne heq] at halive
            obtain ⟨j, h', hh', hptr⟩ := (hinv.objects o').mp halive
            refine .inr ⟨j, h', ?_, hh', hptr⟩
            rintro rfl
            rw [hi] at hh'
            cases hh'
        · rintro (⟨h, hx, hptr⟩ | ⟨j, h', -, hh', hptr⟩)
          · obtain rfl := Option.some.inj hx
            rw [← hptr, Function.update_self]
          · have halive := (hinv.objects o').mpr ⟨j, h', hh', hptr⟩
            have hne : o' ≠ o := fun heq => by
              rw [heq, ho] at halive
              cases halive
            rwa [Function.update_of_ne hne]

theorem Inv.copy (hinv : Inv s) (hi : s.handles i = none) (hother : s.handles other = some h) :
    ∃ s', s.copy i other type = some s' ∧ Inv s' := by
  obtain ⟨n, hn, hobject⟩ := hinv.alive hother
  refine ⟨_, by rw [State.copy, hother]; simp only [bind, Option.bind_some, hn]; rfl, ?_⟩
  refine hinv.update (x := some { h with type }) rfl ?_ ?_ fun o => ?_
  · exact hinv.counted.retain (show refs s i = none by rw [refs, hi]; rfl) (by rw [hn]; rfl)
  · intro h₁ hx j _ h' hh'
    obtain rfl := Option.some.inj hx
    exact hinv.paired other j h h' hother hh'
  · show s.objects o = true ↔ _
    constructor
    · intro halive
      obtain ⟨j, h', hh', hptr⟩ := (hinv.objects o).mp halive
      refine .inr ⟨j, h', ?_, hh', hptr⟩
      rintro rfl
      rw [hi] at hh'
      cases hh'
    · rintro (⟨h₁, hx, hptr⟩ | ⟨j, h', -, hh', hptr⟩)
      · obtain rfl := Option.some.inj hx
        rw [← hptr]
        exact hobject
      · exact (hinv.objects o).mpr ⟨j, h', hh', hptr⟩

theorem Inv.destroy (hinv : Inv s) (hi : s.handles i = some h) : ∃ s', s.destroy i = some s' ∧ Inv s' := by
  obtain ⟨n, hn, hobject⟩ := hinv.alive hi
  have hcounted := hinv.counted.release (show refs s i = some h.counter by rw [refs, hi]; rfl) hn
  have hleft := hinv.left hi hn
  by_cases hzero : n = 0
  · subst hzero
    rw [if_pos rfl] at hcounted
    refine ⟨⟨Function.update s.objects h.ptr false, Function.update s.counters h.counter none,
      Function.update s.handles i none⟩, ?_, hinv.update (x := none) rfl hcounted (fun _ hx => by cases hx) fun o => ?_⟩
    · rw [State.destroy, hi]
      simp only [bind, Option.bind_some, hn, Nat.add_sub_cancel, if_true]
      have hdeleted := delete_eq (s := (s.setCounter h.counter (some 0)).setHandle i none) (o := h.ptr)
        (a := h.counter) hobject (Function.update_self ..)
      rw [hdeleted]
      simp only [State.setCounter, State.setHandle, Function.update_idem]
    · simpa using hleft o
  · rw [if_neg hzero] at hcounted
    refine ⟨⟨s.objects, Function.update s.counters h.counter (some n), Function.update s.handles i none⟩, ?_,
      hinv.update (x := none) rfl hcounted (fun _ hx => by cases hx) fun o => ?_⟩
    · rw [State.destroy, hi]
      simp only [bind, Option.bind_some, hn, State.setCounter, State.setHandle, pure, Nat.add_sub_cancel]
      rw [if_neg (Ne.symm hzero)]
    · simpa [hzero] using hleft o

theorem Inv.assign (hinv : Inv s) (hi : s.handles i = some h) (hother : s.handles other = some h')
    (htype : h.type = h'.type) : ∃ s', s.assign i other = some s' ∧ Inv s' := by
  obtain ⟨n, hn, hobject⟩ := hinv.alive hi
  obtain ⟨m, hm, hobject'⟩ := hinv.alive hother
  have hnew : ({ h with ptr := h'.ptr, counter := h'.counter } : Handle τ) = h' := by
    rw [htype]
  by_cases hcounter : h.counter = h'.counter
  · -- one object: the counter is as before
    have hsame : h = h' := by
      have hptr := (hinv.paired i other h h' hi hother).mp hcounter
      rw [← hnew, ← hptr, ← hcounter]
    subst hsame
    refine ⟨s, ?_, hinv⟩
    rw [State.assign, hi]
    simp only [bind, Option.bind_some, hn, State.setCounter, State.setHandle, hother, Function.update_self, pure,
      Function.update_idem, Nat.add_sub_cancel, hnew]
    rw [if_neg (by omega), ← hn, Function.update_eq_self, ← hi, Function.update_eq_self]
  · have hcounted := hinv.counted.move (show refs s i = some h.counter by rw [refs, hi]; rfl) hn (Ne.symm hcounter)
      (by rw [hm])
    have hleft := hinv.left hi hn
    have hpaired : ∀ h₁, some h' = some h₁ → ∀ j ≠ i, ∀ h₂, s.handles j = some h₂ →
        (h₁.counter = h₂.counter ↔ h₁.ptr = h₂.ptr) := by
      intro h₁ heq j _ h₂ hj
      obtain rfl := Option.some.inj heq
      exact hinv.paired other j h' h₂ hother hj
    have hobjects : ∀ o, (∃ j h₂, j ≠ i ∧ s.handles j = some h₂ ∧ h₂.ptr = o) ↔
        (∃ h₁, some h' = some h₁ ∧ h₁.ptr = o) ∨ ∃ j h₂, j ≠ i ∧ s.handles j = some h₂ ∧ h₂.ptr = o := by
      intro o
      refine ⟨.inr, ?_⟩
      rintro (⟨h₁, heq, hptr⟩ | hothers)
      · obtain rfl := Option.some.inj heq
        refine ⟨other, h', ?_, hother, hptr⟩
        rintro rfl
        rw [hi] at hother
        exact hcounter (by rw [Option.some.inj hother])
      · exact hothers
    rw [State.assign, hi]
    simp only [bind, Option.bind_some, hn, State.setCounter, State.setHandle, hother,
      Function.update_of_ne (Ne.symm hcounter), hm, Function.update_of_ne hcounter, Function.update_self,
      Nat.add_sub_cancel, hnew]
    by_cases hzero : n = 0
    · subst hzero
      rw [if_pos rfl] at hcounted
      refine ⟨⟨Function.update s.objects h.ptr false,
        Function.update (Function.update s.counters h'.counter (some (m + 1 + 1))) h.counter none,
        Function.update s.handles i (some h')⟩, ?_, hinv.update (x := some h') rfl hcounted hpaired fun o => ?_⟩
      · have hzero : Function.update (Function.update s.counters h.counter (some 0)) h'.counter (some (m + 1 + 1))
            h.counter = some 0 := by rw [Function.update_of_ne hcounter, Function.update_self]
        have hdeleted := delete_eq (s := ⟨s.objects, Function.update (Function.update s.counters h.counter (some 0))
          h'.counter (some (m + 1 + 1)), Function.update s.handles i (some h')⟩) hobject hzero
        rw [if_pos rfl, hdeleted, Function.update_comm hcounter, Function.update_idem]
      · rw [← hobjects o, ← hleft o, if_pos rfl]
    · rw [if_neg hzero] at hcounted
      refine ⟨⟨s.objects, Function.update (Function.update s.counters h'.counter (some (m + 1 + 1))) h.counter (some n),
        Function.update s.handles i (some h')⟩, ?_, hinv.update (x := some h') rfl hcounted hpaired fun o => ?_⟩
      · rw [if_neg (Ne.symm hzero), Function.update_comm hcounter]
        rfl
      · rw [← hobjects o, ← hleft o, if_neg hzero]

/-! ## Runs -/

theorem Inv.exec (hinv : Inv s) {call : Call ι τ} (hallowed : Allowed s call) :
    ∃ s', exec s call = some s' ∧ Inv s' := by
  cases call with
  | construct i type o new =>
      obtain ⟨hi, ho, hnew⟩ := hallowed
      exact hinv.construct hi ho hnew
  | copy i other type =>
      obtain ⟨hi, hother⟩ := hallowed
      obtain ⟨h, hother⟩ := Option.isSome_iff_exists.mp hother
      exact hinv.copy hi hother
  | assign i other =>
      obtain ⟨hi, htypes⟩ := hallowed
      obtain ⟨h, hi⟩ := Option.isSome_iff_exists.mp hi
      rw [hi, Option.map_some] at htypes
      obtain ⟨h', hother, htype⟩ := Option.map_eq_some_iff.mp htypes.symm
      exact hinv.assign hi hother htype.symm
  | destroy i =>
      obtain ⟨h, hi⟩ := Option.isSome_iff_exists.mp hallowed
      exact hinv.destroy hi

end Workbench.Handles.SharedPtr
