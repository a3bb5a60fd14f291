import Workbench.Lib.Comparator
import Workbench.Lib.Refines
import Workbench.Lib.Served
import Workbench.Linked.Pqueue

/-!
# `Linked.PqueueRuns` — the priority queue, over any calls

The model has the data in the order in which they were put in. What leaves it is the first of those that have the
highest priority, among all data or among those that a search finds.

## Main results
* `queue_serves` — each call answers as the model does, and the queue contains what the model has.
-/

namespace Workbench.DoublyLinked

variable {α κ : Type}

/-- A new address is the one that `malloc` returns. -/
inductive Call (α κ : Type)
  | enpqueue (data : α) (new : Option Nat)
  | depqueue
  | erase (isMatch : α → κ → Int) (dataToCompare : κ)
  | clear
  | peek
  | size
  | isEmpty

inductive Answer (α : Type)
  | status (n : Int)
  | data (data : Option α)
  | done
  | size (n : Nat)
  | isEmpty (b : Bool)

def exec (pqueue : PQueue α) : Call α κ → Option (PQueue α × Answer α)
  | .enpqueue data new => do
      let (pqueue, n) ← pqEnpqueue pqueue data new
      return (pqueue, .status n)
  | .depqueue => do
      let (pqueue, data) ← pqDepqueue pqueue
      return (pqueue, .data (some data))
  | .erase isMatch dataToCompare => do
      let (pqueue, data) ← pqErase pqueue isMatch dataToCompare
      return (pqueue, .data data)
  | .clear => do
      let pqueue ← pqClear pqueue
      return (pqueue, .done)
  | .peek => do
      let data ← pqPeek pqueue
      return (pqueue, .data (some data))
  | .size => do
      let n ← pqSize pqueue
      return (pqueue, .size n)
  | .isEmpty => do
      let b ← pqIsEmpty pqueue
      return (pqueue, .isEmpty b)

def pqueueComponent (α κ : Type) (cmp : Comparator α) : Component (PQueue α) (Call α κ) (Answer α) where
  init pqueue := pqueue = pqCreate cmp.compare
  exec := exec

/-! ## What the queue is for -/

/-- The comparator wants the one in front of the other. -/
def isBefore (cmp : Comparator α) (x y : α) : Bool := 0 ≤ cmp.compare x y

/-- No other that is asked for has a higher priority. -/
def isBest (cmp : Comparator α) (p : α → Bool) (xs : List α) (x : α) : Bool :=
  p x && xs.all fun y => !p y || isBefore cmp x y

/-- The first of the best, and the others. -/
def serve (cmp : Comparator α) (p : α → Bool) (xs : List α) : List α × Option α :=
  (xs.eraseP (isBest cmp p xs), xs.find? (isBest cmp p xs))

def pqueueAnswer (cmp : Comparator α) (xs : List α) : Call α κ → List α × Answer α
  | .enpqueue data (some _) => (xs ++ [data], .status 0)
  | .enpqueue _ none => (xs, .status 1)
  | .depqueue => ((serve cmp (fun _ => true) xs).1, .data (serve cmp (fun _ => true) xs).2)
  | .erase isMatch key => ((serve cmp (isFound isMatch key) xs).1, .data (serve cmp (isFound isMatch key) xs).2)
  | .clear => ([], .done)
  | .peek => (xs, .data (serve cmp (fun _ => true) xs).2)
  | .size => (xs, .size xs.length)
  | .isEmpty => (xs, .isEmpty xs.isEmpty)

def pqueueModel (α κ : Type) (cmp : Comparator α) : Model (List α) (Call α κ) (Answer α) where
  init := []
  answer := pqueueAnswer cmp

/-- `malloc` returns an address that is free, and data are taken and looked at where there are some. -/
def Allowed (pqueue : PQueue α) (xs : List α) : Call α κ → Prop
  | .enpqueue _ new => ∀ address, new = some address → Unused pqueue address
  | .depqueue | .peek => xs ≠ []
  | _ => True

/-! ## The queue in the order of the comparator -/

variable {cmp : Comparator α} {pqueue : PQueue α} {xs ys : List α} {x data : α}

/-- The queue contains the data that are in it in the order in which they are served. -/
def Keeps (cmp : Comparator α) (pqueue : PQueue α) (xs : List α) : Prop :=
  ∃ ys, Contains cmp.compare pqueue ys ∧ Served cmp.reverse.rank xs ys

theorem isBest_eq (cmp : Comparator α) (p : α → Bool) (xs : List α) :
    isBest cmp p xs = goesFirst cmp.reverse.rank p xs := by
  funext x
  have hbefore : ∀ y, isBefore cmp x y = decide (cmp.reverse.rank x ≤ cmp.reverse.rank y) :=
    fun y => decide_eq_decide.mpr cmp.reverse_rank_le.symm
  unfold isBest goesFirst
  simp only [hbefore]

/-- The queue serves what the model serves. -/
theorem serve_eq (h : Served cmp.reverse.rank xs ys) (p : α → Bool) :
    (serve cmp p xs).2 = ys.find? p ∧ Served cmp.reverse.rank (serve cmp p xs).1 (ys.eraseP p) := by
  unfold serve
  rw [isBest_eq]
  exact ⟨h.find?_eq.symm, h.eraseP p⟩

/-- New data get behind all that the comparator wants in front of them. -/
theorem served_insertSorted (h : Served cmp.reverse.rank xs ys) (data : α) :
    Served cmp.reverse.rank (xs ++ [data]) (insertSorted cmp.compare data ys) := by
  refine h.insert ⟨fun a _ hle => decide_eq_true (cmp.reverse_rank_le.mp hle), fun a _ hlt _ => ?_⟩
  exact decide_eq_false fun hle => not_le_of_gt hlt (cmp.reverse_rank_le.mpr hle)

theorem served_perm (h : Served cmp.reverse.rank xs ys) : ys.Perm xs := by
  classical
  exact h.perm

theorem keeps_create (cmp : Comparator α) : Keeps cmp (pqCreate cmp.compare) [] :=
  ⟨[], contains_create cmp.compare, .nil⟩

/-- **Each call** answers as the model does. -/
theorem Keeps.exec {call : Call α κ} (h : Keeps cmp pqueue xs) (hallowed : Allowed pqueue xs call) :
    ∃ pqueue', exec pqueue call = some (pqueue', (pqueueAnswer cmp xs call).2) ∧
      Keeps cmp pqueue' (pqueueAnswer cmp xs call).1 := by
  obtain ⟨ys, hys, hserved⟩ := h
  have hfront : xs ≠ [] → ∃ y ys', ys = y :: ys' := by
    intro hne
    obtain ⟨x, hx⟩ := List.exists_mem_of_ne_nil xs hne
    exact List.exists_cons_of_ne_nil (List.ne_nil_of_mem ((hserved.mem_iff x).mpr hx))
  cases call with
  | enpqueue data new =>
      cases new with
      | none => exact ⟨pqueue, by simp [DoublyLinked.exec, hys.enpqueue_fails, pqueueAnswer], ys, hys, hserved⟩
      | some address =>
          obtain ⟨pqueue', henpqueue, hys'⟩ := hys.enpqueue (hallowed address rfl) data
          refine ⟨pqueue', ?_, _, hys', served_insertSorted hserved data⟩
          simp [DoublyLinked.exec, henpqueue, pqueueAnswer]
  | depqueue =>
      obtain ⟨y, ys', rfl⟩ := hfront hallowed
      obtain ⟨-, pqueue', hdepqueue, hys'⟩ := hys.depqueue
      obtain ⟨hdata, hrest⟩ := serve_eq hserved fun _ => true
      refine ⟨pqueue', ?_, ys', hys', by simpa [pqueueAnswer] using hrest⟩
      simp [DoublyLinked.exec, hdepqueue, pqueueAnswer, hdata]
  | erase isMatch key =>
      obtain ⟨pqueue', herase, hys'⟩ := hys.erase isMatch key
      obtain ⟨hdata, hrest⟩ := serve_eq hserved (isFound isMatch key)
      refine ⟨pqueue', ?_, _, hys', hrest⟩
      simp [DoublyLinked.exec, herase, pqueueAnswer, hdata]
  | clear =>
      obtain ⟨pqueue', hclear, hempty⟩ := hys.clear
      exact ⟨pqueue', by simp [DoublyLinked.exec, hclear, pqueueAnswer], [], hempty, .nil⟩
  | peek =>
      obtain ⟨y, ys', rfl⟩ := hfront hallowed
      obtain ⟨hpeek, -⟩ := hys.depqueue
      obtain ⟨hdata, -⟩ := serve_eq hserved fun _ => true
      refine ⟨pqueue, ?_, _, hys, hserved⟩
      simp [DoublyLinked.exec, hpeek, pqueueAnswer, hdata]
  | size =>
      refine ⟨pqueue, ?_, ys, hys, hserved⟩
      simp [DoublyLinked.exec, hys.size, pqueueAnswer, (served_perm hserved).length_eq]
  | isEmpty =>
      refine ⟨pqueue, ?_, ys, hys, hserved⟩
      simp [DoublyLinked.exec, hys.isEmpty, pqueueAnswer, (served_perm hserved).isEmpty_eq]

/-- A search that finds nothing does not touch the queue. -/
theorem pqErase_none {isMatch : α → κ → Int} {key : κ} {pqueue' : PQueue α}
    (h : pqErase pqueue isMatch key = some (pqueue', none)) : pqueue' = pqueue := by
  obtain ⟨first, -, h⟩ := Option.bind_eq_some_iff.mp h
  obtain ⟨removeIter, -, h⟩ := Option.bind_eq_some_iff.mp h
  split at h
  · obtain ⟨data, -, h⟩ := Option.bind_eq_some_iff.mp h
    obtain ⟨r, -, h⟩ := Option.bind_eq_some_iff.mp h
    cases h
  · cases h
    rfl

/-! ## The main result -/

/-- **The queue serves the highest priority first**, and data of one priority in the order in which they came. It
contains what came and was not served, nothing else, and an allocation or a search that fails leaves it as it is. -/
theorem queue_serves (cmp : Comparator α) :
    Refines (pqueueComponent α κ cmp) (pqueueModel α κ cmp) Allowed ∧
      ∀ s, (sideBySide (pqueueComponent α κ cmp) (pqueueModel α κ cmp) Allowed).Reachable System.Any s →
        (∃ ys, Contains cmp.compare s.1 ys ∧ ys.Perm s.2) ∧
        (∀ data, pqEnpqueue s.1 data none = some (s.1, 1)) ∧
        ∀ (isMatch : α → κ → Int) (key : κ) (pqueue' : PQueue α),
          pqErase s.1 isMatch key = some (pqueue', none) → pqueue' = s.1 := by
  have hinit : ∀ pqueue, (pqueueComponent α κ cmp).init pqueue → Keeps cmp pqueue (pqueueModel α κ cmp).init := by
    rintro pqueue rfl
    exact keeps_create cmp
  have hstep : ∀ pqueue xs call, Keeps cmp pqueue xs → Allowed pqueue xs call →
      ∃ pqueue', (pqueueComponent α κ cmp).exec pqueue call =
          some (pqueue', ((pqueueModel α κ cmp).answer xs call).2) ∧
        Keeps cmp pqueue' ((pqueueModel α κ cmp).answer xs call).1 := fun pqueue xs call h hallowed => h.exec hallowed
  refine ⟨refines_of_simulation hinit hstep, fun s hs => ?_⟩
  obtain ⟨ys, hys, hserved⟩ := keeps_of_simulation hinit hstep hs
  exact ⟨⟨ys, hys, served_perm hserved⟩, hys.enpqueue_fails, fun isMatch key pqueue' => pqErase_none⟩

/-- Of the numbers below 9 the greatest is served. -/
example : serve Comparator.byDifference (fun x => x < 9) [3, 9, 7, 2] = ([3, 9, 2], some 7) := by decide

end Workbench.DoublyLinked
