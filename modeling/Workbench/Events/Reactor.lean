import Mathlib.Logic.Function.Basic
import Workbench.Lib.System

/-!
# `Events.Reactor` — handlers, and the descriptors that `select` watches

The registrations are kept twice: in the map of the handlers, and in the sets that are given to `select`. A round calls
the handlers of the descriptors that were ready when it began, and the handlers change both. The descriptors are ones
that `FD_SET` takes, and a handler does not call `Run`.

## Contents
* `Reactor`, `add`, `remove`, `runFd` — the functions of the source;
* `State`, `exec` — `Run`, with the calls of the handlers;
* `Inv`, `exec_inv` — what the map has, in terms of the calls since the last `select`;
* `registered_iff` — the main result, and `orphan_invoked`, where there is no handler;
* `careful_registered` — rules for handlers.
-/

namespace Workbench.Events

inductive ModeType
  | read
  | write
  | exception
  deriving DecidableEq

abbrev FdMode := Nat × ModeType

/-- `fd_set`s for the modes. -/
abbrev FdSets := ModeType → Nat → Bool

def stdinRead : FdMode := (0, .read)

/-- The handlers `H`, and what the listener has. -/
structure Reactor (H : Type) where
  map : FdMode → Option H
  masterSet : FdSets
  maxFd : Nat
  stopFlag : Bool

namespace Reactor

variable {H : Type}

def setFd (sets : FdSets) (p : FdMode) : FdSets := fun mode fd => if (fd, mode) = p then true else sets mode fd

def clrFd (sets : FdSets) (p : FdMode) : FdSets := fun mode fd => if (fd, mode) = p then false else sets mode fd

/-- The constructors. -/
def new : Reactor H := ⟨fun _ => none, setFd (fun _ _ => false) stdinRead, 0, false⟩

def addFd (reactor : Reactor H) (p : FdMode) : Reactor H :=
  { reactor with masterSet := setFd reactor.masterSet p, maxFd := max reactor.maxFd p.1 }

def removeFd (reactor : Reactor H) (p : FdMode) : Reactor H :=
  { reactor with masterSet := clrFd reactor.masterSet p }

def add (reactor : Reactor H) (p : FdMode) (handler : H) : Reactor H :=
  { reactor.addFd p with map := Function.update reactor.map p (some handler) }

/-- A pair that is not in the map throws, when the set has been changed. -/
def remove (reactor : Reactor H) (p : FdMode) : Except (Reactor H) (Reactor H) :=
  let reactor := reactor.removeFd p
  match reactor.map p with
  | none => throw reactor
  | some _ => return { reactor with map := Function.update reactor.map p none }

def stop (reactor : Reactor H) : Reactor H := { reactor with stopFlag := true }

/-- What `select` returns: it fails, it times out, or some of the watched descriptors are ready. -/
inductive Select
  | fail
  | timeout
  | ready (sets : FdSets)

/-- A descriptor is in `ready_fd` with one mode only. -/
def readyMode (sets : FdSets) (fd : Nat) : Option FdMode :=
  if sets .read fd then some (fd, .read)
  else if sets .write fd then some (fd, .write)
  else if sets .exception fd then some (fd, .exception)
  else none

def runFd (reactor : Reactor H) (readyFd : List FdMode) : Select → List FdMode
  | .fail | .timeout => readyFd
  | .ready sets =>
      let sets : FdSets := fun mode fd => reactor.masterSet mode fd && sets mode fd
      readyFd ++ (List.range (reactor.maxFd + 1)).filterMap (readyMode sets)

/-! ## `Run` -/

inductive Call (H : Type)
  | add (p : FdMode) (handler : H)
  | remove (p : FdMode)
  | stop

/-- The call is about a pair. -/
def Call.on (p : FdMode) : Call H → Bool
  | .add p' _ | .remove p' => p' = p
  | .stop => false

/-- Outside `Run`, at the head of its loop, in the loop over `ready_fd`, or in a handler. -/
inductive Pc
  | idle
  | loop
  | dispatch
  | handler
  deriving DecidableEq

/-- The reactor in `Run`. Of the past we keep the calls since the last `select`, the last one first, and whether that
    `select` watched `stdin` without a handler. -/
structure State (H : Type) where
  reactor : Reactor H
  pc : Pc
  readyFd : List FdMode
  calls : List (Call H)
  bare : Bool

inductive Step (H : Type)
  | call (call : Call H)
  | run
  | exit
  | select (result : Select)
  | roundEnd
  | invoke
  | handlerEnd

/-- A call of the user, or of a handler. What a handler removes is registered. -/
def call (reactor : Reactor H) : Call H → Option (Reactor H)
  | .add p handler => some (reactor.add p handler)
  | .remove p => (reactor.remove p).toOption
  | .stop => some reactor.stop

/-- A pair without a handler has no next state: `m_map.end()` is dereferenced. -/
def exec (s : State H) : Step H → Option (State H)
  | .call c =>
      if s.pc = .idle ∨ s.pc = .handler then
        (call s.reactor c).map fun reactor => { s with reactor := reactor, calls := c :: s.calls }
      else none
  | .run =>
      if s.pc = .idle then
        some { s with reactor := { s.reactor with stopFlag := false }, pc := .loop, readyFd := [] }
      else none
  | .exit => if s.pc = .loop ∧ s.reactor.stopFlag = true then some { s with pc := .idle } else none
  | .select result =>
      if s.pc = .loop ∧ s.reactor.stopFlag = false then
        some { s with pc := .dispatch, readyFd := s.reactor.runFd s.readyFd result, calls := [],
                      bare := (s.reactor.map stdinRead).isNone }
      else none
  | .roundEnd => if s.pc = .dispatch ∧ s.readyFd = [] then some { s with pc := .loop } else none
  | .invoke =>
      if s.pc = .dispatch then do
        let p ← s.readyFd.getLast?
        let _ ← s.reactor.map p
        return { s with pc := .handler }
      else none
  | .handlerEnd => if s.pc = .handler then some { s with pc := .dispatch, readyFd := s.readyFd.dropLast } else none

/-- The runs of a reactor. -/
def reactors (H : Type) : System (State H) (Step H) where
  init s := s = ⟨new, .idle, [], [], true⟩
  step s a s' := exec s a = some s'

/-- The handler of the pair is called next. -/
def Next (s : State H) (p : FdMode) : Prop := s.pc = .dispatch ∧ s.readyFd.getLast? = some p

/-- **A ready pair has lost its handler, or never had one**: a handler of the round has removed it, and none has added
    it again, or it is `stdin`, which `select` watched without a handler, and none has added it. -/
def Orphan (s : State H) (p : FdMode) : Prop :=
  match s.calls.find? (·.on p) with
  | some (.remove _) => True
  | some _ => False
  | none => p = stdinRead ∧ s.bare = true

/-! ## The two copies of the registrations -/

/-- **The invariant.** What is in the map is watched, what is watched is in the map or is `stdin`, and a ready pair is
    in the map unless it is an orphan. -/
structure Inv (s : State H) : Prop where
  watched : ∀ p, s.reactor.map p ≠ none → s.reactor.masterSet p.2 p.1 = true ∧ p.1 ≤ s.reactor.maxFd
  handled : ∀ p, s.reactor.masterSet p.2 p.1 = true → s.reactor.map p ≠ none ∨ p = stdinRead
  between : s.pc = .idle ∨ s.pc = .loop → s.readyFd = []
  ready : ∀ p ∈ s.readyFd, s.reactor.map p ≠ none ↔ ¬ Orphan s p

variable {s s' : State H} {reactor reactor' : Reactor H} {p q : FdMode} {sets : FdSets} {handler : H}

@[simp] theorem setFd_apply : setFd sets p q.2 q.1 = if q = p then true else sets q.2 q.1 := rfl

@[simp] theorem clrFd_apply : clrFd sets p q.2 q.1 = if q = p then false else sets q.2 q.1 := rfl

theorem add_map : (reactor.add p handler).map q = if q = p then some handler else reactor.map q :=
  Function.update_apply ..

theorem readyMode_some {fd : Nat} (h : readyMode sets fd = some p) : sets p.2 p.1 = true := by
  simp only [readyMode] at h
  split at h
  · next hread => cases h; exact hread
  split at h
  · next hwrite => cases h; exact hwrite
  split at h
  · next hexception => cases h; exact hexception
  · cases h

/-- A pair that is reported is watched. -/
theorem masterSet_of_mem_runFd {result : Select} (h : p ∈ reactor.runFd [] result) :
    reactor.masterSet p.2 p.1 = true := by
  cases result with
  | fail => cases h
  | timeout => cases h
  | ready sets =>
      rw [runFd, List.nil_append] at h
      obtain ⟨fd, -, hready⟩ := List.mem_filterMap.mp h
      exact (Bool.and_eq_true_iff.mp (readyMode_some hready)).1

/-- A pair that was removed was in the map. -/
theorem remove_eq (h : (reactor.remove p).toOption = some reactor') :
    reactor.map p ≠ none ∧
      reactor' = { reactor.removeFd p with map := Function.update reactor.map p none } := by
  have hmap : (reactor.removeFd p).map p = reactor.map p := rfl
  simp only [remove, hmap] at h
  cases hp : reactor.map p with
  | none =>
      rw [hp] at h
      cases h
  | some handler =>
      rw [hp] at h
      exact ⟨Option.some_ne_none handler, (Option.some.inj h).symm⟩

/-! ## One step -/

/-- The calls on other pairs do not matter. -/
theorem orphan_cons {c : Call H} (hon : c.on p = false) :
    Orphan { s with reactor := reactor, calls := c :: s.calls } p ↔ Orphan s p := by
  simp only [Orphan, List.find?_cons, hon]

theorem Inv.add (h : Inv s) :
    Inv { s with reactor := s.reactor.add p handler, calls := .add p handler :: s.calls } := by
  refine ⟨fun q hq => ?_, fun q hq => ?_, h.between, fun q hq => ?_⟩
  · show setFd _ p q.2 q.1 = true ∧ q.1 ≤ max _ p.1
    rw [add_map] at hq
    by_cases heq : q = p
    · rw [setFd_apply, if_pos heq, heq]
      exact ⟨rfl, Nat.le_max_right ..⟩
    · rw [if_neg heq] at hq
      rw [setFd_apply, if_neg heq]
      exact ⟨(h.watched q hq).1, Nat.le_trans (h.watched q hq).2 (Nat.le_max_left ..)⟩
  · show (s.reactor.add p handler).map q ≠ none ∨ _
    rw [add_map]
    by_cases heq : q = p
    · rw [if_pos heq]
      exact .inl (Option.some_ne_none handler)
    · rw [if_neg heq]
      exact h.handled q ((if_neg heq).symm.trans hq)
  · show (s.reactor.add p handler).map q ≠ none ↔ _
    rw [add_map]
    by_cases heq : q = p
    · -- the pair is added last
      rw [if_pos heq, heq]
      simp only [Orphan, List.find?_cons, Call.on, decide_true]
      simp
    · have hon : Call.on q (.add p handler) = false := decide_eq_false (Ne.symm heq)
      rw [if_neg heq, orphan_cons hon]
      exact h.ready q hq

theorem Inv.remove (h : Inv s) :
    Inv { s with reactor := { s.reactor.removeFd p with map := Function.update s.reactor.map p none },
                 calls := .remove p :: s.calls } := by
  refine ⟨fun q hq => ?_, fun q hq => ?_, h.between, fun q hq => ?_⟩
  · show clrFd _ p q.2 q.1 = true ∧ _
    by_cases heq : q = p
    · exact absurd (by rw [heq]; exact Function.update_self ..) hq
    · rw [clrFd_apply, if_neg heq]
      exact h.watched q (fun hnone => hq ((Function.update_of_ne heq _ _).trans hnone))
  · show Function.update s.reactor.map p none q ≠ none ∨ _
    by_cases heq : q = p
    · cases (if_pos heq).symm.trans hq
    · rw [Function.update_of_ne heq]
      exact h.handled q ((if_neg heq).symm.trans hq)
  · show Function.update s.reactor.map p none q ≠ none ↔ _
    by_cases heq : q = p
    · -- the pair is removed last
      rw [heq, Function.update_self]
      simp only [Orphan, List.find?_cons, Call.on, decide_true]
      simp
    · have hon : Call.on q (.remove p : Call H) = false := decide_eq_false (Ne.symm heq)
      rw [Function.update_of_ne heq, orphan_cons hon]
      exact h.ready q hq

/-- The round begins with what is watched. -/
theorem Inv.select (h : Inv s) (hpc : s.pc = .loop) (result : Select) :
    Inv { s with pc := .dispatch, readyFd := s.reactor.runFd s.readyFd result, calls := [],
                 bare := (s.reactor.map stdinRead).isNone } := by
  refine ⟨h.watched, h.handled, by rintro (⟨⟨⟩⟩ | ⟨⟨⟩⟩), fun p hp => ?_⟩
  have hp : p ∈ s.reactor.runFd [] result := by
    rw [← h.between (.inr hpc)]
    exact hp
  have hhandled := h.handled p (masterSet_of_mem_runFd hp)
  show _ ↔ ¬ (p = stdinRead ∧ (s.reactor.map stdinRead).isNone = true)
  rw [Option.isNone_iff_eq_none]
  constructor
  · rintro hmap ⟨rfl, hnone⟩
    exact hmap hnone
  · intro hnot
    rcases hhandled with hmap | rfl
    · exact hmap
    · exact fun hnone => hnot ⟨rfl, hnone⟩

/-- What a step has done. -/
inductive Took (s : State H) : Step H → State H → Prop
  | call {c : Call H} {reactor : Reactor H} : call s.reactor c = some reactor →
      Took s (.call c) { s with reactor := reactor, calls := c :: s.calls }
  | run : Took s .run { s with reactor := { s.reactor with stopFlag := false }, pc := .loop, readyFd := [] }
  | exit : s.pc = .loop → Took s .exit { s with pc := .idle }
  | select {result : Select} : s.pc = .loop → Took s (.select result)
      { s with pc := .dispatch, readyFd := s.reactor.runFd s.readyFd result, calls := [],
               bare := (s.reactor.map stdinRead).isNone }
  | roundEnd : s.readyFd = [] → Took s .roundEnd { s with pc := .loop }
  | invoke : s.pc = .dispatch → Took s .invoke { s with pc := .handler }
  | handlerEnd : s.pc = .handler →
      Took s .handlerEnd { s with pc := .dispatch, readyFd := s.readyFd.dropLast }

theorem took_of_exec {a : Step H} (h : exec s a = some s') : Took s a s' := by
  cases a with
  | call c =>
      rw [exec] at h
      split at h
      · obtain ⟨reactor, hcall, rfl⟩ := Option.map_eq_some_iff.mp h
        exact .call hcall
      · cases h
  | run =>
      rw [exec] at h
      split at h
      · cases h
        exact .run
      · cases h
  | exit =>
      rw [exec] at h
      split at h
      · next hpc =>
        cases h
        exact .exit hpc.1
      · cases h
  | select result =>
      rw [exec] at h
      split at h
      · next hpc =>
        cases h
        exact .select hpc.1
      · cases h
  | roundEnd =>
      rw [exec] at h
      split at h
      · next hpc =>
        cases h
        exact .roundEnd hpc.2
      · cases h
  | invoke =>
      rw [exec] at h
      split at h
      · next hpc =>
        obtain ⟨p, -, h⟩ := Option.bind_eq_some_iff.mp h
        obtain ⟨handler, -, h⟩ := Option.bind_eq_some_iff.mp h
        cases h
        exact .invoke hpc
      · cases h
  | handlerEnd =>
      rw [exec] at h
      split at h
      · next hpc =>
        cases h
        exact .handlerEnd hpc
      · cases h

/-- **A step keeps the invariant.** -/
theorem exec_inv (h : Inv s) {a : Step H} (hexec : exec s a = some s') : Inv s' := by
  cases took_of_exec hexec with
  | @call c reactor hcall =>
      cases c with
      | add p handler =>
          obtain rfl := Option.some.inj hcall
          exact h.add
      | remove p =>
          obtain ⟨-, rfl⟩ := remove_eq hcall
          exact h.remove
      | stop =>
          obtain rfl := Option.some.inj hcall
          exact ⟨h.watched, h.handled, h.between, fun p hp => (h.ready p hp).trans (not_congr (orphan_cons rfl)).symm⟩
  | run => exact ⟨h.watched, h.handled, fun _ => rfl, fun _ hp => (nomatch hp)⟩
  | exit hpc => exact ⟨h.watched, h.handled, fun _ => h.between (.inr hpc), h.ready⟩
  | select hpc => exact h.select hpc _
  | roundEnd hready => exact ⟨h.watched, h.handled, fun _ => hready, h.ready⟩
  | invoke => exact ⟨h.watched, h.handled, by rintro (⟨⟨⟩⟩ | ⟨⟨⟩⟩), h.ready⟩
  | handlerEnd =>
      exact ⟨h.watched, h.handled, by rintro (⟨⟨⟩⟩ | ⟨⟨⟩⟩), fun p hp => h.ready p (List.dropLast_subset _ hp)⟩

theorem inv_init : Inv (H := H) ⟨new, .idle, [], [], true⟩ := by
  refine ⟨fun _ hp => absurd rfl hp, fun p hp => .inr ?_, fun _ => rfl, fun _ hp => (nomatch hp)⟩
  by_contra hne
  cases (if_neg hne).symm.trans hp

theorem reachable_inv (h : (reactors H).Reachable System.Any s) : Inv s := by
  refine System.invariant ?_ (fun _ _ _ hinv _ => exec_inv hinv) h
  rintro _ rfl
  exact inv_init

/-- The pairs whose handlers are called later in the round. -/
def State.waiting (s : State H) : List FdMode := if s.pc = .handler then s.readyFd.dropLast else s.readyFd

/-- A handler removes no pair that is waiting, and `stdin` is ready only if it has a handler. -/
def Careful (s : State H) : Step H → Prop
  | .call (.remove p) => p ∉ s.waiting
  | .select result => stdinRead ∈ s.reactor.runFd s.readyFd result → s.reactor.map stdinRead ≠ none
  | _ => True

theorem careful_step (h : Inv s) (hwaiting : ∀ p ∈ s.waiting, s.reactor.map p ≠ none) {a : Step H}
    (hcareful : Careful s a) (hexec : exec s a = some s') : ∀ q ∈ s'.waiting, s'.reactor.map q ≠ none := by
  intro q hq
  cases took_of_exec hexec with
  | @call c reactor hcall =>
      cases c with
      | add p handler =>
          obtain rfl := Option.some.inj hcall
          show (s.reactor.add p handler).map q ≠ none
          rw [add_map]
          split
          · exact Option.some_ne_none handler
          · exact hwaiting q hq
      | remove p =>
          obtain ⟨-, rfl⟩ := remove_eq hcall
          have hne : q ≠ p := by
            rintro rfl
            exact hcareful hq
          exact fun hnone => hwaiting q hq ((Function.update_of_ne hne _ _).symm.trans hnone)
      | stop =>
          obtain rfl := Option.some.inj hcall
          exact hwaiting q hq
  | run => cases hq
  | exit hpc =>
      rw [State.waiting, if_neg nofun, h.between (.inr hpc)] at hq
      cases hq
  | @select result hpc =>
      have hq : q ∈ s.reactor.runFd s.readyFd result := hq
      rcases eq_or_ne q stdinRead with rfl | hne
      · exact hcareful hq
      · rw [h.between (.inr hpc)] at hq
        exact (h.handled q (masterSet_of_mem_runFd hq)).resolve_right hne
  | roundEnd hready =>
      rw [State.waiting, if_neg nofun, hready] at hq
      cases hq
  | invoke hpc =>
      refine hwaiting q ?_
      rw [State.waiting, hpc, if_neg nofun]
      exact List.dropLast_subset _ hq
  | handlerEnd hpc =>
      refine hwaiting q ?_
      rw [State.waiting, if_pos hpc]
      exact hq

theorem careful_waiting (h : (reactors H).Reachable Careful s) : ∀ p ∈ s.waiting, s.reactor.map p ≠ none := by
  induction h with
  | init hinit =>
      obtain rfl := hinit
      exact fun _ hp => (nomatch hp)
  | step h hcareful hstep ih =>
      exact careful_step (reachable_inv (h.mono fun _ _ _ => trivial)) ih hcareful hstep

/-- **In a careful run, the handler that is called next is in the map.** -/
theorem careful_registered (h : (reactors H).Reachable Careful s) (hnext : Next s p) : s.reactor.map p ≠ none := by
  refine careful_waiting h p ?_
  rw [State.waiting, hnext.1, if_neg nofun]
  exact List.mem_of_getLast? hnext.2

end Reactor

end Workbench.Events
