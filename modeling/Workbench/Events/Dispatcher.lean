import Mathlib.Logic.Function.Basic
import Workbench.Lib.System

/-!
# `Events.Dispatcher` — callbacks and their dispatchers

A dispatcher has a list of pointers to callbacks, and a callback has one pointer back. Where the code follows a pointer
to an object that is not live, a call has no result here. The functions of the observers do not call the dispatcher.

## Contents
* `State`, `Call`, `exec` — the objects, and the public operations;
* `Linked` — the two directions agree;
* `Sound` — a callback is not subscribed to a second dispatcher;
* `links_agree` — the main result, and `left_behind`, where the callback is.
-/

namespace Workbench.Events.Dispatcher

variable {ι κ : Type}

/-- The live dispatchers with their `m_subscribers`, and the live callbacks with their `m_dispatcher`. -/
structure State (ι κ : Type) where
  subscribers : ι → Option (List κ)
  dispatcher : κ → Option (Option ι)

section
variable [DecidableEq ι] (s : State ι κ) (d : ι) (subscribers : Option (List κ))

def State.withSubscribers : State ι κ := { s with subscribers := Function.update s.subscribers d subscribers }

@[simp] theorem withSubscribers_subscribers (d' : ι) :
    (s.withSubscribers d subscribers).subscribers d' = if d' = d then subscribers else s.subscribers d' :=
  Function.update_apply ..

@[simp] theorem withSubscribers_dispatcher : (s.withSubscribers d subscribers).dispatcher = s.dispatcher := rfl

end

section
variable [DecidableEq κ] (s : State ι κ) (callback : κ) (dispatcher : Option (Option ι))

def State.withDispatcher : State ι κ := { s with dispatcher := Function.update s.dispatcher callback dispatcher }

@[simp] theorem withDispatcher_dispatcher (c : κ) :
    (s.withDispatcher callback dispatcher).dispatcher c = if c = callback then dispatcher else s.dispatcher c :=
  Function.update_apply ..

@[simp] theorem withDispatcher_subscribers :
    (s.withDispatcher callback dispatcher).subscribers = s.subscribers := rfl

end

variable [DecidableEq ι] [DecidableEq κ] (s : State ι κ) (d : ι) (callback : κ)

def setDispatcher (dispatcher : Option ι) : Option (State ι κ) := do
  let _ ← s.dispatcher callback
  return s.withDispatcher callback (some dispatcher)

def subscribe : Option (State ι κ) := do
  let s ← setDispatcher s callback (some d)
  let subscribers ← s.subscribers d
  return s.withSubscribers d (some (callback :: subscribers))

def unSubscribe : Option (State ι κ) := do
  let subscribers ← s.subscribers d
  return s.withSubscribers d (some (subscribers.filter (· ≠ callback)))

/-- The destructor of a callback. -/
def callBackDeath : Option (State ι κ) := do
  let dispatcher ← s.dispatcher callback
  let s ← match dispatcher with
    | some d => unSubscribe s d callback
    | none => some s
  return s.withDispatcher callback none

/-- The loop of the destructor of a dispatcher. -/
def dispatcherDeath : List κ → State ι κ → Option (State ι κ)
  | [], s => some s
  | callback :: rest, s => do
      let s ← setDispatcher s callback none
      dispatcherDeath rest s

/-- The public operations. -/
inductive Call (ι κ : Type)
  | newDispatcher (d : ι)
  | newCallback (callback : κ)
  | subscribe (d : ι) (callback : κ)
  | broadcast (d : ι)
  | deleteCallback (callback : κ)
  | deleteDispatcher (d : ι)

def exec : Call ι κ → Option (State ι κ)
  | .newDispatcher d => some (s.withSubscribers d (some []))
  | .newCallback callback => some (s.withDispatcher callback (some none))
  | .subscribe d callback => subscribe s d callback
  | .broadcast d => do
      let subscribers ← s.subscribers d
      if subscribers.all fun callback => (s.dispatcher callback).isSome then some s else none
  | .deleteCallback callback => callBackDeath s callback
  | .deleteDispatcher d => do
      let subscribers ← s.subscribers d
      let s ← dispatcherDeath subscribers s
      return s.withSubscribers d none

/-- What a caller keeps to: a new object is at an address that is free, and the objects of the other calls are live. -/
def Legal : Call ι κ → Prop
  | .newDispatcher d => s.subscribers d = none
  | .newCallback callback => s.dispatcher callback = none
  | .subscribe d callback => s.subscribers d ≠ none ∧ s.dispatcher callback ≠ none
  | .deleteCallback callback => s.dispatcher callback ≠ none
  | .broadcast d | .deleteDispatcher d => s.subscribers d ≠ none

/-- The runs of the legal calls. -/
def dispatchers (ι κ : Type) [DecidableEq ι] [DecidableEq κ] : System (State ι κ) (Call ι κ) where
  init s := s = ⟨fun _ => none, fun _ => none⟩
  step s call s' := Legal s call ∧ exec s call = some s'

/-! ## The links -/

/-- **The two directions agree**: a subscriber is live and points back, and a dispatcher that a callback points to is
    live and has the callback in its list. -/
structure Linked : Prop where
  back : ∀ d subscribers, s.subscribers d = some subscribers → ∀ callback ∈ subscribers,
    s.dispatcher callback = some (some d)
  forth : ∀ callback d, s.dispatcher callback = some (some d) →
    ∃ subscribers, s.subscribers d = some subscribers ∧ callback ∈ subscribers

/-- A callback that is subscribed has no other dispatcher. -/
def Sound : Call ι κ → Prop
  | .subscribe d callback => ∀ d', s.dispatcher callback = some (some d') → d' = d
  | _ => True

variable {s d callback}

omit [DecidableEq κ] in
theorem newDispatcher_linked (h : Linked s) (hd : s.subscribers d = none) :
    Linked (s.withSubscribers d (some [])) := by
  constructor
  · intro d' subscribers hd' c hmem
    rw [withSubscribers_subscribers] at hd'
    split at hd'
    · cases hd'
      cases hmem
    · exact h.back d' subscribers hd' c hmem
  · intro c d' hback
    obtain ⟨subscribers, hd', hmem⟩ := h.forth c d' hback
    have hne : d' ≠ d := by
      rintro rfl
      rw [hd] at hd'
      cases hd'
    exact ⟨subscribers, by rw [withSubscribers_subscribers, if_neg hne, hd'], hmem⟩

omit [DecidableEq ι] in
/-- A callback that is in no list is new, or is deleted. -/
theorem withDispatcher_linked (h : Linked s) (hc : ∀ d, s.dispatcher callback ≠ some (some d))
    {dispatcher : Option (Option ι)} (hdispatcher : ∀ d, dispatcher ≠ some (some d)) :
    Linked (s.withDispatcher callback dispatcher) := by
  constructor
  · intro d subscribers hd c hmem
    have hback := h.back d subscribers hd c hmem
    have hne : c ≠ callback := by
      rintro rfl
      exact hc d hback
    rw [withDispatcher_dispatcher, if_neg hne, hback]
  · intro c d hback
    rw [withDispatcher_dispatcher] at hback
    split at hback
    · exact absurd hback (hdispatcher d)
    · exact h.forth c d hback

theorem subscribe_eq {subscribers : List κ} {dispatcher : Option ι} (hd : s.subscribers d = some subscribers)
    (hc : s.dispatcher callback = some dispatcher) :
    subscribe s d callback =
      some ((s.withDispatcher callback (some (some d))).withSubscribers d (some (callback :: subscribers))) := by
  simp only [subscribe, setDispatcher, hc, hd, Option.bind_eq_bind, Option.bind_some, Option.pure_def,
    withDispatcher_subscribers]

/-- **The links agree after `Subscribe` if and only if the callback had no other dispatcher.** -/
theorem subscribe_linked_iff (h : Linked s) {subscribers : List κ} (hd : s.subscribers d = some subscribers) :
    Linked ((s.withDispatcher callback (some (some d))).withSubscribers d (some (callback :: subscribers))) ↔
      Sound s (.subscribe d callback) := by
  constructor
  · -- the other dispatcher keeps the callback in its list
    intro hlinked d' hc
    obtain ⟨subscribers', hd', hmem⟩ := h.forth callback d' hc
    by_contra hne
    have hback := hlinked.back d' subscribers' ?_ callback hmem
    · rw [withSubscribers_dispatcher, withDispatcher_dispatcher, if_pos rfl] at hback
      exact hne (Option.some.inj (Option.some.inj hback)).symm
    · rw [withSubscribers_subscribers, if_neg hne]
      exact hd'
  · intro hsound
    constructor
    · intro d' subscribers' hd' c hmem
      rw [withSubscribers_subscribers, withDispatcher_subscribers] at hd'
      rw [withSubscribers_dispatcher, withDispatcher_dispatcher]
      by_cases heq : d' = d
      · rw [if_pos heq] at hd'
        cases hd'
        by_cases hc : c = callback
        · rw [if_pos hc, heq]
        · rw [if_neg hc, heq]
          exact h.back d subscribers hd c ((List.mem_cons.mp hmem).resolve_left hc)
      · rw [if_neg heq] at hd'
        have hback := h.back d' subscribers' hd' c hmem
        have hc : c ≠ callback := by
          rintro rfl
          exact heq (hsound d' hback)
        rw [if_neg hc, hback]
    · intro c d' hback
      rw [withSubscribers_dispatcher, withDispatcher_dispatcher] at hback
      rw [withSubscribers_subscribers, withDispatcher_subscribers]
      by_cases hc : c = callback
      · rw [if_pos hc] at hback
        obtain rfl := Option.some.inj (Option.some.inj hback)
        exact ⟨_, if_pos rfl, by rw [hc]; exact List.mem_cons_self⟩
      · rw [if_neg hc] at hback
        obtain ⟨subscribers', hd', hmem⟩ := h.forth c d' hback
        by_cases heq : d' = d
        · rw [heq, hd] at hd'
          cases hd'
          exact ⟨_, if_pos heq, List.mem_cons_of_mem _ hmem⟩
        · exact ⟨subscribers', by rw [if_neg heq, hd'], hmem⟩

/-- The one list with the callback is filtered, and the callback is not live. -/
theorem unSubscribe_linked (h : Linked s) {subscribers : List κ} (hd : s.subscribers d = some subscribers)
    (hc : s.dispatcher callback = some (some d)) :
    Linked ((s.withSubscribers d (some (subscribers.filter (· ≠ callback)))).withDispatcher callback none) := by
  constructor
  · intro d' subscribers' hd' c hmem
    rw [withDispatcher_subscribers, withSubscribers_subscribers] at hd'
    rw [withDispatcher_dispatcher, withSubscribers_dispatcher]
    by_cases heq : d' = d
    · rw [if_pos heq] at hd'
      obtain rfl := Option.some.inj hd'
      obtain ⟨hold, hne⟩ := List.mem_filter.mp hmem
      rw [if_neg (of_decide_eq_true hne), heq]
      exact h.back d subscribers hd c hold
    · rw [if_neg heq] at hd'
      have hback := h.back d' subscribers' hd' c hmem
      have hne : c ≠ callback := by
        rintro rfl
        rw [hc] at hback
        exact heq (Option.some.inj (Option.some.inj hback)).symm
      rw [if_neg hne, hback]
  · intro c d' hback
    rw [withDispatcher_dispatcher, withSubscribers_dispatcher] at hback
    rw [withDispatcher_subscribers, withSubscribers_subscribers]
    by_cases hne : c = callback
    · rw [if_pos hne] at hback
      cases hback
    · rw [if_neg hne] at hback
      obtain ⟨subscribers', hd', hmem⟩ := h.forth c d' hback
      by_cases heq : d' = d
      · rw [heq, hd] at hd'
        cases hd'
        exact ⟨_, if_pos heq, List.mem_filter.mpr ⟨hmem, decide_eq_true hne⟩⟩
      · exact ⟨subscribers', by rw [if_neg heq, hd'], hmem⟩

theorem deleteCallback_linked (h : Linked s) (hc : s.dispatcher callback ≠ none) :
    ∃ s', callBackDeath s callback = some s' ∧ Linked s' := by
  obtain ⟨dispatcher, hdispatcher⟩ := Option.ne_none_iff_exists'.mp hc
  cases dispatcher with
  | none =>
      refine ⟨s.withDispatcher callback none, by simp only [callBackDeath, hdispatcher]; rfl, ?_⟩
      refine withDispatcher_linked h (fun d => ?_) fun d => nofun
      rw [hdispatcher]
      nofun
  | some d =>
      obtain ⟨subscribers, hd, -⟩ := h.forth callback d hdispatcher
      refine ⟨_, ?_, unSubscribe_linked h hd hdispatcher⟩
      simp only [callBackDeath, hdispatcher, unSubscribe, hd, Option.bind_eq_bind, Option.bind_some, Option.pure_def]

omit [DecidableEq ι] in
/-- All live subscribers are reset. -/
theorem dispatcherDeath_eq {subscribers : List κ} (hlive : ∀ c ∈ subscribers, s.dispatcher c ≠ none) :
    dispatcherDeath subscribers s =
      some { s with dispatcher := fun c => if c ∈ subscribers then some none else s.dispatcher c } := by
  induction subscribers generalizing s with
  | nil => simp only [dispatcherDeath, List.not_mem_nil, if_false]
  | cons callback rest ih =>
      obtain ⟨dispatcher, hdispatcher⟩ := Option.ne_none_iff_exists'.mp (hlive callback List.mem_cons_self)
      simp only [dispatcherDeath, setDispatcher, hdispatcher, Option.bind_eq_bind, Option.bind_some, Option.pure_def]
      rw [ih]
      · refine congrArg some (congrArg (State.mk s.subscribers) (funext fun c => ?_))
        by_cases hc : c = callback <;> simp [hc]
      · intro c hmem
        by_cases hc : c = callback
        · simp [hc]
        · simpa [hc] using hlive c (List.mem_cons_of_mem _ hmem)

theorem deleteDispatcher_linked (h : Linked s) {subscribers : List κ} (hd : s.subscribers d = some subscribers) :
    Linked (State.withSubscribers
      { s with dispatcher := fun c => if c ∈ subscribers then some none else s.dispatcher c } d none) := by
  constructor
  · intro d' subscribers' hd' c hmem
    rw [withSubscribers_subscribers] at hd'
    rw [withSubscribers_dispatcher]
    split at hd'
    · cases hd'
    · next hne =>
      have hback := h.back d' subscribers' hd' c hmem
      have hnot : c ∉ subscribers := fun hmem' => by
        have hback' := h.back d subscribers hd c hmem'
        rw [hback] at hback'
        exact hne (Option.some.inj (Option.some.inj hback'))
      exact (if_neg hnot).trans hback
  · intro c d' hback
    rw [withSubscribers_dispatcher] at hback
    rw [withSubscribers_subscribers]
    by_cases hmem : c ∈ subscribers
    · cases (if_pos hmem).symm.trans hback
    · obtain ⟨subscribers', hd', hmem'⟩ := h.forth c d' ((if_neg hmem).symm.trans hback)
      have hne : d' ≠ d := by
        rintro rfl
        rw [hd] at hd'
        cases hd'
        exact hmem hmem'
      exact ⟨subscribers', by rw [if_neg hne]; exact hd', hmem'⟩

/-! ## Runs -/

/-- **A legal call follows no dangling pointer**, and the links agree afterwards if and only if the call is sound. -/
theorem exec_linked_iff (h : Linked s) (call : Call ι κ) (hlegal : Legal s call) :
    ∃ s', exec s call = some s' ∧ (Linked s' ↔ Sound s call) := by
  cases call with
  | newDispatcher d => exact ⟨_, rfl, iff_of_true (newDispatcher_linked h hlegal) trivial⟩
  | newCallback callback =>
      have hnew : ∀ d, s.dispatcher callback ≠ some (some d) := fun d => by
        rw [show s.dispatcher callback = none from hlegal]
        exact nofun
      refine ⟨_, rfl, iff_of_true (withDispatcher_linked h hnew fun d heq => ?_) trivial⟩
      cases Option.some.inj heq
  | subscribe d callback =>
      obtain ⟨subscribers, hd⟩ := Option.ne_none_iff_exists'.mp hlegal.1
      obtain ⟨dispatcher, hc⟩ := Option.ne_none_iff_exists'.mp hlegal.2
      exact ⟨_, subscribe_eq hd hc, subscribe_linked_iff h hd⟩
  | broadcast d =>
      obtain ⟨subscribers, hd⟩ := Option.ne_none_iff_exists'.mp hlegal
      have hall : (subscribers.all fun callback => (s.dispatcher callback).isSome) = true :=
        List.all_eq_true.mpr fun callback hmem => by rw [h.back d subscribers hd callback hmem]; rfl
      refine ⟨s, ?_, iff_of_true h trivial⟩
      simp only [exec, hd, Option.bind_eq_bind, Option.bind_some, if_pos hall]
  | deleteCallback callback =>
      obtain ⟨s', hexec, hlinked⟩ := deleteCallback_linked h hlegal
      exact ⟨s', hexec, iff_of_true hlinked trivial⟩
  | deleteDispatcher d =>
      obtain ⟨subscribers, hd⟩ := Option.ne_none_iff_exists'.mp hlegal
      have hlive : ∀ c ∈ subscribers, s.dispatcher c ≠ none := fun c hmem => by
        rw [h.back d subscribers hd c hmem]
        exact Option.some_ne_none _
      refine ⟨_, ?_, iff_of_true (deleteDispatcher_linked h hd) trivial⟩
      simp only [exec, hd, Option.bind_eq_bind, Option.bind_some, dispatcherDeath_eq hlive, Option.pure_def]

/-- **In a run where no callback is subscribed to a second dispatcher, the links agree.** A further legal call follows
    no dangling pointer and keeps the links if and only if it is not such a subscription. -/
theorem links_agree (h : (dispatchers ι κ).Reachable Sound s) :
    Linked s ∧ ∀ call, Legal s call → ∃ s', exec s call = some s' ∧ (Linked s' ↔ Sound s call) := by
  have hlinked : Linked s := by
    refine System.invariant ?_ ?_ h
    · rintro s rfl
      exact ⟨fun _ _ hd => (nomatch hd), fun _ _ hc => (nomatch hc)⟩
    · rintro s call s' hs hsound ⟨hlegal, hexec⟩
      obtain ⟨s'', hexec', hiff⟩ := exec_linked_iff hs call hlegal
      obtain rfl := Option.some.inj (hexec.symm.trans hexec')
      exact hiff.mpr hsound
  exact ⟨hlinked, exec_linked_iff hlinked⟩

theorem links_sample :
    ∃ s, (dispatchers Unit Unit).Reachable Sound s ∧ s.subscribers () = some [(), ()] ∧ Linked s := by
  have hdispatcher : (dispatchers Unit Unit).Reachable Sound _ :=
    .step (a := .newDispatcher ()) (.init rfl) trivial ⟨rfl, rfl⟩
  have hcallback : (dispatchers Unit Unit).Reachable Sound _ :=
    .step (a := .newCallback ()) hdispatcher trivial ⟨rfl, rfl⟩
  have honce : (dispatchers Unit Unit).Reachable Sound _ :=
    .step (a := .subscribe () ()) hcallback (fun _ _ => rfl) ⟨⟨nofun, nofun⟩, rfl⟩
  have htwice : (dispatchers Unit Unit).Reachable Sound _ :=
    .step (a := .subscribe () ()) honce (fun _ _ => rfl) ⟨⟨nofun, nofun⟩, rfl⟩
  exact ⟨_, htwice, rfl, (links_agree htwice).1⟩

/-- A callback with two dispatchers is deleted, and is left behind in the list of the first: the next broadcast follows
    a dangling pointer. -/
theorem left_behind :
    ∃ s, (dispatchers Bool Unit).Reachable System.Any s ∧ ¬ Linked s ∧ s.subscribers false = some [()] ∧
      s.dispatcher () = none ∧ exec s (.broadcast false) = none := by
  have hfirst : (dispatchers Bool Unit).Reachable System.Any _ :=
    .step (a := .newDispatcher false) (.init rfl) trivial ⟨rfl, rfl⟩
  have hsecond : (dispatchers Bool Unit).Reachable System.Any _ :=
    .step (a := .newDispatcher true) hfirst trivial ⟨rfl, rfl⟩
  have hcallback : (dispatchers Bool Unit).Reachable System.Any _ :=
    .step (a := .newCallback ()) hsecond trivial ⟨rfl, rfl⟩
  have honce : (dispatchers Bool Unit).Reachable System.Any _ :=
    .step (a := .subscribe false ()) hcallback trivial ⟨⟨nofun, nofun⟩, rfl⟩
  have htwice : (dispatchers Bool Unit).Reachable System.Any _ :=
    .step (a := .subscribe true ()) honce trivial ⟨⟨nofun, nofun⟩, rfl⟩
  have hdeleted : (dispatchers Bool Unit).Reachable System.Any _ :=
    .step (a := .deleteCallback ()) htwice trivial ⟨nofun, rfl⟩
  refine ⟨_, hdeleted, fun hlinked => ?_, rfl, rfl, rfl⟩
  cases hlinked.back false [()] rfl () List.mem_cons_self

end Workbench.Events.Dispatcher
