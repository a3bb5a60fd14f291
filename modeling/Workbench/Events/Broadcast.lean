import Mathlib.Data.List.Nodup
import Mathlib.Data.List.TakeWhile
import Workbench.Events.Dispatcher

/-!
# `Events.Broadcast` — callbacks that go away during a broadcast

A list node has an address of its own. The functions of the observers may take callbacks out of the list, or destroy
them. The loop of `Broadcast` keeps an iterator to a node meanwhile: where it reads a node that is not in the list any
more, there is no result.

## Contents
* `State`, `Action`, `broadcast` — the list with its nodes, and the loop;
* `callBackDeath_forget` — without the addresses, these are the operations of `Events.Dispatcher`;
* `turns` — who is to be notified;
* `broadcast_iff` — when the loop does so.
-/

namespace Workbench.Events.Broadcast

variable {ν κ : Type} [DecidableEq ν] [DecidableEq κ]

/-- The nodes of `m_subscribers`, and the live callbacks with whether they have an `m_dispatcher`. -/
structure State (ν κ : Type) where
  subscribers : List (ν × κ)
  dispatcher : κ → Option Bool
  distinct : (subscribers.map Prod.fst).Nodup
  linked : ∀ node ∈ subscribers, dispatcher node.2 = some true

def State.callbacks (s : State ν κ) : List κ := s.subscribers.map Prod.snd

/-- `m_subscribers.remove` takes out all nodes with the callback. -/
def State.unSubscribe (s : State ν κ) (callback : κ) : State ν κ where
  subscribers := s.subscribers.filter (·.2 ≠ callback)
  dispatcher := s.dispatcher
  distinct := s.distinct.sublist (List.filter_sublist.map Prod.fst)
  linked node hnode := s.linked node (List.mem_of_mem_filter hnode)

omit [DecidableEq ν] in
theorem callbacks_unSubscribe (s : State ν κ) (callback : κ) :
    (s.unSubscribe callback).callbacks = s.callbacks.filter (· ≠ callback) := by
  rw [State.callbacks, State.callbacks, List.filter_map]
  rfl

/-- A callback that is in no list is not live any more. -/
def State.without (s : State ν κ) (callback : κ) (h : callback ∉ s.callbacks) : State ν κ :=
  { s with
    dispatcher := Function.update s.dispatcher callback none
    linked := fun node hnode => by
      have hne : node.2 ≠ callback := fun heq => h (heq ▸ List.mem_map_of_mem hnode)
      rw [Function.update_of_ne hne]
      exact s.linked node hnode }

omit [DecidableEq ν] [DecidableEq κ] in
theorem State.dispatcher_of_mem (s : State ν κ) {callback : κ} (h : callback ∈ s.callbacks) :
    s.dispatcher callback = some true := by
  obtain ⟨node, hnode, rfl⟩ := List.mem_map.mp h
  exact s.linked node hnode

omit [DecidableEq ν] in
theorem not_mem_unSubscribe (s : State ν κ) (callback : κ) : callback ∉ (s.unSubscribe callback).callbacks := by
  rw [callbacks_unSubscribe]
  exact fun hmem => of_decide_eq_true (List.mem_filter.mp hmem).2 rfl

/-- The destructor of a callback. What is not live is not destroyed again. -/
def State.callBackDeath (s : State ν κ) (callback : κ) : State ν κ :=
  match h : s.dispatcher callback with
  | some true => (s.unSubscribe callback).without callback (not_mem_unSubscribe s callback)
  | some false => s.without callback fun hmem => by cases h.symm.trans (s.dispatcher_of_mem hmem)
  | none => s

/-- What a function of an observer may do with a callback. -/
inductive Action (κ : Type)
  | unSubscribe (callback : κ)
  | destroy (callback : κ)

def State.act (s : State ν κ) : Action κ → State ν κ
  | .unSubscribe callback => s.unSubscribe callback
  | .destroy callback => s.callBackDeath callback

def State.acts (s : State ν κ) (actions : List (Action κ)) : State ν κ := actions.foldl State.act s

/-- `++iter`, which reads the node. -/
def State.next (s : State ν κ) (iter : ν) : Option (Option ν) :=
  match s.subscribers.dropWhile (·.1 ≠ iter) with
  | [] => none
  | _ :: rest => some (rest.head?.map Prod.fst)

/-- What `Notify` of a callback does, after some others were notified. -/
abbrev Behaviour (κ : Type) := List κ → κ → List (Action κ)

/-- The loop of `Broadcast`. It also gives the callbacks that were notified. -/
def broadcastLoop (behaviour : Behaviour κ) : Nat → State ν κ → Option ν → List κ → Option (State ν κ × List κ)
  | 0, _, _, _ => none
  | _ + 1, s, none, notified => some (s, notified)
  | fuel + 1, s, some iter, notified => do
      let node ← s.subscribers.find? (·.1 = iter)
      let _ ← s.dispatcher node.2
      let s := s.acts (behaviour notified node.2)
      let notified := notified ++ [node.2]
      if s.subscribers.isEmpty then
        return (s, notified)
      let iter ← s.next iter
      broadcastLoop behaviour fuel s iter notified

def broadcast (behaviour : Behaviour κ) (fuel : Nat) (s : State ν κ) : Option (State ν κ × List κ) :=
  broadcastLoop behaviour fuel s (s.subscribers.head?.map Prod.fst) []

/-! ## Without the addresses -/

variable {s : State ν κ} {behaviour : Behaviour κ} {notified rest : List κ} {c : κ} {fuel : Nat}

/-- One dispatcher with its callbacks. -/
def State.forget (s : State ν κ) : Dispatcher.State Unit κ where
  subscribers _ := some s.callbacks
  dispatcher callback := (s.dispatcher callback).map fun attached => if attached then some () else none

omit [DecidableEq ν] in
theorem unSubscribe_forget (s : State ν κ) (callback : κ) :
    Dispatcher.unSubscribe s.forget () callback = some (s.unSubscribe callback).forget := by
  refine congrArg some (congrArg (Dispatcher.State.mk · _) (funext fun d => ?_))
  rw [Function.update_self]
  exact congrArg some (callbacks_unSubscribe s callback).symm

omit [DecidableEq ν] in
theorem without_forget (s : State ν κ) (callback : κ) (h : callback ∉ s.callbacks) :
    (s.without callback h).forget = s.forget.withDispatcher callback none := by
  refine congrArg (Dispatcher.State.mk _) (funext fun other => ?_)
  show Option.map _ (Function.update s.dispatcher callback none other) =
    Function.update s.forget.dispatcher callback none other
  rw [Function.update_apply, Function.update_apply]
  split
  · rfl
  · rfl

omit [DecidableEq ν] in
theorem callBackDeath_forget (s : State ν κ) (callback : κ) (h : s.dispatcher callback ≠ none) :
    Dispatcher.callBackDeath s.forget callback = some (s.callBackDeath callback).forget := by
  rw [State.callBackDeath]
  split
  · next hattached =>
    have hback : s.forget.dispatcher callback = some (some ()) := congrArg (Option.map _) hattached
    rw [without_forget]
    simp only [Dispatcher.callBackDeath, hback, unSubscribe_forget, Option.bind_eq_bind, Option.bind_some,
      Option.pure_def]
  · next hattached =>
    have hback : s.forget.dispatcher callback = some none := congrArg (Option.map _) hattached
    rw [Dispatcher.callBackDeath, hback, without_forget]
    rfl
  · next hdead => exact absurd hdead h

/-! ## Who is to be notified -/

/-- **Each callback of the list, once**, if it is still subscribed when its turn comes. -/
def turns (behaviour : Behaviour κ) : List κ → State ν κ → List κ → List κ
  | [], _, notified => notified
  | c :: rest, s, notified =>
      if c ∈ s.callbacks ∧ c ∉ notified then
        turns behaviour rest (s.acts (behaviour notified c)) (notified ++ [c])
      else
        turns behaviour rest s notified

/-- A callback whose turn comes had no turn before, and its function leaves it subscribed, or leaves nobody. -/
def Careful (behaviour : Behaviour κ) : List κ → State ν κ → List κ → Prop
  | [], _, _ => True
  | c :: rest, s, notified =>
      if c ∈ s.callbacks then
        c ∉ notified ∧ ((s.acts (behaviour notified c)).callbacks = [] ∨
          c ∈ (s.acts (behaviour notified c)).callbacks ∧
            Careful behaviour rest (s.acts (behaviour notified c)) (notified ++ [c]))
      else
        Careful behaviour rest s notified

/-! ## Actions -/

omit [DecidableEq ν] in
/-- An action takes callbacks out of the list. -/
theorem act_subscribers (s : State ν κ) (action : Action κ) :
    ∃ keep : κ → Bool, (s.act action).subscribers = s.subscribers.filter fun node => keep node.2 := by
  have hall : s.subscribers = s.subscribers.filter fun _ => true := (List.filter_eq_self.mpr fun _ _ => rfl).symm
  cases action with
  | unSubscribe callback => exact ⟨(· ≠ callback), rfl⟩
  | destroy callback =>
      show ∃ keep : κ → Bool, (s.callBackDeath callback).subscribers = _
      rw [State.callBackDeath]
      split
      · exact ⟨(· ≠ callback), rfl⟩
      · exact ⟨fun _ => true, hall⟩
      · exact ⟨fun _ => true, hall⟩

omit [DecidableEq ν] in
theorem acts_subscribers (s : State ν κ) (actions : List (Action κ)) :
    ∃ keep : κ → Bool, (s.acts actions).subscribers = s.subscribers.filter fun node => keep node.2 := by
  induction actions generalizing s with
  | nil => exact ⟨fun _ => true, (List.filter_eq_self.mpr fun _ _ => rfl).symm⟩
  | cons action actions ih =>
      obtain ⟨keep, hkeep⟩ := act_subscribers s action
      obtain ⟨keep', hkeep'⟩ := ih (s.act action)
      refine ⟨fun c => keep c && keep' c, ?_⟩
      show ((s.act action).acts actions).subscribers = _
      rw [hkeep', hkeep, List.filter_filter]
      exact List.filter_congr fun node _ => Bool.and_comm _ _

omit [DecidableEq ν] in
/-- What is left of the list are the nodes of the callbacks that are left. -/
theorem acts_eq_filter (s : State ν κ) (actions : List (Action κ)) :
    (s.acts actions).subscribers = s.subscribers.filter fun node => node.2 ∈ (s.acts actions).callbacks := by
  obtain ⟨keep, hkeep⟩ := acts_subscribers s actions
  refine hkeep.trans (List.filter_congr fun node hnode => ?_)
  refine (Bool.eq_iff_iff.mpr ⟨fun h => decide_eq_true ?_, fun h => ?_⟩)
  · exact List.mem_map.mpr ⟨node, hkeep ▸ List.mem_filter.mpr ⟨hnode, h⟩, rfl⟩
  · obtain ⟨other, hother, heq⟩ := List.mem_map.mp (of_decide_eq_true h)
    rw [hkeep] at hother
    exact heq ▸ (List.mem_filter.mp hother).2

omit [DecidableEq ν] in
theorem acts_subset (s : State ν κ) (actions : List (Action κ)) : (s.acts actions).callbacks ⊆ s.callbacks := by
  obtain ⟨keep, hkeep⟩ := acts_subscribers s actions
  rw [State.callbacks, hkeep]
  exact (List.filter_sublist.map Prod.snd).subset

/-! ## Turns -/

omit [DecidableEq ν] in
theorem turns_nodup (behaviour : Behaviour κ) (callbacks : List κ) (s : State ν κ) (h : notified.Nodup) :
    (turns behaviour callbacks s notified).Nodup := by
  induction callbacks generalizing s notified with
  | nil => exact h
  | cons c rest ih =>
      rw [turns]
      split
      · next hturn => exact ih _ (h.append (List.nodup_singleton c) (by simpa using hturn.2))
      · exact ih s h

omit [DecidableEq ν] in
theorem turns_of_empty (callbacks : List κ) (h : s.callbacks = []) :
    turns behaviour callbacks s notified = notified := by
  induction callbacks with
  | nil => rfl
  | cons c rest ih =>
      have hnot : ¬ (c ∈ s.callbacks ∧ c ∉ notified) := fun hturn => by
        rw [h] at hturn
        cases hturn.1
      rw [turns, if_neg hnot, ih]

/-- Who was notified stays so. -/
theorem broadcastLoop_prefix {iter : Option ν} {s' : State ν κ} {notified' : List κ}
    (h : broadcastLoop behaviour fuel s iter notified = some (s', notified')) : notified <+: notified' := by
  induction fuel generalizing s iter notified with
  | zero => cases h
  | succ fuel ih =>
      cases iter with
      | none =>
          obtain ⟨-, rfl⟩ := Prod.mk.inj (Option.some.inj h)
          exact List.prefix_rfl
      | some iter =>
          obtain ⟨node, -, h⟩ := Option.bind_eq_some_iff.mp h
          obtain ⟨-, -, h⟩ := Option.bind_eq_some_iff.mp h
          refine (List.prefix_append notified [node.2]).trans ?_
          dsimp only at h
          split at h
          · obtain ⟨-, rfl⟩ := Prod.mk.inj (Option.some.inj h)
            exact List.prefix_rfl
          · obtain ⟨iter', -, h⟩ := Option.bind_eq_some_iff.mp h
            exact ih h

/-! ## The loop -/

/-- The loop at a node of the list. -/
theorem broadcastLoop_node {node : ν × κ} {s' : State ν κ} (hnode : node ∈ s.subscribers)
    (hs' : s' = s.acts (behaviour notified node.2)) :
    broadcastLoop behaviour (fuel + 1) s (some node.1) notified =
      if s'.subscribers.isEmpty then some (s', notified ++ [node.2])
      else (s'.next node.1).bind fun iter => broadcastLoop behaviour fuel s' iter (notified ++ [node.2]) := by
  have hfind : s.subscribers.find? (·.1 = node.1) = some node := by
    cases hfound : s.subscribers.find? (·.1 = node.1) with
    | none => exact absurd rfl (of_decide_eq_false (Bool.eq_false_iff.mpr (List.find?_eq_none.mp hfound node hnode)))
    | some other =>
        have heq : other.1 = node.1 := by simpa using List.find?_some hfound
        exact congrArg some (List.inj_on_of_nodup_map s.distinct (List.mem_of_find?_eq_some hfound) hnode heq)
  subst hs'
  simp only [broadcastLoop, hfind, s.linked node hnode, Option.bind_eq_bind, Option.bind_some, Option.pure_def]

/-- The callback of the node is notified. -/
theorem broadcastLoop_notifies {node : ν × κ} {s' : State ν κ} {notified' : List κ} (hnode : node ∈ s.subscribers)
    (h : broadcastLoop behaviour fuel s (some node.1) notified = some (s', notified')) :
    notified ++ [node.2] <+: notified' := by
  cases fuel with
  | zero => cases h
  | succ fuel =>
      rw [broadcastLoop_node hnode rfl] at h
      split at h
      · obtain ⟨-, rfl⟩ := Prod.mk.inj (Option.some.inj h)
        exact List.prefix_rfl
      · obtain ⟨iter, -, h⟩ := Option.bind_eq_some_iff.mp h
        exact broadcastLoop_prefix h

omit [DecidableEq κ] in
/-- The node is in the list, and the next one is behind it. -/
theorem next_of_append {before after : List (ν × κ)} {node : ν × κ} (h : s.subscribers = before ++ node :: after) :
    s.next node.1 = some (after.head?.map Prod.fst) := by
  have hdistinct := s.distinct
  rw [h, List.map_append, List.map_cons, List.nodup_append] at hdistinct
  have hbefore : ∀ other ∈ before, decide (other.1 ≠ node.1) = true := fun other hother =>
    decide_eq_true (hdistinct.2.2 _ (List.mem_map_of_mem hother) _ List.mem_cons_self)
  rw [State.next, h, List.dropWhile_append_of_pos hbefore, List.dropWhile_cons_of_neg (by simp)]

omit [DecidableEq κ] in
/-- The node is not in the list any more. -/
theorem next_of_not_mem {node : ν × κ} (h : ∀ other ∈ s.subscribers, other.1 ≠ node.1) : s.next node.1 = none := by
  have hall : s.subscribers.dropWhile (·.1 ≠ node.1) = [] :=
    List.dropWhile_eq_nil_iff.mpr fun other hother => decide_eq_true (h other hother)
  rw [State.next, hall]

/-- Those of the nodes that are still in the list. -/
def State.still (s : State ν κ) (nodes : List (ν × κ)) : List (ν × κ) := nodes.filter fun node => node.2 ∈ s.callbacks

omit [DecidableEq ν] in
/-- What is left of a list with a node that is left. -/
theorem acts_still {before nodes : List (ν × κ)} {node : ν × κ} (hs : s.subscribers = before ++ node :: s.still nodes)
    (actions : List (Action κ)) (hnode : node.2 ∈ (s.acts actions).callbacks) :
    (s.acts actions).subscribers =
      ((s.acts actions).still before ++ [node]) ++ (s.acts actions).still nodes := by
  have hafter : (s.acts actions).still (s.still nodes) = (s.acts actions).still nodes := by
    rw [State.still, State.still, State.still, List.filter_filter]
    refine List.filter_congr fun other _ => ?_
    rw [Bool.and_eq_left_iff_imp]
    exact fun h => decide_eq_true (acts_subset s actions (of_decide_eq_true h))
  have hcons : (s.acts actions).still (node :: s.still nodes) = node :: (s.acts actions).still nodes := by
    rw [← hafter]
    exact List.filter_cons_of_pos (decide_eq_true hnode)
  have hall : (s.acts actions).subscribers = (s.acts actions).still s.subscribers := acts_eq_filter s actions
  rw [hall, hs, List.append_assoc, List.singleton_append, ← hcons]
  exact List.filter_append before (node :: s.still nodes)

/-- The function of a callback leaves it subscribed, and the loop goes on. -/
theorem broadcastLoop_goes_on {before nodes : List (ν × κ)} {node : ν × κ} {s' : State ν κ}
    (hs : s.subscribers = before ++ node :: s.still nodes) (hs' : s' = s.acts (behaviour notified node.2))
    (hself : node.2 ∈ s'.callbacks) :
    broadcastLoop behaviour (fuel + 1) s (some node.1) notified =
      broadcastLoop behaviour fuel s' ((s'.still nodes).head?.map Prod.fst) (notified ++ [node.2]) := by
  have hnode : node ∈ s.subscribers := hs ▸ List.mem_append_right _ List.mem_cons_self
  have hsome : s'.subscribers.isEmpty = false := by
    obtain ⟨other, hother, -⟩ := List.mem_map.mp hself
    exact List.isEmpty_eq_false_iff.mpr (List.ne_nil_of_mem hother)
  have hleft : s'.subscribers = s'.still before ++ node :: s'.still nodes := by
    subst hs'
    exact (acts_still hs _ hself).trans (List.append_assoc _ _ _)
  rw [broadcastLoop_node hnode hs', hsome, next_of_append hleft]
  rfl

/-- The function of a callback takes it out of the list, and leaves others: `++iter` reads a node that is gone. -/
theorem broadcastLoop_dangles {node : ν × κ} {s' : State ν κ} (hnode : node ∈ s.subscribers)
    (hs' : s' = s.acts (behaviour notified node.2)) (hothers : s'.callbacks ≠ []) (hself : node.2 ∉ s'.callbacks) :
    broadcastLoop behaviour fuel s (some node.1) notified = none := by
  have hgone : ∀ other ∈ s'.subscribers, other.1 ≠ node.1 := by
    intro other hother heq
    have hold : other ∈ s.subscribers := by
      rw [hs', acts_eq_filter] at hother
      exact List.mem_of_mem_filter hother
    obtain rfl := List.inj_on_of_nodup_map s.distinct hold hnode heq
    exact hself (List.mem_map_of_mem hother)
  have hsome : s'.subscribers.isEmpty = false :=
    List.isEmpty_eq_false_iff.mpr fun h => hothers (congrArg (List.map Prod.snd) h)
  cases fuel with
  | zero => rfl
  | succ fuel =>
      rw [broadcastLoop_node hnode hs', hsome, next_of_not_mem hgone]
      rfl

/-- The loop at the node of the next callback that is still subscribed. -/
theorem broadcastLoop_iff (nodes before : List (ν × κ)) (hs : s.subscribers = before ++ s.still nodes)
    (hnotified : notified.Nodup) :
    (∃ fuel s', broadcastLoop behaviour fuel s ((s.still nodes).head?.map Prod.fst) notified =
        some (s', turns behaviour (nodes.map Prod.snd) s notified)) ↔
      Careful behaviour (nodes.map Prod.snd) s notified := by
  induction nodes generalizing s before notified with
  | nil => exact iff_of_true ⟨1, s, rfl⟩ trivial
  | cons node nodes ih =>
      rw [List.map_cons, turns, Careful]
      by_cases hmem : node.2 ∈ s.callbacks
      · have hstill : s.still (node :: nodes) = node :: s.still nodes :=
          List.filter_cons_of_pos (decide_eq_true hmem)
        rw [hstill] at hs ⊢
        have hnode : node ∈ s.subscribers := hs ▸ List.mem_append_right _ List.mem_cons_self
        rw [if_pos hmem]
        show (∃ fuel s'', broadcastLoop behaviour fuel s (some node.1) notified = _) ↔ _
        by_cases hnew : node.2 ∉ notified
        · rw [if_pos ⟨hmem, hnew⟩, and_iff_right hnew]
          obtain ⟨s', hs'⟩ : ∃ s', s' = s.acts (behaviour notified node.2) := ⟨_, rfl⟩
          rw [← hs']
          by_cases hempty : s'.callbacks = []
          · have hsubscribers : s'.subscribers.isEmpty = true := List.isEmpty_iff.mpr (List.map_eq_nil_iff.mp hempty)
            refine iff_of_true ⟨1, s', ?_⟩ (.inl hempty)
            rw [broadcastLoop_node hnode hs', if_pos hsubscribers, turns_of_empty _ hempty]
          · by_cases hself : node.2 ∈ s'.callbacks
            · have honce : (notified ++ [node.2]).Nodup :=
                hnotified.append (List.nodup_singleton _) (by simpa using hnew)
              have hleft : s'.subscribers = (s'.still before ++ [node]) ++ s'.still nodes := by
                subst hs'
                exact acts_still hs _ hself
              rw [or_iff_right hempty, and_iff_right hself, ← ih _ hleft honce]
              constructor
              · rintro ⟨fuel, s'', hloop⟩
                cases fuel with
                | zero => cases hloop
                | succ fuel => exact ⟨fuel, s'', (broadcastLoop_goes_on hs hs' hself).symm.trans hloop⟩
              · rintro ⟨fuel, s'', hloop⟩
                exact ⟨fuel + 1, s'', (broadcastLoop_goes_on hs hs' hself).trans hloop⟩
            · refine iff_of_false ?_ fun h => h.elim hempty fun h => hself h.1
              rintro ⟨fuel, s'', hloop⟩
              rw [broadcastLoop_dangles hnode hs' hempty hself] at hloop
              cases hloop
        · -- a second subscription of the callback
          refine iff_of_false ?_ fun h => hnew h.1
          rintro ⟨fuel, s'', hloop⟩
          rw [if_neg fun h => hnew h.2] at hloop
          have honce : (notified ++ [node.2]).Nodup :=
            (turns_nodup behaviour _ _ hnotified).sublist (broadcastLoop_notifies hnode hloop).sublist
          exact (List.nodup_append.mp honce).2.2 _ (not_not.mp hnew) _ List.mem_cons_self rfl
      · have hstill : s.still (node :: nodes) = s.still nodes :=
          List.filter_cons_of_neg (by simpa using hmem)
        rw [hstill] at hs ⊢
        rw [if_neg hmem, if_neg fun h => hmem h.1]
        exact ih before hs hnotified

/-- **`Broadcast` ends**, reads only what is there, and notifies those that are to be notified. -/
def Notifies (behaviour : Behaviour κ) (s : State ν κ) : Prop :=
  ∃ fuel s', broadcast behaviour fuel s = some (s', turns behaviour s.callbacks s [])

/-- **It does so if and only if** each callback has one turn, and is still subscribed after it or leaves nobody. -/
theorem broadcast_iff (behaviour : Behaviour κ) (s : State ν κ) :
    Notifies behaviour s ↔ Careful behaviour s.callbacks s [] := by
  have hall : s.still s.subscribers = s.subscribers :=
    List.filter_eq_self.mpr fun node hnode => decide_eq_true (List.mem_map_of_mem hnode)
  have hloop := @broadcastLoop_iff ν κ _ _ s behaviour [] s.subscribers [] hall.symm List.nodup_nil
  rw [hall] at hloop
  exact hloop

/-- Two subscribers. -/
def pair : State Bool Bool where
  subscribers := [(false, false), (true, true)]
  dispatcher _ := some true
  distinct := by decide
  linked _ _ := rfl

/-- The first one takes itself out of the list. -/
theorem unSubscribe_dangles : ¬ Notifies (fun _ callback => if callback then [] else [.unSubscribe callback]) pair := by
  rintro ⟨fuel, s', hloop⟩
  cases fuel with
  | zero => cases hloop
  | succ fuel => cases hloop

end Workbench.Events.Broadcast
