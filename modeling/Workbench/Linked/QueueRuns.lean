import Mathlib.Logic.Function.Basic
import Workbench.Lib.Refines
import Workbench.Linked.Queue

/-!
# `Linked.QueueRuns` — any number of queues

The queues that were created have nothing in common, so a call changes its own queues only.

## Main results
* `queues_are_fifos` — each call answers as a queue does, and each list leads from its head to its dummy.
-/

namespace Workbench.SinglyLinked

variable {α : Type} {memory memory' : Memory α} {q queue dest src new p : Nat} {c c' cd cd' cs cs' : Chain α}
  {queues lists nodes : List Nat}

/-- The addresses are those that `malloc` returns. -/
inductive Call (α : Type)
  | create (newQueue newSlist newHead : Option Nat)
  | enqueue (queue : Nat) (data : Data α) (new : Option Nat)
  | dequeue (queue : Nat)
  | peek (queue : Nat)
  | size (queue : Nat)
  | isEmpty (queue : Nat)
  | append (dest src : Nat)

inductive Answer (α : Type)
  | queue (address : Option Nat)
  | status (n : Int)
  | done
  | data (data : Option (Data α))
  | size (n : Nat)
  | isEmpty (b : Bool)

def exec (memory : Memory α) : Call α → Option (Memory α × Answer α)
  | .create newQueue newSlist newHead =>
      let (memory, address) := qCreate memory newQueue newSlist newHead
      some (memory, .queue address)
  | .enqueue queue data new => do
      let (memory, n) ← qEnqueue memory queue data new
      return (memory, .status n)
  | .dequeue queue => do
      let memory ← qDequeue memory queue
      return (memory, .done)
  | .peek queue => do
      let data ← qPeek memory queue
      return (memory, .data (some data))
  | .size queue => do
      let n ← qSize memory queue
      return (memory, .size n)
  | .isEmpty queue => do
      let b ← queueIsEmpty memory queue
      return (memory, .isEmpty b)
  | .append dest src => do
      let memory ← qAppend memory dest src
      return (memory, .done)

/-- What the queues contain, from the oldest element on. -/
abbrev Contents (α : Type) := Nat → Option (List (Data α))

/-- What first in, first out means. An allocation that fails changes nothing. -/
def answer (contents : Contents α) : Call α → Contents α × Answer α
  | .create (some queue) (some _) (some _) => (Function.update contents queue (some []), .queue (some queue))
  | .create _ _ _ => (contents, .queue none)
  | .enqueue queue data (some _) =>
      (Function.update contents queue ((contents queue).map fun xs => xs ++ [data]), .status 0)
  | .enqueue _ _ none => (contents, .status 1)
  | .dequeue queue => (Function.update contents queue ((contents queue).map List.tail), .done)
  | .peek queue => (contents, .data ((contents queue).bind List.head?))
  | .size queue => (contents, .size ((contents queue).getD []).length)
  | .isEmpty queue => (contents, .isEmpty ((contents queue).getD []).isEmpty)
  | .append dest src =>
      (Function.update (Function.update contents dest
        (some ((contents dest).getD [] ++ (contents src).getD []))) src (some []), .done)

/-- `malloc` returns addresses that are free. The queues of a call exist, and are not empty where an element is taken
    from them. -/
def Allowed (memory : Memory α) (contents : Contents α) : Call α → Prop
  | .create newQueue newSlist newHead => (∀ address, newQueue = some address → derefQueue memory address = none) ∧
      (∀ address, newSlist = some address → derefList memory address = none) ∧
      ∀ address, newHead = some address → deref memory address = none
  | .enqueue queue _ new => (contents queue).isSome ∧ ∀ address, new = some address → deref memory address = none
  | .dequeue queue | .peek queue => ∃ xs, contents queue = some xs ∧ xs ≠ []
  | .size queue | .isEmpty queue => (contents queue).isSome
  | .append dest src => dest ≠ src ∧ (contents dest).isSome ∧ (contents src).isSome

/-- No queue was created. -/
def queueComponent (α : Type) : Component (Memory α) (Call α) (Answer α) where
  init memory := memory = ⟨[], [], []⟩
  exec := exec

def queueModel (α : Type) : Model (Contents α) (Call α) (Answer α) where
  init := fun _ => none
  answer := answer

/-! ## All queues -/

/-- **The queues are in memory**, and have nothing in common. -/
structure Holds (memory : Memory α) (layout : Nat → Option (Chain α)) : Prop where
  stored : ∀ q c, layout q = some c → Stored memory q c
  apart : ∀ q q' c c', layout q = some c → layout q' = some c' → q ≠ q' → Apart c c'

/-- The queues contain the data of their nodes. -/
def Contains (memory : Memory α) (contents : Contents α) : Prop :=
  ∃ layout, Holds memory layout ∧ ∀ q, contents q = (layout q).map fun c => c.elements.map Prod.snd

variable {layout : Nat → Option (Chain α)} {contents : Contents α}

/-- **Some queues change**, and have nothing in common with each other or with the others. -/
theorem Holds.change (h : Holds memory layout) {layout' : Nat → Option (Chain α)} (touched : List Nat)
    (hkept : ∀ q, q ∉ touched → layout' q = layout q)
    (htouched : ∀ q ∈ touched, ∀ c, layout' q = some c → Stored memory' q c)
    (hframe : ∀ q c, q ∉ touched → layout q = some c →
      Stored memory' q c ∧ ∀ q' ∈ touched, ∀ c', layout' q' = some c' → Apart c c')
    (hapart : ∀ q ∈ touched, ∀ q' ∈ touched, q ≠ q' →
      ∀ c c', layout' q = some c → layout' q' = some c' → Apart c c') : Holds memory' layout' := by
  constructor
  · intro q c hc
    by_cases hq : q ∈ touched
    · exact htouched q hq c hc
    · exact (hframe q c hq (hkept q hq ▸ hc)).1
  · intro q q' c c' hc hc' hne
    by_cases hq : q ∈ touched
    · by_cases hq' : q' ∈ touched
      · exact hapart q hq q' hq' hne c c' hc hc'
      · exact ((hframe q' c' hq' (hkept q' hq' ▸ hc')).2 q hq c hc).symm
    · by_cases hq' : q' ∈ touched
      · exact (hframe q c hq (hkept q hq ▸ hc)).2 q' hq' c' hc'
      · exact h.apart q q' c c' (hkept q hq ▸ hc) (hkept q' hq' ▸ hc') hne

/-- One queue changes. -/
theorem Holds.changeOne (h : Holds memory layout) (hstored : Stored memory' queue c')
    (hframe : ∀ q c, q ≠ queue → layout q = some c → Stored memory' q c ∧ Apart c c') :
    Holds memory' (Function.update layout queue (some c')) := by
  refine h.change [queue] (fun q hq => ?_) (fun q hq c hc => ?_) (fun q c hq hc => ?_) fun q hq q' hq' hne => ?_
  · exact Function.update_of_ne (List.ne_of_not_mem_cons hq) _ _
  · obtain rfl := List.mem_singleton.mp hq
    rw [Function.update_self] at hc
    exact Option.some.inj hc ▸ hstored
  · obtain ⟨hstored', hapart⟩ := hframe q c (List.ne_of_not_mem_cons hq) hc
    refine ⟨hstored', fun q' hq' c'' hc'' => ?_⟩
    rw [List.mem_singleton.mp hq', Function.update_self] at hc''
    exact Option.some.inj hc'' ▸ hapart
  · exact absurd ((List.mem_singleton.mp hq).trans (List.mem_singleton.mp hq').symm) hne

/-- **One queue changes**, and has no other nodes than before but new ones. -/
theorem Holds.update (h : Holds memory layout) (hqueue : layout queue = some c) (news : List Nat)
    (hnew : ∀ p ∈ news, deref memory p = none) (hchanges : Changes memory memory' [] [c.list] nodes)
    (hnodes : nodes ⊆ c.nodes ++ news) (hstored : Stored memory' queue c') (hlist : c'.list = c.list)
    (hnodes' : c'.nodes ⊆ c.nodes ++ news) : Holds memory' (Function.update layout queue (some c')) := by
  refine h.changeOne hstored fun q c'' hne hq => ?_
  obtain ⟨hlists, hdisjoint⟩ := h.apart q queue c'' c hq hqueue hne
  have hother : c''.nodes.Disjoint (c.nodes ++ news) := by
    intro p hp hp'
    rcases List.mem_append.mp hp' with hp' | hp'
    · exact hdisjoint hp hp'
    · exact (h.stored q c'' hq).ne_new (hnew p hp') hp rfl
  refine ⟨(h.stored q c'' hq).congr hchanges List.not_mem_nil ?_ fun p hp hp' => hother hp (hnodes hp'), ?_, ?_⟩
  · exact fun hmem => hlists (List.mem_singleton.mp hmem)
  · exact hlist ▸ hlists
  · exact fun p hp hp' => hother hp (hnodes' hp')

/-- **Two queues change**, and have no other nodes than the two had before. -/
theorem Holds.changeTwo (h : Holds memory layout) (hne : dest ≠ src) (hd : layout dest = some cd)
    (hs : layout src = some cs) (hchanges : Changes memory memory' [] [cd.list, cs.list] nodes)
    (hnodes : nodes ⊆ cd.nodes ++ cs.nodes) (hstoredd : Stored memory' dest cd') (hstoreds : Stored memory' src cs')
    (hlistd : cd'.list = cd.list) (hlists : cs'.list = cs.list) (hsubd : cd'.nodes ⊆ cd.nodes ++ cs.nodes)
    (hsubs : cs'.nodes ⊆ cd.nodes ++ cs.nodes) (hapart : Apart cd' cs') :
    Holds memory' (Function.update (Function.update layout dest (some cd')) src (some cs')) := by
  have hlayoutd : Function.update (Function.update layout dest (some cd')) src (some cs') dest = some cd' := by
    rw [Function.update_of_ne hne, Function.update_self]
  have hlayouts : Function.update (Function.update layout dest (some cd')) src (some cs') src = some cs' :=
    Function.update_self _ _ _
  refine h.change [dest, src] (fun q hq => ?_) (fun q hq c hc => ?_) (fun q c hq hc => ?_) ?_
  · simp only [List.mem_cons, List.not_mem_nil, or_false, not_or] at hq
    rw [Function.update_of_ne hq.2, Function.update_of_ne hq.1]
  · rcases List.mem_pair.mp hq with rfl | rfl
    · exact Option.some.inj (hlayoutd.symm.trans hc) ▸ hstoredd
    · exact Option.some.inj (hlayouts.symm.trans hc) ▸ hstoreds
  · -- another queue has none of the nodes of the two
    simp only [List.mem_cons, List.not_mem_nil, or_false, not_or] at hq
    have hapartd := h.apart q dest c cd hc hd hq.1
    have haparts := h.apart q src c cs hc hs hq.2
    have hother : c.nodes.Disjoint (cd.nodes ++ cs.nodes) := by
      intro p hp hp'
      rcases List.mem_append.mp hp' with hp' | hp'
      · exact hapartd.nodes hp hp'
      · exact haparts.nodes hp hp'
    refine ⟨(h.stored q c hc).congr hchanges List.not_mem_nil ?_ fun p hp hp' => hother hp (hnodes hp'), ?_⟩
    · intro hmem
      rcases List.mem_pair.mp hmem with heq | heq
      · exact hapartd.list heq
      · exact haparts.list heq
    · intro q' hq' c' hc'
      rcases List.mem_pair.mp hq' with rfl | rfl
      · obtain rfl := Option.some.inj (hlayoutd.symm.trans hc')
        exact ⟨hlistd ▸ hapartd.list, fun p hp hp' => hother hp (hsubd hp')⟩
      · obtain rfl := Option.some.inj (hlayouts.symm.trans hc')
        exact ⟨hlists ▸ haparts.list, fun p hp hp' => hother hp (hsubs hp')⟩
  · intro q hq q' hq' hqq' c c' hc hc'
    rcases List.mem_pair.mp hq with rfl | rfl <;> rcases List.mem_pair.mp hq' with rfl | rfl
    · exact absurd rfl hqq'
    · exact Option.some.inj (hlayoutd.symm.trans hc) ▸ Option.some.inj (hlayouts.symm.trans hc') ▸ hapart
    · exact Option.some.inj (hlayouts.symm.trans hc) ▸ Option.some.inj (hlayoutd.symm.trans hc') ▸ hapart.symm
    · exact absurd rfl hqq'

/-- The contents of one queue change. -/
theorem contents_update (h : ∀ q, contents q = (layout q).map fun c => c.elements.map Prod.snd) {xs : List (Data α)}
    (hxs : c'.elements.map Prod.snd = xs) (q' : Nat) :
    Function.update contents q (some xs) q' =
      (Function.update layout q (some c') q').map fun c => c.elements.map Prod.snd := by
  by_cases hne : q' = q
  · subst hne
    rw [Function.update_self, Function.update_self, Option.map_some, hxs]
  · rw [Function.update_of_ne hne, Function.update_of_ne hne, h]

/-- A queue that exists. -/
theorem layout_of_isSome (h : ∀ q, contents q = (layout q).map fun c => c.elements.map Prod.snd)
    (hq : (contents q).isSome) : ∃ c, layout q = some c ∧ contents q = some (c.elements.map Prod.snd) := by
  rw [h, Option.isSome_map] at hq
  obtain ⟨c, hc⟩ := Option.isSome_iff_exists.mp hq
  exact ⟨c, hc, by rw [h, hc, Option.map_some]⟩

/-! ## One call -/

theorem Contains.create (h : Contains memory contents) {list head : Nat} (hqueue : derefQueue memory queue = none)
    (hlist : derefList memory list = none) (hhead : deref memory head = none) :
    ∃ memory', qCreate memory (some queue) (some list) (some head) = (memory', some queue) ∧
      Contains memory' (Function.update contents queue (some [])) := by
  obtain ⟨layout, hholds, hcontents⟩ := h
  let c : Chain α := ⟨list, [], head⟩
  let memory' : Memory α :=
    ⟨Dict.put memory.queues queue list, Dict.put memory.lists list ⟨head, head⟩,
      Dict.put memory.nodes head ⟨.list list, none⟩⟩
  have hchanges : Changes memory memory' [queue] [list] [head] := by
    refine ⟨fun q hq => ?_, fun l hl => ?_, fun p hp => ?_⟩
    · exact (get?_put _ _ _ _).trans (if_neg (List.ne_of_not_mem_cons hq))
    · exact (get?_put _ _ _ _).trans (if_neg (List.ne_of_not_mem_cons hl))
    · exact (get?_put _ _ _ _).trans (if_neg (List.ne_of_not_mem_cons hp))
  have hstored : Stored memory' queue c := by
    refine ⟨?_, ?_, trivial, ?_, List.nodup_singleton head⟩
    · exact Dict.get?_put_self _ _ _
    · exact Dict.get?_put_self _ _ _
    · exact Dict.get?_put_self _ _ _
  -- the three addresses are not in use
  have hother : ∀ q c', layout q = some c' → q ≠ queue ∧ Apart c' c := by
    intro q c' hq
    have hstored' := hholds.stored q c' hq
    refine ⟨?_, ?_, fun p hp hp' => ?_⟩
    · rintro rfl
      rw [hstored'.queue] at hqueue
      cases hqueue
    · intro heq
      have hlist' := hstored'.list
      rw [heq, hlist] at hlist'
      cases hlist'
    · exact hstored'.ne_new hhead hp (List.mem_singleton.mp hp')
  refine ⟨memory', rfl, Function.update layout queue (some c), ?_, contents_update hcontents rfl⟩
  refine hholds.changeOne hstored fun q c' hne hq => ?_
  have hapart := (hother q c' hq).2
  refine ⟨(hholds.stored q c' hq).congr hchanges ?_ ?_ hapart.nodes, hapart⟩
  · exact fun hmem => hne (List.mem_singleton.mp hmem)
  · exact fun hmem => hapart.list (List.mem_singleton.mp hmem)

theorem Contains.enqueue (h : Contains memory contents) {xs : List (Data α)} (hqueue : contents queue = some xs)
    (hnew : deref memory new = none) (data : Data α) :
    ∃ memory', qEnqueue memory queue data (some new) = some (memory', 0) ∧
      Contains memory' (Function.update contents queue (some (xs ++ [data]))) := by
  obtain ⟨layout, hholds, hcontents⟩ := h
  obtain ⟨c, hc, hxs⟩ := layout_of_isSome hcontents (Option.isSome_iff_exists.mpr ⟨xs, hqueue⟩)
  obtain rfl := Option.some.inj (hqueue.symm.trans hxs)
  have hstored := hholds.stored queue c hc
  obtain ⟨memory', hinsert, hstored', hchanges⟩ := hstored.slistInsert hnew data
  have hdummy := c.dummy_mem
  have hne : ¬ c.dummy = new := hstored.ne_new hnew hdummy
  have hend := hstored'.ends.2
  refine ⟨memory', ?_, Function.update layout queue (some ⟨c.list, c.elements ++ [(c.dummy, data)], new⟩), ?_, ?_⟩
  · simp only [qEnqueue, hstored.queue, hstored.ends.2, hinsert, bind, Option.bind_some, hend, if_neg hne, pure]
  · refine hholds.update hc [new] ?_ hchanges ?_ hstored' rfl ?_
    · intro p hp
      rw [List.mem_singleton.mp hp, hnew]
    · refine List.cons_subset.mpr ⟨List.mem_append_left _ hdummy, List.cons_subset.mpr ⟨?_, List.nil_subset _⟩⟩
      exact List.mem_append_right _ (List.mem_singleton_self new)
    · have hnodes : (Chain.mk c.list (c.elements ++ [(c.dummy, data)]) new).nodes = c.nodes ++ [new] := by
        simp only [Chain.nodes, List.map_append, List.map_cons, List.map_nil]
      exact hnodes ▸ List.Subset.refl _
  · exact contents_update hcontents (by rw [List.map_append]; rfl)

/-- An allocation that fails. -/
theorem Contains.enqueue_none (h : Contains memory contents) {xs : List (Data α)} (hqueue : contents queue = some xs)
    (data : Data α) : qEnqueue memory queue data none = some (memory, 1) := by
  obtain ⟨layout, hholds, hcontents⟩ := h
  obtain ⟨c, hc, -⟩ := layout_of_isSome hcontents (Option.isSome_iff_exists.mpr ⟨xs, hqueue⟩)
  have hstored := hholds.stored queue c hc
  have hdummy : slistNext memory c.dummy = some none := by rw [slistNext, hstored.dummy, Option.map_some]
  have hlast : getEndByNext memory memory.nodes.length c.dummy = some c.dummy := by
    have hlength := hstored.wellFormed.length_lt
    cases hturns : memory.nodes.length with
    | zero => omega
    | succ turns => simp only [getEndByNext, hdummy, bind, Option.bind_some, pure]
  simp only [qEnqueue, hstored.queue, hstored.ends.2, SinglyLinked.slistInsert, hlast, bind, Option.bind_some, if_true,
    pure]

theorem Contains.dequeue (h : Contains memory contents) {x : Data α} {xs : List (Data α)}
    (hqueue : contents queue = some (x :: xs)) :
    ∃ memory', qDequeue memory queue = some memory' ∧
      Contains memory' (Function.update contents queue (some xs)) := by
  obtain ⟨layout, hholds, hcontents⟩ := h
  obtain ⟨c, hc, hxs⟩ := layout_of_isSome hcontents (Option.isSome_iff_exists.mpr ⟨_, hqueue⟩)
  have hmap : c.elements.map Prod.snd = x :: xs := Option.some.inj (hxs.symm.trans hqueue)
  obtain ⟨e, es, helements, -, hes⟩ := List.map_eq_cons_iff.mp hmap
  have hstored := hholds.stored queue c hc
  obtain ⟨memory', c', hremove, hstored', hlist, helements', hnodes, hchanges⟩ := hstored.slistRemove helements
  have hbegin := hstored.ends.1
  rw [helements, start_cons] at hbegin
  refine ⟨memory', ?_, Function.update layout queue (some c'), ?_, ?_⟩
  · simp only [qDequeue, hstored.queue, hbegin, hremove, bind, Option.bind_some, pure]
  · refine hholds.update hc [] (fun p hp => absurd hp List.not_mem_nil) hchanges ?_ hstored' hlist ?_
    · exact List.subset_append_left _ _
    · exact List.Subset.trans hnodes (List.subset_append_left _ _)
  · exact contents_update hcontents (helements'.trans hes)

theorem Contains.append (h : Contains memory contents) {xs ys : List (Data α)} (hne : dest ≠ src)
    (hdest : contents dest = some xs) (hsrc : contents src = some ys) :
    ∃ memory', qAppend memory dest src = some memory' ∧
      Contains memory' (Function.update (Function.update contents dest (some (xs ++ ys))) src (some [])) := by
  obtain ⟨layout, hholds, hcontents⟩ := h
  obtain ⟨cd, hcd, hxs⟩ := layout_of_isSome hcontents (Option.isSome_iff_exists.mpr ⟨xs, hdest⟩)
  obtain ⟨cs, hcs, hys⟩ := layout_of_isSome hcontents (Option.isSome_iff_exists.mpr ⟨ys, hsrc⟩)
  obtain rfl := Option.some.inj (hdest.symm.trans hxs)
  obtain rfl := Option.some.inj (hsrc.symm.trans hys)
  have hstoredd := hholds.stored dest cd hcd
  have hstoreds := hholds.stored src cs hcs
  have hapart := hholds.apart dest src cd cs hcd hcs hne
  cases helements : cs.elements with
  | nil =>
      -- nothing is to be appended
      refine ⟨memory, ?_, ?_⟩
      · simp only [qAppend, hstoredd.queue, hstoreds.queue, hstoreds.slistAppend_nil helements, bind, Option.bind_some]
      · have hsame : Function.update (Function.update contents dest (some (cd.elements.map Prod.snd ++ [])))
            src (some []) = contents := by
          rw [helements] at hsrc
          rw [List.append_nil, ← hdest, Function.update_eq_self]
          have hnil : some [] = contents src := hsrc.symm
          rw [hnil, Function.update_eq_self]
        have hcontains : Contains memory contents := ⟨layout, hholds, hcontents⟩
        rw [← hsame] at hcontains
        exact hcontains
  | cons e rest =>
      obtain ⟨memory', happend, hstoredd', hstoreds', hchanges⟩ := hstoredd.slistAppend hstoreds hapart helements
      have hnodes := Chain.nodes_of_cons helements
      have hnodes' := Chain.nodes_append cd cs e rest
      have hhead : e.1 ∈ cs.nodes := hnodes ▸ List.mem_cons_self
      have hsub : rest.map Prod.fst ++ [cs.dummy] ⊆ cs.nodes := hnodes ▸ List.subset_cons_self _ _
      refine ⟨memory', ?_, _, hholds.changeTwo hne hcd hcs hchanges ?_ hstoredd' hstoreds' rfl rfl ?_ ?_
        ⟨hapart.list, ?_⟩, contents_update (contents_update hcontents ?_) rfl⟩
      · simp only [qAppend, hstoredd.queue, hstoreds.queue, happend, bind, Option.bind_some]
      · intro p hp
        simp only [List.mem_cons, List.not_mem_nil, or_false] at hp
        rcases hp with rfl | rfl | rfl
        · exact List.mem_append_right _ cs.dummy_mem
        · exact List.mem_append_left _ cd.dummy_mem
        · exact List.mem_append_right _ hhead
      · rw [hnodes']
        exact List.append_subset.mpr
          ⟨List.subset_append_left _ _, List.Subset.trans hsub (List.subset_append_right _ _)⟩
      · exact List.cons_subset.mpr ⟨List.mem_append_right _ hhead, List.nil_subset _⟩
      · -- the head is now the dummy of the source
        intro p hp hp'
        obtain rfl := List.mem_singleton.mp hp'
        rw [hnodes'] at hp
        rcases List.mem_append.mp hp with hp | hp
        · exact hapart.nodes hp hhead
        · exact (List.nodup_cons.mp (hnodes ▸ hstoreds.nodup)).1 hp
      · simp

/-! ## Runs -/

/-- **One call** answers as the queues do. -/
theorem Contains.exec (h : Contains memory contents) {call : Call α} (hallowed : Allowed memory contents call) :
    ∃ memory', exec memory call = some (memory', (answer contents call).2) ∧
      Contains memory' (answer contents call).1 := by
  cases call with
  | create newQueue newSlist newHead =>
      obtain ⟨hqueue, hlist, hhead⟩ := hallowed
      cases newQueue with
      | none => exact ⟨memory, rfl, h⟩
      | some queue =>
          cases newSlist with
          | none => exact ⟨memory, rfl, h⟩
          | some list =>
              cases newHead with
              | none => exact ⟨memory, rfl, h⟩
              | some head =>
                  obtain ⟨memory', hcreate, hcontains⟩ := h.create (hqueue _ rfl) (hlist _ rfl) (hhead _ rfl)
                  refine ⟨memory', ?_, hcontains⟩
                  simp only [SinglyLinked.exec, hcreate, answer]
  | enqueue queue data new =>
      obtain ⟨hsome, hnew⟩ := hallowed
      obtain ⟨xs, hxs⟩ := Option.isSome_iff_exists.mp hsome
      cases new with
      | none =>
          refine ⟨memory, ?_, h⟩
          simp only [SinglyLinked.exec, h.enqueue_none hxs, bind, Option.bind_some, pure, answer]
      | some new =>
          obtain ⟨memory', henqueue, hcontains⟩ := h.enqueue hxs (hnew new rfl) data
          refine ⟨memory', ?_, ?_⟩
          · simp only [SinglyLinked.exec, henqueue, bind, Option.bind_some, pure, answer]
          · simpa only [answer, hxs, Option.map_some] using hcontains
  | dequeue queue =>
      obtain ⟨xs, hxs, hne⟩ := hallowed
      obtain ⟨x, xs, rfl⟩ := List.exists_cons_of_ne_nil hne
      obtain ⟨memory', hdequeue, hcontains⟩ := h.dequeue hxs
      refine ⟨memory', ?_, ?_⟩
      · simp only [SinglyLinked.exec, hdequeue, bind, Option.bind_some, pure, answer]
      · simpa only [answer, hxs, Option.map_some, List.tail_cons] using hcontains
  | peek queue =>
      obtain ⟨xs, hxs, hne⟩ := hallowed
      obtain ⟨x, xs, rfl⟩ := List.exists_cons_of_ne_nil hne
      obtain ⟨layout, hholds, hcontents⟩ := id h
      obtain ⟨c, hc, hmap⟩ := layout_of_isSome hcontents (Option.isSome_iff_exists.mpr ⟨_, hxs⟩)
      have hpeek := (hholds.stored queue c hc).peek
      rw [← Option.some.inj (hxs.symm.trans hmap), List.head?_cons, Option.getD_some] at hpeek
      refine ⟨memory, ?_, h⟩
      simp only [SinglyLinked.exec, hpeek, bind, Option.bind_some, pure, answer, hxs, List.head?_cons]
  | size queue =>
      obtain ⟨layout, hholds, hcontents⟩ := id h
      obtain ⟨c, hc, hmap⟩ := layout_of_isSome hcontents hallowed
      have hstored := hholds.stored queue c hc
      refine ⟨memory, ?_, h⟩
      simp only [SinglyLinked.exec, qSize, hstored.queue, hstored.slistCount, bind, Option.bind_some, pure, answer,
        hmap, Option.getD_some, List.length_map]
  | isEmpty queue =>
      obtain ⟨layout, hholds, hcontents⟩ := id h
      obtain ⟨c, hc, hmap⟩ := layout_of_isSome hcontents hallowed
      have hstored := hholds.stored queue c hc
      refine ⟨memory, ?_, h⟩
      simp only [SinglyLinked.exec, queueIsEmpty, hstored.queue, hstored.slistCount, bind, Option.bind_some, pure,
        answer, hmap, Option.getD_some]
      cases c.elements with
      | nil => rfl
      | cons e es => rfl
  | append dest src =>
      obtain ⟨hne, hdest, hsrc⟩ := hallowed
      obtain ⟨xs, hxs⟩ := Option.isSome_iff_exists.mp hdest
      obtain ⟨ys, hys⟩ := Option.isSome_iff_exists.mp hsrc
      obtain ⟨memory', happend, hcontains⟩ := h.append hne hxs hys
      refine ⟨memory', ?_, ?_⟩
      · simp only [SinglyLinked.exec, happend, bind, Option.bind_some, pure, answer]
      · simpa only [answer, hxs, hys, Option.getD_some] using hcontains

/-- The queues, and the model of them. -/
abbrev queuesWithModel (α : Type) : System (Memory α × Contents α) (Call α) :=
  sideBySide (queueComponent α) (queueModel α) Allowed

/-- **First in, first out**: after any calls,

    * each call has the answer of the queues;
    * the head of each list leads to its tail, which is a dummy with its own list for data;
    * what is peeked at in an empty queue is its list. -/
theorem queues_are_fifos {s : Memory α × Contents α} (h : (queuesWithModel α).Reachable System.Any s) :
    (∀ call, Allowed s.1 s.2 call → ∃ memory', exec s.1 call = some (memory', (answer s.2 call).2)) ∧
    ∀ queue xs, s.2 queue = some xs → ∃ list head tail, derefQueue s.1 queue = some list ∧
      derefList s.1 list = some ⟨head, tail⟩ ∧ Relation.ReflTransGen (LeadsTo s.1) head tail ∧
      deref s.1 tail = some ⟨.list list, none⟩ ∧ (xs = [] → head = tail ∧ qPeek s.1 queue = some (.list list)) := by
  have hcontains : Contains s.1 s.2 := by
    refine keeps_of_simulation (C := queueComponent α) (M := queueModel α) (R := Contains) ?_
      (fun memory contents call h hallowed => h.exec hallowed) h
    rintro memory rfl
    refine ⟨fun _ => none, ⟨fun q c hq => ?_, fun q q' c c' hq => ?_⟩, fun q => rfl⟩
    · cases hq
    · cases hq
  refine ⟨fun call hallowed => ?_, fun queue xs hxs => ?_⟩
  · obtain ⟨memory', hexec, -⟩ := hcontains.exec hallowed
    exact ⟨memory', hexec⟩
  · obtain ⟨layout, hholds, hcontents⟩ := hcontains
    obtain ⟨c, hc, hmap⟩ := layout_of_isSome hcontents (Option.isSome_iff_exists.mpr ⟨xs, hxs⟩)
    have hstored := hholds.stored queue c hc
    refine ⟨c.list, start c.elements c.dummy, c.dummy, hstored.queue, hstored.list,
      Segment.leadsTo hstored.segment, hstored.dummy, fun hnil => ?_⟩
    have hempty : c.elements.map Prod.snd = [] := (Option.some.inj (hxs.symm.trans hmap)).symm.trans hnil
    have hpeek := hstored.peek
    rw [hempty] at hpeek
    rw [List.map_eq_nil_iff.mp hempty]
    exact ⟨rfl, hpeek⟩

/-- A queue is created, and an element is put into it. -/
theorem queues_sample : ∃ memory : Memory Nat, derefQueue memory 10 = some 1 ∧
    (∃ memory', exec memory (.peek 10) = some (memory', .data (some (.user 7)))) ∧
    ∃ list head tail, derefQueue memory 10 = some list ∧ derefList memory list = some ⟨head, tail⟩ ∧
      Relation.ReflTransGen (LeadsTo memory) head tail := by
  let contents : Contents Nat := fun _ => none
  let memory₁ : Memory Nat := ⟨[(10, 1)], [(1, ⟨2, 2⟩)], [(2, ⟨.list 1, none⟩)]⟩
  let memory₂ : Memory Nat := ⟨[(10, 1)], [(1, ⟨2, 3⟩)], [(2, ⟨.user 7, some 3⟩), (3, ⟨.list 1, none⟩)]⟩
  have hexec₁ : exec ⟨[], [], []⟩ (.create (some 10) (some 1) (some 2)) = some (memory₁, .queue (some 10)) := rfl
  have hexec₂ : exec memory₁ (.enqueue 10 (.user 7) (some 3)) = some (memory₂, .status 0) := rfl
  have hcreated : Function.update contents 10 (some []) 10 = some [] := Function.update_self _ _ _
  have h₀ : (queuesWithModel Nat).Reachable System.Any (⟨[], [], []⟩, contents) := .init ⟨rfl, rfl⟩
  have h₁ : (queuesWithModel Nat).Reachable System.Any (memory₁, Function.update contents 10 (some [])) :=
    h₀.step (a := Call.create (some 10) (some 1) (some 2)) trivial
      ⟨⟨fun _ _ => rfl, fun _ _ => rfl, fun _ _ => rfl⟩, ⟨_, hexec₁⟩, rfl⟩
  have h₂ : (queuesWithModel Nat).Reachable System.Any
      (memory₂, (answer (Function.update contents 10 (some [])) (.enqueue 10 (.user 7) (some 3))).1) := by
    refine h₁.step (a := Call.enqueue 10 (.user 7) (some 3)) trivial
      ⟨⟨Option.isSome_iff_exists.mpr ⟨_, hcreated⟩, fun address haddress => ?_⟩, ⟨_, hexec₂⟩, rfl⟩
    rw [← Option.some.inj haddress]
    rfl
  obtain ⟨hanswers, hlists⟩ := queues_are_fifos h₂
  have hcontents : (answer (Function.update contents 10 (some [])) (.enqueue 10 (.user 7) (some 3))).1 10 =
      some [.user 7] := by
    simp only [answer, Function.update_self, Option.map_some, List.nil_append]
  obtain ⟨memory', hpeek⟩ := hanswers (.peek 10) ⟨_, hcontents, List.cons_ne_nil _ _⟩
  obtain ⟨list, head, tail, hqueue, hlist, hreaches, -⟩ := hlists 10 _ hcontents
  refine ⟨memory₂, rfl, ⟨memory', ?_⟩, list, head, tail, hqueue, hlist, hreaches⟩
  rw [hpeek]
  simp only [answer, Option.bind_some, List.head?_cons, Function.update_self, Option.map_some,
    List.nil_append]

end Workbench.SinglyLinked
