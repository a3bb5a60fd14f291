import Workbench.Linked.SlistForEach

/-!
# `Linked.Queue` — queues in one memory

A queue is a list that grows in front of its dummy and shrinks at its head. Each function changes the lists and the
nodes of its queues, and no others.

## Main results
* `Stored` — the nodes of a queue, up to its dummy, which has the list;
* `Stored.slistInsert`, `Stored.slistRemove`, `Stored.slistAppend` — what the functions change;
* `Stored.slistCount` — the walk from the head to the dummy.
-/

namespace Workbench.SinglyLinked

variable {α : Type}

/-! ## The functions -/

/-- `*queue`: its list. -/
def derefQueue (memory : Memory α) (queue : Nat) : Option Nat := Dict.get? memory.queues queue

/-- The three addresses are what `malloc` returns. -/
def qCreate (memory : Memory α) (newQueue newSlist newHead : Option Nat) : Memory α × Option Nat :=
  match newQueue with
  | none => (memory, none)
  | some queue =>
      match slistCreate memory newSlist newHead with
      | (memory, none) => (memory, none)
      | (memory, some list) => ({ memory with queues := Dict.put memory.queues queue list }, some queue)

def qSize (memory : Memory α) (queue : Nat) : Option Nat := do
  let list ← derefQueue memory queue
  slistCount memory list

def queueIsEmpty (memory : Memory α) (queue : Nat) : Option Bool := do
  let list ← derefQueue memory queue
  let count ← slistCount memory list
  return 0 = count

/-- 1 is a failure: the tail is where it was. -/
def qEnqueue (memory : Memory α) (queue : Nat) (data : Data α) (new : Option Nat) : Option (Memory α × Int) := do
  let list ← derefQueue memory queue
  let tailBeforeInsert ← slistEnd memory list
  let (memory, _) ← slistInsert memory tailBeforeInsert data new
  let tail ← slistEnd memory list
  return (memory, if tailBeforeInsert = tail then 1 else 0)

def qDequeue (memory : Memory α) (queue : Nat) : Option (Memory α) := do
  let list ← derefQueue memory queue
  let first ← slistBegin memory list
  let (memory, _) ← slistRemove memory first
  return memory

def qPeek (memory : Memory α) (queue : Nat) : Option (Data α) := do
  let list ← derefQueue memory queue
  let first ← slistBegin memory list
  slistGetData memory first

def qAppend (memory : Memory α) (dest src : Nat) : Option (Memory α) := do
  let destList ← derefQueue memory dest
  let srcList ← derefQueue memory src
  slistAppend memory destList srcList

/-! ## The nodes of a queue -/

/-- **The queue is in memory**: its head leads to its dummy, which has the list. -/
structure Stored (memory : Memory α) (queue : Nat) (c : Chain α) : Prop where
  queue : derefQueue memory queue = some c.list
  list : derefList memory c.list = some ⟨start c.elements c.dummy, c.dummy⟩
  segment : Segment (Points memory) c.elements c.dummy
  dummy : deref memory c.dummy = some ⟨.list c.list, none⟩
  nodup : c.nodes.Nodup

/-- The memories differ at some queues, lists and nodes only. -/
structure Changes (memory memory' : Memory α) (queues lists nodes : List Nat) : Prop where
  queues : ∀ q, q ∉ queues → derefQueue memory' q = derefQueue memory q
  lists : ∀ l, l ∉ lists → derefList memory' l = derefList memory l
  nodes : ∀ p, p ∉ nodes → deref memory' p = deref memory p

variable {memory memory' : Memory α} {p q queue dest src new list dummy : Nat} {c c' cd cs : Chain α}
  {queues lists nodes : List Nat} {data : Data α} {e : Nat × Data α} {es rest : List (Nat × Data α)}

/-- A queue is a list in memory that a queue has. -/
theorem Stored.wellFormed (h : Stored memory queue c) : WellFormed memory c := ⟨h.list, h.segment, h.dummy, h.nodup⟩

theorem WellFormed.stored (h : WellFormed memory c) (hqueue : derefQueue memory queue = some c.list) :
    Stored memory queue c :=
  ⟨hqueue, h.list, h.segment, h.dummy, h.nodup⟩

theorem Keeps.derefQueue_eq (h : Keeps memory memory' lists nodes) : derefQueue memory' q = derefQueue memory q := by
  rw [derefQueue, derefQueue, h.queues]

/-- **What is not changed** stays in memory. -/
theorem Stored.congr (h : Stored memory queue c) (hchanges : Changes memory memory' queues lists nodes)
    (hqueue : queue ∉ queues) (hlist : c.list ∉ lists) (hnodes : c.nodes.Disjoint nodes) : Stored memory' queue c := by
  have hlist' := hchanges.lists c.list hlist
  have hnodes' : ∀ p ∈ c.nodes, deref memory' p = deref memory p := fun p hp => hchanges.nodes p (hnodes hp)
  exact (h.wellFormed.congr hlist' hnodes').stored ((hchanges.queues queue hqueue).trans h.queue)

/-- What a function of lists changes, as a change of queues. -/
theorem Keeps.changes {lists' nodes' : List Nat} (h : Keeps memory memory' lists nodes) (hlists : lists ⊆ lists')
    (hnodes : nodes ⊆ nodes') : Changes memory memory' [] lists' nodes' where
  queues := fun _ _ => h.derefQueue_eq
  lists := fun l hl => h.lists l fun hmem => hl (hlists hmem)
  nodes := fun p hp => h.nodes p fun hmem => hp (hnodes hmem)

theorem Stored.deref_isSome (h : Stored memory queue c) (hp : p ∈ c.nodes) : ∃ node, deref memory p = some node :=
  h.wellFormed.deref_isSome hp

theorem Stored.ne_new (h : Stored memory queue c) (hnew : deref memory new = none) (hp : p ∈ c.nodes) : p ≠ new :=
  h.wellFormed.ne_new hnew hp

theorem Stored.ends (h : Stored memory queue c) :
    slistBegin memory c.list = some (start c.elements c.dummy) ∧ slistEnd memory c.list = some c.dummy :=
  h.wellFormed.ends

theorem Stored.element_ne_dummy (h : Stored memory queue c) (he : e ∈ c.elements) : e.1 ≠ c.dummy :=
  h.wellFormed.element_ne_dummy he

/-- **An insertion at the end** writes the data to the dummy, and the new node is the next dummy. -/
theorem Stored.slistInsert (h : Stored memory queue c) (hnew : deref memory new = none) (data : Data α) :
    ∃ memory', slistInsert memory c.dummy data (some new) = some (memory', c.dummy) ∧
      Stored memory' queue ⟨c.list, c.elements ++ [(c.dummy, data)], new⟩ ∧
      Changes memory memory' [] [c.list] [c.dummy, new] := by
  obtain ⟨memory', hinsert, hwell, hkeeps⟩ := h.wellFormed.insertEnd hnew data
  refine ⟨memory', hinsert, hwell.stored (hkeeps.derefQueue_eq.trans h.queue), ?_⟩
  exact hkeeps.changes (List.Subset.refl _) (List.Subset.refl _)

/-- **A removal at the head** moves the next element, or the dummy, to the head. -/
theorem Stored.slistRemove (h : Stored memory queue c) (helements : c.elements = e :: es) :
    ∃ memory' c', slistRemove memory e.1 = some (memory', some e.1) ∧ Stored memory' queue c' ∧ c'.list = c.list ∧
      c'.elements.map Prod.snd = es.map Prod.snd ∧ c'.nodes ⊆ c.nodes ∧ Changes memory memory' [] [c.list] c.nodes := by
  obtain ⟨list, elements, dummy⟩ := c
  obtain rfl := helements
  cases es with
  | nil =>
      -- the only element is the last one
      have hlist : WellFormed memory ⟨list, [] ++ [e], dummy⟩ := h.wellFormed
      obtain ⟨memory', hremove, hwell, hkeeps⟩ := hlist.removeLast
      have hqueue : derefQueue memory' queue = some list := hkeeps.derefQueue_eq.trans h.queue
      refine ⟨memory', _, hremove, hwell.stored hqueue, rfl, rfl, ?_, ?_⟩
      · exact List.cons_subset.mpr ⟨List.mem_cons_self, List.nil_subset _⟩
      · exact hkeeps.changes (List.Subset.refl _) (List.Subset.refl _)
  | cons e' es =>
      have hlist : WellFormed memory ⟨list, [] ++ e :: e' :: es, dummy⟩ := h.wellFormed
      obtain ⟨memory', hremove, hwell, hkeeps⟩ := hlist.removeNext
      have hqueue : derefQueue memory' queue = some list := hkeeps.derefQueue_eq.trans h.queue
      refine ⟨memory', _, hremove, hwell.stored hqueue, rfl, rfl, ?_, ?_⟩
      · exact List.cons_subset_cons _ (List.subset_cons_self _ _)
      · exact hkeeps.changes (List.nil_subset _) (List.subset_append_left [e.1, e'.1] _)

/-! ## The walk -/

theorem forEach_countNode (d : Data α) (n count : Nat) :
    (forEach countNode (List.replicate n d) count).2 = count + n := by
  induction n generalizing count with
  | zero => rfl
  | succ n ih =>
      rw [List.replicate_succ, forEach]
      simp only [countNode, if_true]
      rw [ih]
      omega

/-- **The count** is the number of elements. -/
theorem Stored.slistCount (h : Stored memory queue c) : slistCount memory c.list = some c.elements.length := by
  obtain ⟨hbegin, hend⟩ := h.ends
  obtain ⟨d, hfrom⟩ : ∃ d, slistGetData memory (start c.elements c.dummy) = some d := by
    obtain ⟨node, hnode⟩ := h.deref_isSome c.start_mem
    exact ⟨node.data, by rw [slistGetData, hnode, Option.map_some]⟩
  have hchain : WellFormed memory ⟨c.list, [] ++ (c.elements ++ []), c.dummy⟩ := by
    rw [List.append_nil]
    exact h.wellFormed
  have hloop := hchain.forEachLoop hfrom countNode h.wellFormed.length_lt 0
  rw [List.append_nil, start_nil, forEach_countNode, Nat.zero_add] at hloop
  simp only [SinglyLinked.slistCount, hbegin, hend, bind, Option.bind_some, slistForEach]
  exact hloop

/-- **The head** has the first element, or the list itself. -/
theorem Stored.peek (h : Stored memory queue c) :
    qPeek memory queue = some ((c.elements.map Prod.snd).head?.getD (.list c.list)) := by
  simp only [qPeek, h.queue, h.ends.1, bind, Option.bind_some, slistGetData]
  have hsegment := h.segment
  cases helements : c.elements with
  | nil =>
      rw [start_nil, h.dummy]
      rfl
  | cons e es =>
      rw [helements] at hsegment
      have he : deref memory e.1 = _ := hsegment.1
      rw [start_cons, he]
      rfl

/-! ## Two queues -/

/-- Two queues have nothing in common. -/
structure Apart (c c' : Chain α) : Prop where
  list : c.list ≠ c'.list
  nodes : c.nodes.Disjoint c'.nodes

theorem Apart.symm (h : Apart c c') : Apart c' c := ⟨h.list.symm, fun _ hp hp' => h.nodes hp' hp⟩

theorem Stored.slistAppend_nil (h : Stored memory src cs) (helements : cs.elements = []) :
    slistAppend memory dest cs.list = some memory := by
  have hbegin := h.ends.1
  rw [helements, start_nil] at hbegin
  simp only [slistAppend, hbegin, slistNext, h.dummy, bind, Option.bind_some, Option.map_some, pure]

theorem Apart.ne (h : Apart c c') (hp : p ∈ c.nodes) (hq : q ∈ c'.nodes) : p ≠ q := by
  rintro rfl
  exact h.nodes hp hq

/-- The nodes of the source, from its head on. -/
theorem Chain.nodes_of_cons (helements : c.elements = e :: rest) :
    c.nodes = e.1 :: (rest.map Prod.fst ++ [c.dummy]) := by
  rw [Chain.nodes, helements]
  rfl

/-- The nodes of the destination after an append. -/
theorem Chain.nodes_append (cd cs : Chain α) (e : Nat × Data α) (rest : List (Nat × Data α)) :
    (Chain.mk cd.list (cd.elements ++ (cd.dummy, e.2) :: rest) cs.dummy).nodes =
      cd.nodes ++ (rest.map Prod.fst ++ [cs.dummy]) := by
  simp [Chain.nodes]

/-- The writes of an append, in order: to the dummy of the source, to the dummy and the list of the destination, and to
    the head and the list of the source. -/
def Memory.appended (memory : Memory α) (cd cs : Chain α) (e : Nat × Data α) (rest : List (Nat × Data α)) : Memory α :=
  ((((((memory.putNode cs.dummy ⟨.list cd.list, none⟩).putNode cd.dummy ⟨e.2, none⟩).putNode
    cd.dummy ⟨e.2, some (start rest cs.dummy)⟩).putList cd.list ⟨start cd.elements cd.dummy, cs.dummy⟩).putNode
    e.1 ⟨.list cs.list, some (start rest cs.dummy)⟩).putNode e.1 ⟨.list cs.list, none⟩).putList cs.list ⟨e.1, e.1⟩

theorem deref_appended (p : Nat) : deref (memory.appended cd cs e rest) p =
    if p = e.1 then some ⟨.list cs.list, none⟩ else
      if p = cd.dummy then some ⟨e.2, some (start rest cs.dummy)⟩ else
        if p = cs.dummy then some ⟨.list cd.list, none⟩ else deref memory p := by
  rw [Memory.appended, deref_putList, deref_putNode, deref_putNode, deref_putList, deref_putNode, deref_putNode,
    deref_putNode]
  split
  · rfl
  · split <;> rfl

theorem derefList_appended (l : Nat) : derefList (memory.appended cd cs e rest) l =
    if l = cs.list then some ⟨e.1, e.1⟩ else
      if l = cd.list then some ⟨start cd.elements cd.dummy, cs.dummy⟩ else derefList memory l := by
  rw [Memory.appended, derefList_putList, derefList_putNode, derefList_putNode, derefList_putList]
  rfl

/-- The nodes that an append does not write to. -/
theorem deref_appended_of_ne (h₁ : p ≠ e.1) (h₂ : p ≠ cd.dummy) (h₃ : p ≠ cs.dummy) :
    deref (memory.appended cd cs e rest) p = deref memory p := by
  rw [deref_appended, if_neg h₁, if_neg h₂, if_neg h₃]

/-- **The run of an append.** -/
theorem Stored.slistAppend_eq (hd : Stored memory dest cd) (hs : Stored memory src cs) (hapart : Apart cd cs)
    (helements : cs.elements = e :: rest) :
    slistAppend memory cd.list cs.list = some (memory.appended cd cs e rest) := by
  have hmem : e ∈ cs.elements := helements ▸ List.mem_cons_self
  have hne₁ : e.1 ≠ cs.dummy := hs.element_ne_dummy hmem
  have hne₂ : cd.dummy ≠ e.1 := hapart.ne cd.dummy_mem (Chain.element_mem hmem)
  have hne₃ : cd.dummy ≠ cs.dummy := hapart.ne cd.dummy_mem cs.dummy_mem
  have hsegment := hs.segment
  rw [helements] at hsegment
  have hnode : deref memory e.1 = some ⟨e.2, some (start rest cs.dummy)⟩ := hsegment.1
  have hlist : derefList memory cs.list = some ⟨e.1, cs.dummy⟩ := by rw [hs.list, helements, start_cons]
  let memory₁ := memory.putNode cs.dummy ⟨.list cd.list, none⟩
  let memory₂ := memory₁.putNode cd.dummy ⟨e.2, none⟩
  let memory₃ := memory₂.putNode cd.dummy ⟨e.2, some (start rest cs.dummy)⟩
  let memory₄ := memory₃.putList cd.list ⟨start cd.elements cd.dummy, cs.dummy⟩
  let memory₅ := memory₄.putNode e.1 ⟨.list cs.list, some (start rest cs.dummy)⟩
  let memory₆ := memory₅.putNode e.1 ⟨.list cs.list, none⟩
  -- each write finds what it changes
  have hdest₁ : deref memory₁ cd.dummy = some ⟨.list cd.list, none⟩ := by rw [deref_putNode, if_neg hne₃, hd.dummy]
  have hnode₁ : deref memory₁ e.1 = some ⟨e.2, some (start rest cs.dummy)⟩ := by
    rw [deref_putNode, if_neg hne₁, hnode]
  have hdest₂ : deref memory₂ cd.dummy = some ⟨e.2, none⟩ := by rw [deref_putNode, if_pos rfl]
  have hnode₂ : deref memory₂ e.1 = some ⟨e.2, some (start rest cs.dummy)⟩ := by
    rw [deref_putNode, if_neg (Ne.symm hne₂), hnode₁]
  have hlist₃ : derefList memory₃ cd.list = some ⟨start cd.elements cd.dummy, cd.dummy⟩ := hd.list
  have hnode₄ : deref memory₄ e.1 = some ⟨e.2, some (start rest cs.dummy)⟩ := by
    rw [deref_putList, deref_putNode, if_neg (Ne.symm hne₂), hnode₂]
  have hnode₅ : deref memory₅ e.1 = some ⟨.list cs.list, some (start rest cs.dummy)⟩ := by
    rw [deref_putNode, if_pos rfl]
  have hlist₆ : derefList memory₆ cs.list = some ⟨e.1, cs.dummy⟩ := by
    rw [derefList_putNode, derefList_putNode, derefList_putList, if_neg (Ne.symm hapart.list)]
    exact hlist
  have hassign₁ : slistSetData memory cs.dummy (.list cd.list) = some memory₁ := assign_eq hs.dummy _
  have hassign₂ : slistSetData memory₁ cd.dummy e.2 = some memory₂ := assign_eq hdest₁ _
  have hassign₃ : assign memory₂ cd.dummy (fun node => { node with nextNode := some (start rest cs.dummy) }) =
      some memory₃ := assign_eq hdest₂ _
  have hassign₄ : assignList memory₃ cd.list (fun slist => { slist with tail := cs.dummy }) = some memory₄ :=
    assignList_eq hlist₃ _
  have hassign₅ : assign memory₄ e.1 (fun node => { node with data := .list cs.list }) = some memory₅ :=
    assign_eq hnode₄ _
  have hassign₆ : assign memory₅ e.1 (fun node => { node with nextNode := none }) = some memory₆ :=
    assign_eq hnode₅ _
  have hassign₇ : assignList memory₆ cs.list (fun slist => { slist with tail := slist.head }) =
      some (memory.appended cd cs e rest) := assignList_eq hlist₆ _
  have hbegin : slistBegin memory cs.list = some e.1 := by rw [slistBegin, hlist, Option.map_some]
  simp only [slistAppend, hbegin, hs.ends.2, hd.ends.2, slistNext, slistGetData, hnode, hd.dummy, Option.map_some,
    bind, Option.bind_some, hassign₁, hnode₁, hassign₂, hnode₂, hassign₃, hassign₄, hassign₅, hassign₆, hassign₇]

/-- **An append** moves all nodes but the head, which is the dummy of the source from then on. -/
theorem Stored.slistAppend (hd : Stored memory dest cd) (hs : Stored memory src cs) (hapart : Apart cd cs)
    (helements : cs.elements = e :: rest) : ∃ memory', slistAppend memory cd.list cs.list = some memory' ∧
      Stored memory' dest ⟨cd.list, cd.elements ++ (cd.dummy, e.2) :: rest, cs.dummy⟩ ∧
      Stored memory' src ⟨cs.list, [], e.1⟩ ∧
      Changes memory memory' [] [cd.list, cs.list] [cs.dummy, cd.dummy, e.1] := by
  have hmem : e ∈ cs.elements := helements ▸ List.mem_cons_self
  have hne₁ : e.1 ≠ cs.dummy := hs.element_ne_dummy hmem
  have hne₂ : cd.dummy ≠ e.1 := hapart.ne cd.dummy_mem (Chain.element_mem hmem)
  have hne₃ : cd.dummy ≠ cs.dummy := hapart.ne cd.dummy_mem cs.dummy_mem
  have hsegment := hs.segment
  rw [helements] at hsegment
  have hnodes := Chain.nodes_of_cons helements
  have hnodup := hs.nodup
  rw [hnodes] at hnodup
  obtain ⟨he, hnodup'⟩ := List.nodup_cons.mp hnodup
  have hrest : ∀ p ∈ rest.map Prod.fst, p ∈ cs.nodes := fun p hp =>
    hnodes ▸ List.mem_cons_of_mem _ (List.mem_append_left _ hp)
  refine ⟨_, hd.slistAppend_eq hs hapart helements, ⟨hd.queue, ?_, ?_, ?_, ?_⟩,
    ⟨hs.queue, ?_, trivial, ?_, List.nodup_singleton _⟩, fun _ _ => rfl, fun l hl => ?_, fun p hp => ?_⟩
  · rw [derefList_appended, if_neg hapart.list, if_pos rfl, start_append]
    rfl
  · refine segment_append.mpr
      ⟨hd.segment.congr fun u hu next hpoints => ?_, ?_, hsegment.2.congr fun u hu next hpoints => ?_⟩
    · -- the nodes of the destination
      have hu' := Chain.element_mem hu
      exact (deref_appended_of_ne (hapart.ne hu' (Chain.element_mem hmem)) (hd.element_ne_dummy hu)
        (hapart.ne hu' cs.dummy_mem)).trans hpoints
    · show deref _ cd.dummy = _
      rw [deref_appended, if_neg hne₂, if_pos rfl]
    · -- the nodes of the source, without its head
      have hu' : u.1 ∈ rest.map Prod.fst := List.mem_map_of_mem hu
      refine (deref_appended_of_ne ?_ ?_ ?_).trans hpoints
      · exact fun heq => he (heq ▸ List.mem_append_left _ hu')
      · exact Ne.symm (hapart.ne cd.dummy_mem (hrest u.1 hu'))
      · exact (List.nodup_append.mp hnodup').2.2 u.1 hu' cs.dummy (List.mem_singleton_self _)
  · rw [deref_appended, if_neg (Ne.symm hne₁), if_neg (Ne.symm hne₃), if_pos rfl]
  · rw [Chain.nodes_append]
    refine List.nodup_append.mpr ⟨hd.nodup, hnodup', fun p hp q hq => hapart.ne hp ?_⟩
    rw [hnodes]
    exact List.mem_cons_of_mem _ hq
  · rw [derefList_appended, if_pos rfl]
    rfl
  · rw [deref_appended, if_pos rfl]
  · simp only [List.mem_cons, List.not_mem_nil, or_false, not_or] at hl
    rw [derefList_appended, if_neg hl.2, if_neg hl.1]
  · simp only [List.mem_cons, List.not_mem_nil, or_false, not_or] at hp
    exact deref_appended_of_ne hp.2.2 hp.2.1 hp.1

end Workbench.SinglyLinked
