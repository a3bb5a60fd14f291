import Mathlib.Data.List.Nodup
import Mathlib.Data.List.Perm.Subperm
import Workbench.Lib.Segment
import Workbench.Linked.Slist

/-!
# `Linked.Chain` — one list in memory

The head of a list leads to its dummy, which has the list. An insertion moves the element at its place to a new node,
and a removal moves the next element, or the dummy, to the node of the removed one.

## Main results
* `WellFormed` — the nodes of a list, up to its dummy;
* `WellFormed.congr`, `WellFormed.replace` — what stays when nothing or a part of the list changes;
* `WellFormed.insert`, `WellFormed.insertEnd` — a node more, in front of an element and in front of the dummy;
* `WellFormed.removeNext`, `WellFormed.removeLast` — a node less: of the next element, or of the dummy.
-/

namespace Workbench.SinglyLinked

variable {α : Type}

/-! ## Writing -/

/-- The memory with another node. -/
def Memory.putNode (memory : Memory α) (p : Nat) (node : SlistNode α) : Memory α :=
  { memory with nodes := Dict.put memory.nodes p node }

/-- The memory without a node. -/
def Memory.freeNode (memory : Memory α) (p : Nat) : Memory α :=
  { memory with nodes := Dict.erase memory.nodes p }

/-- The memory with another list. -/
def Memory.putList (memory : Memory α) (l : Nat) (slist : Slist) : Memory α :=
  { memory with lists := Dict.put memory.lists l slist }

variable {memory memory' : Memory α} {p q l : Nat} {node : SlistNode α} {slist : Slist}

theorem get?_put {κ β : Type} [DecidableEq κ] (d : Dict κ β) (k k' : κ) (v : β) :
    Dict.get? (Dict.put d k v) k' = if k' = k then some v else Dict.get? d k' := by
  by_cases h : k' = k
  · rw [if_pos h, h, Dict.get?_put_self]
  · rw [if_neg h, Dict.get?_put_ne (Ne.symm h)]

theorem deref_putNode : deref (memory.putNode p node) q = if q = p then some node else deref memory q :=
  get?_put _ _ _ _

theorem deref_freeNode : deref (memory.freeNode p) q = if q = p then none else deref memory q := by
  by_cases h : q = p
  · rw [if_pos h, h]
    exact Dict.get?_erase_self _ _
  · rw [if_neg h]
    exact Dict.get?_erase_ne (Ne.symm h) _

theorem derefList_putList :
    derefList (memory.putList p slist) q = if q = p then some slist else derefList memory q := get?_put _ _ _ _

@[simp] theorem deref_putList : deref (memory.putList l slist) q = deref memory q := rfl

@[simp] theorem derefList_putNode : derefList (memory.putNode p node) l = derefList memory l := rfl

@[simp] theorem derefList_freeNode : derefList (memory.freeNode p) l = derefList memory l := rfl

theorem assign_eq (h : deref memory p = some node) (f : SlistNode α → SlistNode α) :
    assign memory p f = some (memory.putNode p (f node)) := by
  simp only [assign, h, bind, Option.bind_some, pure]
  rfl

theorem assignList_eq (h : derefList memory l = some slist) (f : Slist → Slist) :
    assignList memory l f = some (memory.putList l (f slist)) := by
  simp only [assignList, h, bind, Option.bind_some, pure]
  rfl

/-! ## The nodes of a list -/

/-- A list, its elements with their nodes, and its dummy. -/
structure Chain (α : Type) where
  list : Nat
  elements : List (Nat × Data α)
  dummy : Nat

def Chain.nodes (c : Chain α) : List Nat := c.elements.map Prod.fst ++ [c.dummy]

/-- The node has the data and leads to the next node. -/
def Points (memory : Memory α) (p : Nat) (data : Data α) (next : Nat) : Prop :=
  deref memory p = some ⟨data, some next⟩

/-- **The list is in memory**: its head leads to its dummy, which has the list. -/
structure WellFormed (memory : Memory α) (c : Chain α) : Prop where
  list : derefList memory c.list = some ⟨start c.elements c.dummy, c.dummy⟩
  segment : Segment (Points memory) c.elements c.dummy
  dummy : deref memory c.dummy = some ⟨.list c.list, none⟩
  nodup : c.nodes.Nodup

/-- The memories differ at some lists and nodes only. -/
structure Keeps (memory memory' : Memory α) (lists nodes : List Nat) : Prop where
  queues : memory'.queues = memory.queues
  lists : ∀ l, l ∉ lists → derefList memory' l = derefList memory l
  nodes : ∀ p, p ∉ nodes → deref memory' p = deref memory p

variable {new list dummy : Nat} {c : Chain α} {lists nodes : List Nat} {data : Data α} {e e' : Nat × Data α}
  {es xs ys : List (Nat × Data α)}

theorem Chain.dummy_mem (c : Chain α) : c.dummy ∈ c.nodes := List.mem_append_right _ (List.mem_singleton_self _)

theorem Chain.element_mem {c : Chain α} (he : e ∈ c.elements) : e.1 ∈ c.nodes :=
  List.mem_append_left _ (List.mem_map_of_mem he)

theorem Segment.deref_isSome (h : Segment (Points memory) es dummy) (he : e ∈ es) :
    ∃ next, Points memory e.1 e.2 next := by
  obtain ⟨xs, ys, rfl⟩ := List.append_of_mem he
  exact ⟨_, (segment_append.mp h).2.1⟩

/-- A node leads to the next one. -/
def LeadsTo (memory : Memory α) (p p' : Nat) : Prop := slistNext memory p = some (some p')

theorem Points.leadsTo {next : Nat} (h : Points memory p data next) : LeadsTo memory p next := by
  have h : deref memory p = _ := h
  rw [LeadsTo, slistNext, h, Option.map_some]

/-- A segment leads from its start to its end. -/
theorem Segment.leadsTo (h : Segment (Points memory) es dummy) :
    Relation.ReflTransGen (LeadsTo memory) (start es dummy) dummy := by
  refine Relation.ReflTransGen.mono (fun p p' hpoints => ?_) _ _ h.reaches
  obtain ⟨d, hpoints⟩ := hpoints
  exact hpoints.leadsTo

theorem WellFormed.deref_isSome (h : WellFormed memory c) (hp : p ∈ c.nodes) : ∃ node, deref memory p = some node := by
  rcases List.mem_append.mp hp with hp | hp
  · obtain ⟨e, he, rfl⟩ := List.mem_map.mp hp
    obtain ⟨next, hpoints⟩ := Segment.deref_isSome h.segment he
    exact ⟨_, hpoints⟩
  · rw [List.mem_singleton.mp hp]
    exact ⟨_, h.dummy⟩

theorem WellFormed.ne_new (h : WellFormed memory c) (hnew : deref memory new = none) (hp : p ∈ c.nodes) : p ≠ new := by
  rintro rfl
  obtain ⟨node, hnode⟩ := h.deref_isSome hp
  rw [hnew] at hnode
  cases hnode

theorem WellFormed.element_ne_dummy (h : WellFormed memory c) (he : e ∈ c.elements) : e.1 ≠ c.dummy := by
  have hdisjoint := (List.nodup_append.mp h.nodup).2.2
  exact hdisjoint e.1 (List.mem_map_of_mem he) c.dummy (List.mem_singleton_self _)

/-- **What is not changed** stays in memory. -/
theorem WellFormed.congr (h : WellFormed memory c) (hlist : derefList memory' c.list = derefList memory c.list)
    (hnodes : ∀ p ∈ c.nodes, deref memory' p = deref memory p) : WellFormed memory' c where
  list := hlist.trans h.list
  segment := h.segment.congr fun e he _ hpoints => (hnodes e.1 (Chain.element_mem he)).trans hpoints
  dummy := (hnodes c.dummy c.dummy_mem).trans h.dummy
  nodup := h.nodup

theorem WellFormed.ends (h : WellFormed memory c) :
    slistBegin memory c.list = some (start c.elements c.dummy) ∧ slistEnd memory c.list = some c.dummy := by
  simp only [slistBegin, slistEnd, h.list, Option.map_some, and_self]

theorem Chain.start_mem (c : Chain α) : start c.elements c.dummy ∈ c.nodes := by
  unfold Chain.nodes
  cases c.elements with
  | nil => exact List.mem_singleton_self _
  | cons e es => exact List.mem_cons_self

theorem Chain.start_mem_append (list : Nat) (xs ys : List (Nat × Data α)) (dummy : Nat) :
    start ys dummy ∈ (Chain.mk list (xs ++ ys) dummy).nodes := by
  rw [Chain.nodes, List.map_append, List.append_assoc]
  exact List.mem_append_right _ (Chain.start_mem ⟨list, ys, dummy⟩)

/-- There are more nodes in memory than elements in a list. -/
theorem WellFormed.length_lt (h : WellFormed memory c) : c.elements.length < memory.nodes.length := by
  have hsubset : c.nodes ⊆ Dict.keys memory.nodes := by
    intro p hp
    obtain ⟨node, hnode⟩ := h.deref_isSome hp
    by_contra hkeys
    rw [deref, Dict.get?_eq_none_iff.mpr hkeys] at hnode
    cases hnode
  have hlength := (List.subperm_of_subset h.nodup hsubset).length_le
  simp only [Chain.nodes, Dict.keys, List.length_append, List.length_map, List.length_singleton] at hlength
  omega

/-- A list of two elements. -/
def pairMemory : Memory Nat :=
  ⟨[], [(1, ⟨10, 12⟩)], [(10, ⟨.user 7, some 11⟩), (11, ⟨.user 8, some 12⟩), (12, ⟨.list 1, none⟩)]⟩

theorem pairMemory_wellFormed : WellFormed pairMemory ⟨1, [(10, .user 7), (11, .user 8)], 12⟩ :=
  ⟨rfl, ⟨rfl, rfl, trivial⟩, rfl, by decide⟩

/-! ## Insertions -/

/-- **An insertion at the end** writes the data to the dummy, and the new node is the next dummy. -/
theorem WellFormed.insertEnd (h : WellFormed memory c) (hnew : deref memory new = none) (data : Data α) :
    ∃ memory', slistInsert memory c.dummy data (some new) = some (memory', c.dummy) ∧
      WellFormed memory' ⟨c.list, c.elements ++ [(c.dummy, data)], new⟩ ∧
      Keeps memory memory' [c.list] [c.dummy, new] := by
  have hne : c.dummy ≠ new := h.ne_new hnew c.dummy_mem
  -- the new node, the old dummy in two steps, and the tail
  let memory₁ := memory.putNode new ⟨.list c.list, none⟩
  let memory₂ := memory₁.putNode c.dummy ⟨.list c.list, some new⟩
  let memory₃ := memory₂.putNode c.dummy ⟨data, some new⟩
  let memory₄ := memory₃.putList c.list ⟨start c.elements c.dummy, new⟩
  have hdummy₁ : deref memory₁ c.dummy = some ⟨.list c.list, none⟩ := by rw [deref_putNode, if_neg hne, h.dummy]
  have hdummy₂ : deref memory₂ c.dummy = some ⟨.list c.list, some new⟩ := by rw [deref_putNode, if_pos rfl]
  have hlist₃ : derefList memory₃ c.list = some ⟨start c.elements c.dummy, c.dummy⟩ := h.list
  have hassign₂ : assign memory₁ c.dummy (fun node => { node with nextNode := some new }) = some memory₂ :=
    assign_eq hdummy₁ _
  have hassign₃ : slistSetData memory₂ c.dummy data = some memory₃ := assign_eq hdummy₂ _
  have hassign₄ : assignList memory₃ c.list (fun slist => { slist with tail := new }) = some memory₄ :=
    assignList_eq hlist₃ _
  have hread : ∀ p, deref memory₄ p = if p = c.dummy then some ⟨data, some new⟩ else
      if p = new then some ⟨.list c.list, none⟩ else deref memory p := by
    intro p
    rw [deref_putList, deref_putNode, deref_putNode, deref_putNode]
    split <;> rfl
  refine ⟨memory₄, ?_, ⟨?_, ?_, ?_, ?_⟩, rfl, fun l hl => ?_, fun p hp => ?_⟩
  · have hput : ({ memory with nodes := Dict.put memory.nodes new ⟨.list c.list, none⟩ } : Memory α) = memory₁ := rfl
    simp only [slistInsert, h.dummy, bind, Option.bind_some, hput, hassign₂, hassign₃, asList, hassign₄, pure]
  · rw [derefList_putList, if_pos rfl, start_append]
    rfl
  · refine segment_append.mpr ⟨h.segment.congr fun e he next hpoints => ?_, ?_, trivial⟩
    · show deref memory₄ e.1 = _
      rw [hread, if_neg (h.element_ne_dummy he), if_neg (h.ne_new hnew (Chain.element_mem he))]
      exact hpoints
    · show deref memory₄ c.dummy = _
      rw [hread, if_pos rfl]
      rfl
  · rw [hread, if_neg (Ne.symm hne), if_pos rfl]
  · have hnodes : (Chain.mk c.list (c.elements ++ [(c.dummy, data)]) new).nodes = c.nodes ++ [new] := by
      simp only [Chain.nodes, List.map_append, List.map_cons, List.map_nil]
    rw [hnodes]
    refine List.nodup_append.mpr ⟨h.nodup, List.nodup_singleton new, fun p hp q hq => ?_⟩
    rw [List.mem_singleton.mp hq]
    exact h.ne_new hnew hp
  · rw [derefList_putList, if_neg (List.ne_of_not_mem_cons hl)]
    rfl
  · simp only [List.mem_cons, List.not_mem_nil, or_false, not_or] at hp
    rw [hread, if_neg hp.1, if_neg hp.2]

/-- **Some elements are replaced**, from the same first node on, and the other nodes stay. -/
theorem WellFormed.replace {mid mid' : List (Nat × Data α)}
    (h : WellFormed memory ⟨list, xs ++ (mid ++ ys), dummy⟩) (hlist : derefList memory' list = derefList memory list)
    (hkept : ∀ p ∈ (Chain.mk list (xs ++ ys) dummy).nodes, deref memory' p = deref memory p)
    (hstart : start mid' (start ys dummy) = start mid (start ys dummy))
    (hmid : Segment (Points memory') mid' (start ys dummy))
    (hnodup : (Chain.mk list (xs ++ (mid' ++ ys)) dummy).nodes.Nodup) :
    WellFormed memory' ⟨list, xs ++ (mid' ++ ys), dummy⟩ := by
  obtain ⟨hxs, hrest⟩ := segment_append.mp h.segment
  have hys := (segment_append.mp hrest).2
  rw [start_append] at hxs
  refine ⟨?_, segment_append.mpr ⟨?_, segment_append.mpr ⟨hmid, ?_⟩⟩, ?_, hnodup⟩
  · have hold := h.list
    rw [start_append, start_append] at hold ⊢
    rw [hlist, hstart]
    exact hold
  · rw [start_append, hstart]
    refine hxs.congr fun u hu next hpoints => (hkept u.1 (Chain.element_mem ?_)).trans hpoints
    exact List.mem_append_left ys hu
  · refine hys.congr fun u hu next hpoints => (hkept u.1 (Chain.element_mem ?_)).trans hpoints
    exact List.mem_append_right xs hu
  · exact (hkept dummy (Chain.dummy_mem ⟨list, xs ++ ys, dummy⟩)).trans h.dummy

/-- The parts of a list around a node. -/
theorem Chain.nodes_split (list : Nat) (xs ys : List (Nat × Data α)) (e : Nat × Data α) (dummy : Nat) :
    (Chain.mk list (xs ++ e :: ys) dummy).nodes = xs.map Prod.fst ++ e.1 :: (ys.map Prod.fst ++ [dummy]) := by
  simp [Chain.nodes]

theorem Chain.mem_split (e : Nat × Data α) (hp : p ∈ (Chain.mk list (xs ++ ys) dummy).nodes) :
    p ∈ (Chain.mk list (xs ++ e :: ys) dummy).nodes := by
  rw [Chain.nodes_split]
  rw [Chain.nodes, List.map_append, List.append_assoc] at hp
  rcases List.mem_append.mp hp with hp | hp
  · exact List.mem_append_left _ hp
  · exact List.mem_append_right _ (List.mem_cons_of_mem _ hp)

theorem Chain.nodup_split (list : Nat) (xs ys : List (Nat × Data α)) (e : Nat × Data α) (dummy : Nat) :
    (Chain.mk list (xs ++ e :: ys) dummy).nodes.Nodup ↔
      e.1 ∉ (Chain.mk list (xs ++ ys) dummy).nodes ∧ (Chain.mk list (xs ++ ys) dummy).nodes.Nodup := by
  rw [Chain.nodes_split, List.nodup_middle, List.nodup_cons, Chain.nodes, List.map_append, List.append_assoc]

/-- **An insertion in front of an element** moves the element to the new node. -/
theorem WellFormed.insert (h : WellFormed memory ⟨list, xs ++ e :: ys, dummy⟩) (hnew : deref memory new = none)
    (data : Data α) :
    ∃ memory', slistInsert memory e.1 data (some new) = some (memory', e.1) ∧
      WellFormed memory' ⟨list, xs ++ (e.1, data) :: (new, e.2) :: ys, dummy⟩ ∧ Keeps memory memory' [] [e.1, new] := by
  obtain ⟨-, he, -⟩ := segment_append.mp h.segment
  have hnode : deref memory e.1 = some ⟨e.2, some (start ys dummy)⟩ := he
  have hne : e.1 ≠ new := h.ne_new hnew (Chain.element_mem (by simp))
  have hfresh := ((Chain.nodup_split list xs ys e dummy).mp h.nodup).1
  let memory₁ := memory.putNode new ⟨e.2, some (start ys dummy)⟩
  let memory₂ := memory₁.putNode e.1 ⟨e.2, some new⟩
  let memory₃ := memory₂.putNode e.1 ⟨data, some new⟩
  have hnode₁ : deref memory₁ e.1 = some ⟨e.2, some (start ys dummy)⟩ := by rw [deref_putNode, if_neg hne, hnode]
  have hnode₂ : deref memory₂ e.1 = some ⟨e.2, some new⟩ := by rw [deref_putNode, if_pos rfl]
  have hassign₂ : assign memory₁ e.1 (fun node => { node with nextNode := some new }) = some memory₂ :=
    assign_eq hnode₁ _
  have hassign₃ : slistSetData memory₂ e.1 data = some memory₃ := assign_eq hnode₂ _
  have hread : ∀ p, deref memory₃ p = if p = e.1 then some ⟨data, some new⟩ else
      if p = new then some ⟨e.2, some (start ys dummy)⟩ else deref memory p := by
    intro p
    rw [deref_putNode, deref_putNode, deref_putNode]
    split <;> rfl
  have hnewFresh : new ∉ (Chain.mk list (xs ++ e :: ys) dummy).nodes := fun hmem => h.ne_new hnew hmem rfl
  have hmid : WellFormed memory ⟨list, xs ++ ([e] ++ ys), dummy⟩ := h
  have hwell : WellFormed memory₃ ⟨list, xs ++ ([(e.1, data), (new, e.2)] ++ ys), dummy⟩ := by
    refine hmid.replace rfl (fun p hp => ?_) rfl ⟨?_, ?_, trivial⟩ ?_
    · have hpe : p ≠ e.1 := fun heq => hfresh (heq ▸ hp)
      have hpnew : p ≠ new := fun heq => hnewFresh (Chain.mem_split e (heq ▸ hp))
      rw [hread, if_neg hpe, if_neg hpnew]
    · show deref memory₃ e.1 = _
      rw [hread, if_pos rfl]
      rfl
    · show deref memory₃ new = _
      rw [hread, if_neg (Ne.symm hne), if_pos rfl]
      rfl
    · -- the new node is behind the node of the element
      have hnodes : xs ++ ([(e.1, data), (new, e.2)] ++ ys) = (xs ++ [(e.1, data)]) ++ (new, e.2) :: ys := by simp
      have hsame : (Chain.mk list (xs ++ (e.1, data) :: ys) dummy).nodes =
          (Chain.mk list (xs ++ e :: ys) dummy).nodes := by
        simp [Chain.nodes]
      rw [hnodes, Chain.nodup_split, List.append_assoc, List.singleton_append, hsame]
      exact ⟨hnewFresh, h.nodup⟩
  refine ⟨memory₃, ?_, hwell, rfl, fun l _ => rfl, fun p hp => ?_⟩
  · have hput : ({ memory with nodes := Dict.put memory.nodes new ⟨e.2, some (start ys dummy)⟩ } : Memory α) =
        memory₁ := rfl
    simp only [slistInsert, hnode, bind, Option.bind_some, hput, hassign₂, hassign₃, pure]
  · simp only [List.mem_cons, List.not_mem_nil, or_false, not_or] at hp
    rw [hread, if_neg hp.1, if_neg hp.2]

/-! ## Removals -/

/-- **A removal of an element that is not the last one**: the next node is freed, and its element is in the place. -/
theorem WellFormed.removeNext (h : WellFormed memory ⟨list, xs ++ e :: e' :: ys, dummy⟩) :
    ∃ memory', slistRemove memory e.1 = some (memory', some e.1) ∧
      WellFormed memory' ⟨list, xs ++ (e.1, e'.2) :: ys, dummy⟩ ∧ Keeps memory memory' [] [e.1, e'.1] := by
  obtain ⟨-, he, he', -⟩ := segment_append.mp h.segment
  have hnode : deref memory e.1 = some ⟨e.2, some e'.1⟩ := he
  have hnode' : deref memory e'.1 = some ⟨e'.2, some (start ys dummy)⟩ := he'
  -- the two nodes are different, and not among the others
  obtain ⟨hfresh, hnodup⟩ := (Chain.nodup_split list xs (e' :: ys) e dummy).mp h.nodup
  obtain ⟨hfresh', hnodup'⟩ := (Chain.nodup_split list xs ys e' dummy).mp hnodup
  rw [Chain.nodes_split, List.mem_append, List.mem_cons, not_or, not_or] at hfresh
  obtain ⟨hbefore, hne, hbehind⟩ := hfresh
  have hothers : e.1 ∉ (Chain.mk list (xs ++ ys) dummy).nodes := by
    rw [Chain.nodes, List.map_append, List.append_assoc, List.mem_append, not_or]
    exact ⟨hbefore, hbehind⟩
  let memory₁ := memory.putNode e.1 ⟨e'.2, some e'.1⟩
  let memory₂ := memory₁.putNode e.1 ⟨e'.2, some (start ys dummy)⟩
  have hnode₁ : deref memory₁ e.1 = some ⟨e'.2, some e'.1⟩ := by rw [deref_putNode, if_pos rfl]
  have hnode₁' : deref memory₁ e'.1 = some ⟨e'.2, some (start ys dummy)⟩ := by
    rw [deref_putNode, if_neg (Ne.symm hne), hnode']
  have hassign₁ : slistSetData memory e.1 e'.2 = some memory₁ := assign_eq hnode _
  have hassign₂ : assign memory₁ e.1 (fun node => { node with nextNode := some (start ys dummy) }) = some memory₂ :=
    assign_eq hnode₁ _
  have hread : ∀ p, deref (memory₂.freeNode e'.1) p = if p = e'.1 then none else
      if p = e.1 then some ⟨e'.2, some (start ys dummy)⟩ else deref memory p := by
    intro p
    rw [deref_freeNode, deref_putNode, deref_putNode]
    split
    · rfl
    · split <;> rfl
  have hmid : WellFormed memory ⟨list, xs ++ ([e, e'] ++ ys), dummy⟩ := h
  have hwell : WellFormed (memory₂.freeNode e'.1) ⟨list, xs ++ ([(e.1, e'.2)] ++ ys), dummy⟩ := by
    refine hmid.replace rfl (fun p hp => ?_) rfl ⟨?_, trivial⟩ ?_
    · have hpe : p ≠ e.1 := fun heq => hothers (heq ▸ hp)
      have hpe' : p ≠ e'.1 := fun heq => hfresh' (heq ▸ hp)
      rw [hread, if_neg hpe', if_neg hpe]
    · show deref _ e.1 = _
      rw [hread, if_neg hne, if_pos rfl]
      rfl
    · exact (Chain.nodup_split list xs ys (e.1, e'.2) dummy).mpr ⟨hothers, hnodup'⟩
  refine ⟨memory₂.freeNode e'.1, ?_, hwell, rfl, fun l _ => rfl, fun p hp => ?_⟩
  · simp only [slistRemove, slistNext, slistGetData, hnode, hnode', Option.map_some, bind, Option.bind_some, hassign₁,
      hnode₁', hassign₂, pure]
    rfl
  · simp only [List.mem_cons, List.not_mem_nil, or_false, not_or] at hp
    rw [hread, if_neg hp.2, if_neg hp.1]

/-- **A removal of the last element**: its node becomes the dummy, and the head of the list as well. -/
theorem WellFormed.removeLast (h : WellFormed memory ⟨list, xs ++ [e], dummy⟩) :
    ∃ memory', slistRemove memory e.1 = some (memory', some e.1) ∧ WellFormed memory' ⟨list, [], e.1⟩ ∧
      Keeps memory memory' [list] [e.1, dummy] := by
  obtain ⟨-, hlast, -⟩ := segment_append.mp h.segment
  have hne : e.1 ≠ dummy := h.element_ne_dummy (by simp)
  have hnode : deref memory e.1 = some ⟨e.2, some dummy⟩ := hlast
  have hdummy : deref memory dummy = some ⟨.list list, none⟩ := h.dummy
  let memory₁ := memory.putNode e.1 ⟨.list list, some dummy⟩
  let memory₂ := memory₁.putList list ⟨start (xs ++ [e]) dummy, e.1⟩
  let memory₃ := memory₂.putList list ⟨e.1, e.1⟩
  let memory₄ := memory₃.putNode e.1 ⟨.list list, none⟩
  have hnode₁ : deref memory₁ e.1 = some ⟨.list list, some dummy⟩ := by rw [deref_putNode, if_pos rfl]
  have hdummy₁ : deref memory₁ dummy = some ⟨.list list, none⟩ := by
    rw [deref_putNode, if_neg (Ne.symm hne), hdummy]
  have hlist₁ : derefList memory₁ list = some ⟨start (xs ++ [e]) dummy, dummy⟩ := h.list
  have hlist₂ : derefList memory₂ list = some ⟨start (xs ++ [e]) dummy, e.1⟩ := by rw [derefList_putList, if_pos rfl]
  have hnode₃ : deref memory₃ e.1 = some ⟨.list list, some dummy⟩ := hnode₁
  have hassign₁ : slistSetData memory e.1 (.list list) = some memory₁ := assign_eq hnode _
  have hassign₂ : assignList memory₁ list (fun slist => { slist with tail := e.1 }) = some memory₂ :=
    assignList_eq hlist₁ _
  have hassign₃ : assignList memory₂ list (fun slist => { slist with head := e.1 }) = some memory₃ :=
    assignList_eq hlist₂ _
  have hassign₄ : assign memory₃ e.1 (fun node => { node with nextNode := none }) = some memory₄ :=
    assign_eq hnode₃ _
  have hread : ∀ p, deref (memory₄.freeNode dummy) p = if p = dummy then none else
      if p = e.1 then some ⟨.list list, none⟩ else deref memory p := by
    intro p
    rw [deref_freeNode, deref_putNode, deref_putList, deref_putList, deref_putNode]
    split
    · rfl
    · split <;> rfl
  have hreadList : ∀ l, derefList (memory₄.freeNode dummy) l = if l = list then some ⟨e.1, e.1⟩ else
      derefList memory l := by
    intro l
    rw [derefList_freeNode, derefList_putNode, derefList_putList, derefList_putList]
    split <;> rfl
  refine ⟨memory₄.freeNode dummy, ?_, ⟨?_, trivial, ?_, List.nodup_singleton _⟩, rfl, fun l hl => ?_, fun p hp => ?_⟩
  · simp only [slistRemove, slistNext, slistGetData, hnode, hdummy, Option.map_some, bind, Option.bind_some, hassign₁,
      hdummy₁, asList, hassign₂, hassign₃, hassign₄, pure]
    rfl
  · rw [hreadList, if_pos rfl]
    rfl
  · rw [hread, if_neg hne, if_pos rfl]
  · rw [hreadList, if_neg (List.ne_of_not_mem_cons hl)]
  · simp only [List.mem_cons, List.not_mem_nil, or_false, not_or] at hp
    rw [hread, if_neg hp.2, if_neg hp.1]

end Workbench.SinglyLinked
