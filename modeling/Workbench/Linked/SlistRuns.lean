import Workbench.Lib.System
import Workbench.Linked.Chain

/-!
# `Linked.SlistRuns` — a list, over any insertions and removals

An iterator of a list is a node that its head leads to. A removal that frees the dummy takes the removed node for the
head of the list, so the elements in front of it are lost.

## Main results
* `reachable_wellFormed` — the list is in memory after any calls;
* `slistRemove_removes_iff` — the elements whose removal removes them and nothing else.
-/

namespace Workbench.SinglyLinked

variable {α : Type} {memory memory' memory₀ : Memory α} {list head dummy p q : Nat} {c c' : Chain α}
  {e : Nat × Data α} {xs ys : List (Nat × Data α)}

/-! ## The calls -/

/-- A node that the head of the list leads to. -/
def Iterator (memory : Memory α) (list iter : Nat) : Prop :=
  ∃ head, slistBegin memory list = some head ∧ Relation.ReflTransGen (LeadsTo memory) head iter

/-- `new` is what `malloc` returns. What others do to the memory is a call as well. -/
inductive ListCall (α : Type)
  | insert (where_ : Nat) (data : Data α) (new : Option Nat)
  | remove (iter : Nat)
  | others

/-- A call with an iterator of the list, that is not its end where an element is removed. Others do not touch the
    list. -/
inductive ListStep (list : Nat) (memory : Memory α) : ListCall α → Memory α → Prop
  | insert {where_ : Nat} {data : Data α} {new : Option Nat} {memory' : Memory α} {iter : Nat} :
      Iterator memory list where_ → (∀ address, new = some address → deref memory address = none) →
      slistInsert memory where_ data new = some (memory', iter) →
      ListStep list memory (.insert where_ data new) memory'
  | remove {iter : Nat} {memory' : Memory α} {next : Option Nat} :
      Iterator memory list iter → slistEnd memory list ≠ some iter →
      slistRemove memory iter = some (memory', next) → ListStep list memory (.remove iter) memory'
  | others {memory' : Memory α} :
      derefList memory' list = derefList memory list →
      (∀ iter, Iterator memory list iter → deref memory' iter = deref memory iter) →
      ListStep list memory .others memory'

/-- The list is created in any memory. -/
def slistSystem (memory₀ : Memory α) (list head : Nat) : System (Memory α) (ListCall α) where
  init memory := deref memory₀ head = none ∧ derefList memory₀ list = none ∧
    slistCreate memory₀ (some list) (some head) = (memory, some list)
  step := ListStep list

/-! ## The list in memory -/

theorem wellFormed_create (memory₀ : Memory α) (list head : Nat) :
    WellFormed (slistCreate memory₀ (some list) (some head)).1 ⟨list, [], head⟩ where
  list := Dict.get?_put_self _ _ _
  segment := trivial
  dummy := Dict.get?_put_self _ _ _
  nodup := List.nodup_singleton head

/-- **The nodes of a list are closed** under the next node. -/
theorem WellFormed.leadsTo_mem (h : WellFormed memory c) (hp : p ∈ c.nodes) (hnext : LeadsTo memory p q) :
    q ∈ c.nodes := by
  rcases List.mem_append.mp hp with hp | hp
  · obtain ⟨e, he, rfl⟩ := List.mem_map.mp hp
    obtain ⟨xs, ys, helements⟩ := List.append_of_mem he
    have hsegment := h.segment
    rw [helements] at hsegment
    have hpoints : deref memory e.1 = _ := (segment_append.mp hsegment).2.1
    rw [LeadsTo, slistNext, hpoints] at hnext
    obtain rfl := Option.some.inj (Option.some.inj hnext)
    have hstart := Chain.start_mem_append c.list (xs ++ [e]) ys c.dummy
    rw [List.append_assoc, List.singleton_append, ← helements] at hstart
    exact hstart
  · rw [List.mem_singleton.mp hp, LeadsTo, slistNext, h.dummy] at hnext
    cases hnext

/-- **An iterator is a node of the list.** -/
theorem WellFormed.iterator_mem (h : WellFormed memory c) (hiter : Iterator memory c.list p) : p ∈ c.nodes := by
  obtain ⟨head, hhead, hreaches⟩ := hiter
  obtain rfl := Option.some.inj (h.ends.1.symm.trans hhead)
  induction hreaches with
  | refl => exact c.start_mem
  | tail _ hnext ih => exact h.leadsTo_mem ih hnext

/-- **A node of the list is an iterator.** -/
theorem WellFormed.iterator (h : WellFormed memory c) (hp : p ∈ c.nodes) : Iterator memory c.list p := by
  refine ⟨_, h.ends.1, ?_⟩
  rcases List.mem_append.mp hp with hp | hp
  · obtain ⟨e, he, rfl⟩ := List.mem_map.mp hp
    obtain ⟨xs, ys, helements⟩ := List.append_of_mem he
    have hsegment := h.segment
    rw [helements] at hsegment
    rw [helements, start_append]
    exact Segment.leadsTo (segment_append.mp hsegment).1
  · rw [List.mem_singleton.mp hp]
    exact Segment.leadsTo h.segment

/-- An insertion that fails changes nothing. -/
theorem slistInsert_none {where_ iter : Nat} {data : Data α}
    (h : slistInsert memory where_ data none = some (memory', iter)) : memory' = memory := by
  obtain ⟨last, -, h⟩ := Option.bind_eq_some_iff.mp h
  cases h
  rfl

/-- **One call** keeps the list in memory. -/
theorem WellFormed.step {call : ListCall α} (h : WellFormed memory c) (hstep : ListStep c.list memory call memory') :
    ∃ c', WellFormed memory' c' ∧ c'.list = c.list := by
  obtain ⟨list, elements, dummy⟩ := c
  cases hstep with
  | @insert where_ data new _ iter hiter hnew hinsert =>
      cases new with
      | none =>
          rw [slistInsert_none hinsert]
          exact ⟨_, h, rfl⟩
      | some new =>
          rcases List.mem_append.mp (h.iterator_mem hiter) with hmem | hmem
          · -- in front of an element
            obtain ⟨e, he, rfl⟩ := List.mem_map.mp hmem
            obtain ⟨xs, ys, rfl⟩ := List.append_of_mem he
            obtain ⟨_, hinsert', hwell, -⟩ := h.insert (hnew new rfl) data
            cases hinsert.symm.trans hinsert'
            exact ⟨_, hwell, rfl⟩
          · obtain rfl := List.mem_singleton.mp hmem
            obtain ⟨_, hinsert', hwell, -⟩ := h.insertEnd (hnew new rfl) data
            cases hinsert.symm.trans hinsert'
            exact ⟨_, hwell, rfl⟩
  | @remove iter _ _ hiter hend hremove =>
      rcases List.mem_append.mp (h.iterator_mem hiter) with hmem | hmem
      · obtain ⟨e, he, rfl⟩ := List.mem_map.mp hmem
        obtain ⟨xs, ys, rfl⟩ := List.append_of_mem he
        cases ys with
        | nil =>
            obtain ⟨_, hremove', hwell, -⟩ := h.removeLast
            cases hremove.symm.trans hremove'
            exact ⟨_, hwell, rfl⟩
        | cons e' ys =>
            obtain ⟨_, hremove', hwell, -⟩ := h.removeNext
            cases hremove.symm.trans hremove'
            exact ⟨_, hwell, rfl⟩
      · rw [List.mem_singleton.mp hmem] at hend
        exact absurd h.ends.2 hend
  | others hlist hnodes => exact ⟨_, h.congr hlist fun p hp => hnodes p (h.iterator hp), rfl⟩

/-- **After any calls** the list is in memory. -/
theorem reachable_wellFormed (h : (slistSystem memory₀ list head).Reachable System.Any memory) :
    ∃ c, WellFormed memory c ∧ c.list = list := by
  let Inv : Memory α → Prop := fun memory => ∃ c, WellFormed memory c ∧ c.list = list
  show Inv memory
  refine System.invariant ?_ ?_ h
  · rintro memory ⟨-, -, hcreate⟩
    have hmemory : (slistCreate memory₀ (some list) (some head)).1 = memory := by rw [hcreate]
    exact ⟨_, hmemory ▸ wellFormed_create memory₀ list head, rfl⟩
  · rintro memory call memory' ⟨c, hwell, rfl⟩ - hstep
    exact hwell.step hstep

/-! ## What a removal is to do -/

/-- The removal of an element: a list in memory without the element, and an iterator to what followed it. -/
def Removes (memory : Memory α) (list : Nat) (xs : List (Nat × Data α)) (e : Nat × Data α)
    (ys : List (Nat × Data α)) : Prop :=
  ∃ memory' dummy' xs' ys', slistRemove memory e.1 = some (memory', some (start ys' dummy')) ∧
    WellFormed memory' ⟨list, xs' ++ ys', dummy'⟩ ∧ xs'.map Prod.snd = xs.map Prod.snd ∧
    ys'.map Prod.snd = ys.map Prod.snd

/-- A list whose head is its dummy has no elements. -/
theorem WellFormed.elements_eq_nil (h : WellFormed memory c) (hlist : derefList memory c.list = some ⟨p, p⟩) :
    c.elements = [] := by
  cases helements : c.elements with
  | nil => rfl
  | cons e es =>
      have hends := hlist.symm.trans h.list
      rw [helements] at hends
      injection hends with hends
      injection hends with hstart hdummy
      exact absurd (hstart.symm.trans hdummy) (h.element_ne_dummy (helements ▸ List.mem_cons_self))

/-- **The last of several elements** takes those in front of it with it. -/
theorem WellFormed.not_removes_last (h : WellFormed memory ⟨list, xs ++ [e], dummy⟩) (hxs : xs ≠ []) :
    ¬ Removes memory list xs e [] := by
  rintro ⟨memory', dummy', xs', ys', hremove, hwell, hmap, -⟩
  obtain ⟨_, hremove', hempty, -⟩ := h.removeLast
  obtain rfl := (Prod.mk.inj (Option.some.inj (hremove.symm.trans hremove'))).1
  have hnil := hwell.elements_eq_nil hempty.list
  rw [(List.append_eq_nil_iff.mp hnil).1] at hmap
  exact hxs (List.map_eq_nil_iff.mp hmap.symm)

/-- **What a removal removes**: after any calls, the removal of an element does what it is to do exactly when the
element is not the last one, or is the only one. -/
theorem slistRemove_removes_iff (h : (slistSystem memory₀ list head).Reachable System.Any memory) :
    (∃ c, WellFormed memory c ∧ c.list = list) ∧
      ∀ xs e ys dummy, WellFormed memory ⟨list, xs ++ e :: ys, dummy⟩ →
        (Removes memory list xs e ys ↔ ys ≠ [] ∨ xs = []) := by
  refine ⟨reachable_wellFormed h, fun xs e ys dummy hwell => ?_⟩
  cases ys with
  | cons e' ys =>
      obtain ⟨memory', hremove, hwell', -⟩ := hwell.removeNext
      refine iff_of_true ?_ (Or.inl (List.cons_ne_nil e' ys))
      exact ⟨memory', dummy, xs, (e.1, e'.2) :: ys, hremove, hwell', rfl, rfl⟩
  | nil =>
      constructor
      · intro hremoves
        by_contra hnot
        rw [not_or] at hnot
        exact hwell.not_removes_last hnot.2 hremoves
      · rintro (hys | rfl)
        · exact absurd rfl hys
        · obtain ⟨memory', hremove, hwell', -⟩ := hwell.removeLast
          exact ⟨memory', e.1, [], [], hremove, hwell', rfl, rfl⟩

/-- Both elements are inserted at the end. -/
theorem pairMemory_reachable : (slistSystem ⟨[], [], []⟩ 1 10).Reachable System.Any pairMemory := by
  let memory₁ : Memory Nat := ⟨[], [(1, ⟨10, 10⟩)], [(10, ⟨.list 1, none⟩)]⟩
  let memory₂ : Memory Nat := ⟨[], [(1, ⟨10, 11⟩)], [(10, ⟨.user 7, some 11⟩), (11, ⟨.list 1, none⟩)]⟩
  have h₁ : (slistSystem ⟨[], [], []⟩ 1 10).Reachable System.Any memory₁ := .init ⟨rfl, rfl, rfl⟩
  have hinsert₁ : slistInsert memory₁ 10 (.user 7) (some 11) = some (memory₂, 10) := rfl
  have hinsert₂ : slistInsert memory₂ 11 (.user 8) (some 12) = some (pairMemory, 11) := rfl
  have h₂ : (slistSystem ⟨[], [], []⟩ 1 10).Reachable System.Any memory₂ := by
    refine h₁.step (a := .insert 10 (.user 7) (some 11)) trivial (.insert ⟨10, rfl, .refl⟩ ?_ hinsert₁)
    rintro _ ⟨⟩
    rfl
  refine h₂.step (a := .insert 11 (.user 8) (some 12)) trivial (.insert ⟨10, rfl, .single rfl⟩ ?_ hinsert₂)
  rintro _ ⟨⟩
  rfl

/-- The first of two elements is removed. -/
theorem slistRemove_removes_first : Removes pairMemory 1 [] (10, .user 7) [(11, .user 8)] :=
  ((slistRemove_removes_iff pairMemory_reachable).2 _ _ _ _ pairMemory_wellFormed).mpr (Or.inl (List.cons_ne_nil _ _))

/-- The last of two elements is removed, and the other one is lost. -/
theorem slistRemove_loses_first : ¬ ∀ (memory₀ : Memory Nat) (list head : Nat) (memory : Memory Nat),
    (slistSystem memory₀ list head).Reachable System.Any memory → ∀ xs e ys dummy,
      WellFormed memory ⟨list, xs ++ e :: ys, dummy⟩ → Removes memory list xs e ys := by
  intro hremoves
  have hwell : WellFormed pairMemory ⟨1, [(10, .user 7)] ++ [(11, .user 8)], 12⟩ := pairMemory_wellFormed
  exact hwell.not_removes_last (List.cons_ne_nil _ _) (hremoves _ 1 10 _ pairMemory_reachable _ _ _ _ hwell)

end Workbench.SinglyLinked
