import Workbench.Tree.BstChanges

/-!
# `Tree.BstLinked` — the linked tree, and the list of its nodes

A tree is well formed if the sons of each node point back to it, and the root is the left son of the dummy root. What a
user of the iterators sees of the tree is the list of its nodes from left to right.

## Main results
* `Holds.prev`, `Holds.prev_end` — `BSTIterPrev` follows the nodes from right to left;
* `bstIterNext_bstIterPrev` — each of the two is the other one backward;
* `bstRemove_wellFormed` — a removal takes one node out of the list.
-/

namespace Workbench.Bst

open SearchTree

variable {α : Type} {tree : Tree α} {t l r : BinaryTree (Nat × α)} {context : Context (Nat × α)} {e : Nat × α}
  {nodes xs ys : List (Nat × α)} {parent : Iter} {x : Nat} {node : Node α}

/-! ## The previous node -/

/-- Where the last of the nodes is. -/
def lastOf (xs : List (Nat × α)) : Option Iter := xs.getLast?.map fun e => .node e.1

@[simp] theorem lastOf_concat (xs : List (Nat × α)) (e : Nat × α) : lastOf (xs ++ [e]) = some (.node e.1) := by
  rw [lastOf, List.getLast?_concat]
  rfl

theorem lastOf_append (xs ys : List (Nat × α)) (h : ys ≠ []) : lastOf (xs ++ ys) = lastOf ys := by
  rw [lastOf, lastOf, List.getLast?_append_of_ne_nil xs h]

/-- From the first node the loop comes to the dummy root, which has no parent. -/
theorem climbBackLoop_eq (h : Around (lookup tree) context (some (.node x))) (hx : deref tree (.node x) = some node)
    (hparent : node.parent = some (holder context)) (hnodup : (addresses (before context ++ after context)).Nodup)
    (hnew : x ∉ addresses (before context ++ after context)) {turns : Nat} (hturns : (after context).length < turns) :
    climbBackLoop tree turns (.node x) = lastOf (before context) := by
  induction context generalizing x node turns with
  | root =>
      cases turns with
      | zero => omega
      | succ turns =>
          have hdummy : deref tree .dummyRoot = some ⟨none, none, some (.node x), none⟩ := h
          simp only [climbBackLoop, hx, hparent, holder, hdummy, bind, Option.bind_some, if_true]
          cases turns with
          | zero => rfl
          | succ turns =>
              simp only [climbBackLoop, hdummy, bind, Option.bind_some, Option.bind_none]
              rfl
  | left e r above ih =>
      cases turns with
      | zero => omega
      | succ turns =>
          obtain ⟨hnode, -, habove⟩ := h
          have hnode : deref tree (.node e.1) = _ := hnode
          simp only [climbBackLoop, hx, hparent, holder, hnode, bind, Option.bind_some, if_true]
          have hnodup' : (addresses (before above ++ e :: (inorder r ++ after above))).Nodup := hnodup
          refine ih habove hnode rfl ?_ ?_ ?_
          · refine hnodup.sublist (List.Sublist.map _ ?_)
            refine (List.Sublist.refl (before above)).append ?_
            exact (List.sublist_append_right _ _).trans (List.sublist_cons_self _ _)
          · intro hmem
            obtain ⟨u, hu, hux⟩ := List.mem_map.mp hmem
            refine apart hnodup' (u := u) ?_ (congrArg Iter.node hux)
            rcases List.mem_append.mp hu with hu | hu <;> simp [hu]
          · simp only [after, List.length_append, List.length_cons] at hturns
            omega
  | right e l above ih =>
      cases turns with
      | zero => omega
      | succ turns =>
          obtain ⟨hnode, -, -⟩ := h
          have hnode : deref tree (.node e.1) = _ := hnode
          have hleft : ¬ some (Iter.node x) = rootOf l := by
            intro heq
            obtain ⟨u, hu, hux⟩ := rootOf_mem heq.symm
            refine hnew (List.mem_map.mpr ⟨u, ?_, (Iter.node.inj hux).symm⟩)
            simp [before, hu]
          simp only [climbBackLoop, hx, hparent, holder, hnode, bind, Option.bind_some, if_neg hleft, pure, before,
            lastOf_concat]

theorem rightmostLoop_eq (h : Rep (lookup tree) parent (.node e l r)) {turns : Nat}
    (hturns : (inorder r).length < turns) :
    rightmostLoop tree turns (.node e.1) = lastOf (inorder (.node e l r)) := by
  induction r generalizing e l parent turns with
  | nil =>
      cases turns with
      | zero => omega
      | succ turns =>
          have hnode : deref tree (.node e.1) = _ := h.1
          simp only [rightmostLoop, hnode, bind, Option.bind_some, rootOf, pure]
          exact (lastOf_concat (inorder l) e).symm
  | node e' l' r' ihl ihr =>
      cases turns with
      | zero => omega
      | succ turns =>
          have hnode : deref tree (.node e.1) = _ := h.1
          simp only [rightmostLoop, hnode, bind, Option.bind_some, rootOf]
          have hall : inorder (.node e l (.node e' l' r')) = (inorder l ++ [e]) ++ inorder (.node e' l' r') := by
            simp only [inorder, keys_node, id_eq, List.append_assoc, List.singleton_append]
          rw [ihr h.2.2]
          · rw [hall, lastOf_append _ _ (by simp)]
          · simp only [inorder, keys_node, List.length_append, List.length_cons] at hturns ⊢
            omega

/-- **The previous node** is the last one of those in front. -/
theorem Holds.prev (h : Holds tree (plug context (.node e l r))) :
    bstIterPrev tree (.node e.1) = lastOf (before context ++ inorder l) := by
  obtain ⟨haround, hnode, hl, hr⟩ := h.focus
  have hlength := h.length_lt
  rw [inorder_plug, inorder, keys_node] at hlength
  simp only [List.length_append, List.length_cons] at hlength
  unfold bstIterPrev
  rw [hnode]
  simp only [bind, Option.bind_some]
  cases l with
  | nil =>
      have hnodup : (addresses (before context ++ e :: (inorder r ++ after context))).Nodup := by
        have hparts := h.nodup_parts
        simpa using hparts
      have hnew : e.1 ∉ addresses (before context ++ after context) := by
        intro hmem
        obtain ⟨u, hu, hux⟩ := List.mem_map.mp hmem
        refine Bst.apart hnodup (u := u) ?_ (congrArg Iter.node hux)
        rcases List.mem_append.mp hu with hu | hu <;> simp [hu]
      simp only [rootOf]
      rw [climbBackLoop_eq haround hnode rfl h.nodup_around hnew (by omega), inorder, keys_nil, List.append_nil]
  | node e' l' r' =>
      simp only [rootOf]
      rw [rightmostLoop_eq hl]
      · rw [lastOf_append _ _ (by simp)]
      · simp only [inorder, keys_node, List.length_append, List.length_cons] at hlength ⊢
        omega

theorem Holds.prev_of_split (h : Holds tree t) (hsplit : inorder t = xs ++ e :: ys) :
    bstIterPrev tree (.node e.1) = lastOf xs := by
  obtain ⟨context, l, r, hplug, hbefore, -⟩ := exists_context hsplit .root
  have hplug : t = plug context (.node e l r) := hplug
  subst hplug
  have hbefore : before context ++ inorder l = xs := hbefore
  rw [h.prev, hbefore]

/-- In front of the end is the last node. -/
theorem Holds.prev_end (h : Holds tree t) (hne : inorder t ≠ []) : bstIterPrev tree bstEnd = lastOf (inorder t) := by
  have hlength := h.length_lt
  cases t with
  | nil => exact absurd rfl hne
  | node e l r =>
      have hdummy : deref tree .dummyRoot = some ⟨none, none, some (.node e.1), none⟩ := h.shape.1
      unfold bstIterPrev bstEnd
      rw [hdummy]
      simp only [bind, Option.bind_some]
      refine rightmostLoop_eq h.shape.2 ?_
      simp only [inorder, keys_node, List.length_append, List.length_cons] at hlength ⊢
      omega

/-! ## Well-formed trees -/

/-- **A well-formed tree** with these nodes, from left to right. -/
def WellFormed (tree : Tree α) (nodes : List (Nat × α)) : Prop := ∃ t, Holds tree t ∧ inorder t = nodes

/-- 5, and 7 as its right son. -/
def pair : Tree Int := ⟨fun x y => x - y, some (.node 1),
  [(.dummyRoot, ⟨none, none, some (.node 1), none⟩), (.node 1, ⟨some 5, some .dummyRoot, none, some (.node 2)⟩),
    (.node 2, ⟨some 7, some (.node 1), none, none⟩)]⟩

theorem pair_wellFormed : WellFormed pair [(1, 5), (2, 7)] := by
  refine ⟨.node (1, 5) .nil (.node (2, 7) .nil .nil), ⟨⟨rfl, rfl, trivial, rfl, trivial, trivial⟩, ?_⟩, rfl⟩
  show [1, 2].Nodup
  decide

/-- **Forward and backward** over a tree with nodes:

    * the node behind each node is the next one in the list, behind the last one is the end, and the way back leads to
      the node again;
    * in front of the end is the last node;
    * in front of each node but the first one is the previous one in the list. -/
theorem bstIterNext_bstIterPrev (h : WellFormed tree nodes) (hne : nodes ≠ []) :
    (∀ xs e ys, nodes = xs ++ e :: ys → bstIterNext tree (.node e.1) = some (first ys) ∧
      bstIterPrev tree (first ys) = some (.node e.1)) ∧
    bstIterPrev tree bstEnd = some (.node (nodes.getLast hne).1) ∧
    ∀ xs u e ys, nodes = xs ++ u :: e :: ys → bstIterPrev tree (.node e.1) = some (.node u.1) := by
  obtain ⟨t, ht, rfl⟩ := h
  have hend : bstIterPrev tree bstEnd = some (.node ((inorder t).getLast hne).1) := by
    rw [ht.prev_end hne, lastOf, List.getLast?_eq_some_getLast hne]
    rfl
  have hprev : ∀ xs u e ys, inorder t = xs ++ u :: e :: ys → bstIterPrev tree (.node e.1) = some (.node u.1) := by
    intro xs u e ys hsplit
    have hsplit' : inorder t = (xs ++ [u]) ++ e :: ys := by
      rw [hsplit, List.append_assoc]
      rfl
    rw [ht.prev_of_split hsplit', lastOf_concat]
  refine ⟨fun xs e ys hsplit => ⟨(ht.next_of_split hsplit).1, ?_⟩, hend, hprev⟩
  cases ys with
  | nil =>
      have hlast : (inorder t).getLast hne = e := by
        simp only [hsplit, List.getLast_append_singleton]
      rw [← hlast]
      exact hend
  | cons u ys => exact hprev xs e u ys hsplit

theorem bstIterNext_bstIterPrev_pair : bstIterPrev pair bstEnd = some (.node 2) :=
  (bstIterNext_bstIterPrev pair_wellFormed (List.cons_ne_nil _ _)).2.1

/-- **A removal** takes the node out of the list, and its address with it. -/
theorem bstRemove_wellFormed (h : WellFormed tree (xs ++ e :: ys)) :
    ∃ tree', bstRemove tree (.node e.1) = some (tree', e.2) ∧ WellFormed tree' (xs ++ ys) ∧
      e.1 ∉ addresses (xs ++ ys) ∧ deref tree' (.node e.1) = none := by
  obtain ⟨t, ht, hsplit⟩ := h
  have hnodup := ht.nodup
  rw [hsplit] at hnodup
  have hnew : e.1 ∉ addresses (xs ++ ys) := by
    intro hmem
    obtain ⟨u, hu, hux⟩ := List.mem_map.mp hmem
    exact Bst.apart hnodup hu (congrArg Iter.node hux)
  obtain ⟨context, l, r, hplug, hbefore, hafter⟩ := exists_context hsplit .root
  have hplug : t = plug context (.node e l r) := hplug
  subst hplug
  obtain ⟨tree', hremove, -, -, ht', hfree⟩ := ht.remove
  refine ⟨tree', hremove, ⟨_, ht', ?_⟩, hnew, hfree⟩
  have hbefore : before context ++ inorder l = xs := hbefore
  have hafter : inorder r ++ after context = ys := by simpa [after] using hafter
  rw [inorder_plug, inorder_hang, ← List.append_assoc, hbefore, List.append_assoc, hafter]

theorem bstRemove_wellFormed_pair :
    ∃ tree', bstRemove pair (.node 1) = some (tree', 5) ∧ WellFormed tree' [(2, 7)] ∧
      1 ∉ addresses [((2 : Nat), (7 : Int))] ∧ deref tree' (.node 1) = none := by
  have hpair : WellFormed pair ([] ++ (1, 5) :: [(2, 7)]) := pair_wellFormed
  exact bstRemove_wellFormed hpair

end Workbench.Bst
