import Mathlib.Data.List.Perm.Subperm
import Workbench.Tree.BstMemory

/-!
# `Tree.BstWalk` — from each node to the next one

The next node is the first one of the right son, or the node to which the way up leads. Both are the node that follows
from left to right, and the dummy root follows the last one.

## Main results
* `Holds` — the tree in memory;
* `Holds.next` — `BSTIterNext` follows the nodes from left to right;
* `Holds.walk`, `Holds.size` — what a walk from a node meets.
-/

namespace Workbench.Bst

open SearchTree

variable {α : Type} {tree : Tree α} {t l r : BinaryTree (Nat × α)} {context : Context (Nat × α)} {e : Nat × α}
  {xs ys : List (Nat × α)} {parent : Iter} {x : Nat} {node : Node α}

/-- **The tree is in memory**, each node at its own address. -/
structure Holds (tree : Tree α) (t : BinaryTree (Nat × α)) : Prop where
  shape : Shape (lookup tree) t
  nodup : (addresses (inorder t)).Nodup

/-- Where the first of the nodes is, and without one the end. -/
def first : List (Nat × α) → Iter
  | [] => .dummyRoot
  | e :: _ => .node e.1

@[simp] theorem first_cons (e : Nat × α) (xs : List (Nat × α)) : first (e :: xs) = .node e.1 := rfl

theorem first_append (xs ys : List (Nat × α)) (h : xs ≠ []) : first (xs ++ ys) = first xs := by
  obtain ⟨e, xs, rfl⟩ := List.exists_cons_of_ne_nil h
  rfl

/-! ## The loops -/

/-- The root of a tree in memory is the address of one of its nodes. -/
theorem rootOf_mem {i : Iter} (h : rootOf t = some i) : ∃ e ∈ inorder t, i = .node e.1 := by
  cases t with
  | nil => cases h
  | node e l r => exact ⟨e, by simp, (Option.some.inj h).symm⟩

theorem climbLoop_eq (h : Around (lookup tree) context (some (.node x))) (hx : deref tree (.node x) = some node)
    (hparent : node.parent = some (holder context)) (hnodup : (addresses (before context ++ after context)).Nodup)
    (hnew : x ∉ addresses (before context ++ after context)) {turns : Nat} (hturns : (before context).length < turns) :
    climbLoop tree turns (.node x) = some (first (after context)) := by
  induction context generalizing x node turns with
  | root =>
      cases turns with
      | zero => omega
      | succ turns =>
          have hdummy : deref tree .dummyRoot = some ⟨none, none, some (.node x), none⟩ := h
          simp only [climbLoop, hx, hparent, holder, hdummy, bind, Option.bind_some, reduceCtorEq, if_false, pure]
          rfl
  | left e r above ih =>
      cases turns with
      | zero => omega
      | succ turns =>
          obtain ⟨hnode, -, -⟩ := h
          have hnode : deref tree (.node e.1) = _ := hnode
          have hright : ¬ some (Iter.node x) = rootOf r := by
            intro heq
            obtain ⟨u, hu, hux⟩ := rootOf_mem heq.symm
            refine hnew (List.mem_map.mpr ⟨u, ?_, (Iter.node.inj hux).symm⟩)
            simp [after, hu]
          simp only [climbLoop, hx, hparent, holder, hnode, bind, Option.bind_some, if_neg hright, pure]
          rfl
  | right e l above ih =>
      cases turns with
      | zero => omega
      | succ turns =>
          obtain ⟨hnode, -, habove⟩ := h
          have hnode : deref tree (.node e.1) = _ := hnode
          simp only [climbLoop, hx, hparent, holder, hnode, bind, Option.bind_some, if_true]
          have hnodup' : (addresses (before above ++ inorder l ++ e :: after above)).Nodup := by
            simpa [before, after] using hnodup
          refine ih habove hnode rfl ?_ ?_ ?_
          · refine hnodup.sublist (List.Sublist.map _ ?_)
            exact (List.sublist_append_left _ _).trans (List.sublist_append_left _ _) |>.append (List.Sublist.refl _)
          · intro hmem
            obtain ⟨u, hu, hux⟩ := List.mem_map.mp hmem
            refine apart hnodup' (u := u) ?_ (congrArg Iter.node hux)
            rcases List.mem_append.mp hu with hu | hu <;> simp [hu]
          · simp only [before, List.length_append, List.length_singleton] at hturns
            omega

theorem leftmostLoop_eq (h : Rep (lookup tree) parent (.node e l r)) {turns : Nat}
    (hturns : (inorder l).length < turns) :
    leftmostLoop tree turns (.node e.1) = some (first (inorder (.node e l r))) := by
  induction l generalizing e r parent turns with
  | nil =>
      cases turns with
      | zero => omega
      | succ turns =>
          have hnode : deref tree (.node e.1) = _ := h.1
          simp only [leftmostLoop, hnode, bind, Option.bind_some, rootOf, pure]
          rfl
  | node e' l' r' ihl ihr =>
      cases turns with
      | zero => omega
      | succ turns =>
          have hnode : deref tree (.node e.1) = _ := h.1
          simp only [leftmostLoop, hnode, bind, Option.bind_some, rootOf]
          have hall : inorder (.node e (.node e' l' r') r) = inorder (.node e' l' r') ++ e :: inorder r :=
            keys_node id e _ _
          rw [ihl h.2.1]
          · rw [hall, first_append _ _ (by simp)]
          · simp only [inorder, keys_node, List.length_append, List.length_cons] at hturns ⊢
            omega

/-! ## The next node -/

theorem deref_isSome_of_mem (h : Rep (lookup tree) parent t) (he : e ∈ inorder t) :
    (deref tree (.node e.1)).isSome := by
  induction t generalizing parent with
  | nil => simp at he
  | node e' l r ihl ihr =>
      obtain ⟨hnode, hl, hr⟩ := h
      rw [inorder, keys_node] at he
      rcases List.mem_append.mp he with he | he
      · exact ihl hl he
      · rcases List.mem_cons.mp he with rfl | he
        · have hnode : deref tree (.node e.1) = _ := hnode
          rw [hnode]
          rfl
        · exact ihr hr he

/-- There are more nodes in memory than in the tree. -/
theorem Holds.length_lt (h : Holds tree t) : (inorder t).length < tree.memory.length := by
  have hsub : Iter.dummyRoot :: (addresses (inorder t)).map Iter.node ⊆ Dict.keys tree.memory := by
    intro i hi
    rcases List.mem_cons.mp hi with rfl | hi
    · have hdummy : deref tree .dummyRoot = _ := h.shape.1
      refine Dict.hasKey_iff_mem_keys.mp ?_
      unfold Dict.hasKey
      unfold deref at hdummy
      rw [hdummy]
      rfl
    · obtain ⟨a, ha, rfl⟩ := List.mem_map.mp hi
      obtain ⟨u, hu, rfl⟩ := List.mem_map.mp ha
      exact Dict.hasKey_iff_mem_keys.mp (deref_isSome_of_mem h.shape.2 hu)
  have hnodup : (Iter.dummyRoot :: (addresses (inorder t)).map Iter.node).Nodup := by
    refine List.nodup_cons.mpr ⟨fun hmem => ?_, h.nodup.map fun a b heq => Iter.node.inj heq⟩
    obtain ⟨a, -, ha⟩ := List.mem_map.mp hmem
    cases ha
  have hle := (List.subperm_of_subset hnodup hsub).length_le
  unfold addresses Dict.keys at hle
  simp only [List.length_cons, List.length_map] at hle
  omega

/-- The node in the hole, and what is around it. -/
theorem Holds.focus (h : Holds tree (plug context (.node e l r))) :
    Around (lookup tree) context (some (.node e.1)) ∧
      deref tree (.node e.1) = some ⟨some e.2, some (holder context), rootOf l, rootOf r⟩ ∧
      Rep (lookup tree) (.node e.1) l ∧ Rep (lookup tree) (.node e.1) r :=
  shape_plug.mp h.shape

theorem Holds.nodup_parts (h : Holds tree (plug context t)) :
    (addresses (before context ++ inorder t ++ after context)).Nodup := by
  have hnodup := h.nodup
  rwa [inorder_plug] at hnodup

theorem Holds.nodup_around (h : Holds tree (plug context t)) :
    (addresses (before context ++ after context)).Nodup := by
  refine h.nodup_parts.sublist (List.Sublist.map _ ?_)
  exact (List.sublist_append_left _ _).append (List.Sublist.refl _)

/-- **The next node** is the first one of those that follow. -/
theorem Holds.next (h : Holds tree (plug context (.node e l r))) :
    bstIterNext tree (.node e.1) = some (first (inorder r ++ after context)) := by
  obtain ⟨haround, hnode, hl, hr⟩ := h.focus
  have hlength := h.length_lt
  rw [inorder_plug, inorder, keys_node] at hlength
  simp only [List.length_append, List.length_cons] at hlength
  unfold bstIterNext
  rw [hnode]
  simp only [bind, Option.bind_some]
  cases r with
  | nil =>
      have hnodup : (addresses (before context ++ inorder l ++ e :: after context)).Nodup := by
        have hparts := h.nodup_parts
        simpa using hparts
      refine climbLoop_eq haround hnode rfl h.nodup_around ?_ (by omega)
      intro hmem
      obtain ⟨u, hu, hux⟩ := List.mem_map.mp hmem
      refine apart hnodup (u := u) ?_ (congrArg Iter.node hux)
      rcases List.mem_append.mp hu with hu | hu <;> simp [hu]
  | node e' l' r' =>
      simp only [rootOf]
      rw [leftmostLoop_eq hr]
      · rw [first_append _ _ (by simp)]
      · simp only [inorder, keys_node, List.length_append, List.length_cons] at hlength ⊢
        omega

theorem Holds.next_of_split (h : Holds tree t) (hsplit : inorder t = xs ++ e :: ys) :
    bstIterNext tree (.node e.1) = some (first ys) ∧ bstGetData tree (.node e.1) = some e.2 := by
  obtain ⟨context, l, r, hplug, -, hafter⟩ := exists_context hsplit .root
  have hplug : t = plug context (.node e l r) := hplug
  subst hplug
  have hafter : inorder r ++ after context = ys := by simpa [after] using hafter
  obtain ⟨-, hnode, -⟩ := h.focus
  refine ⟨hafter ▸ h.next, ?_⟩
  unfold bstGetData
  rw [hnode]
  rfl

/-! ## Walks -/

/-- An iterator and its data. -/
def visit (e : Nat × α) : Iter × α := (.node e.1, e.2)

theorem Holds.walkLoop (h : Holds tree t) (hsplit : inorder t = xs ++ ys) {turns : Nat} (hturns : ys.length < turns) :
    walkLoop tree turns (first ys) = some (ys.map visit) := by
  induction ys generalizing xs turns with
  | nil =>
      cases turns with
      | zero => omega
      | succ turns => rfl
  | cons e ys ih =>
      cases turns with
      | zero => omega
      | succ turns =>
          obtain ⟨hnext, hdata⟩ := h.next_of_split hsplit
          have hsplit' : inorder t = (xs ++ [e]) ++ ys := by
            rw [hsplit, List.append_assoc]
            rfl
          have hrest := ih hsplit' (Nat.lt_of_succ_lt_succ hturns)
          have hne : bstEnd ≠ first (e :: ys) := fun heq => Iter.noConfusion heq
          unfold Bst.walkLoop
          rw [if_pos hne]
          simp only [first_cons, hdata, hnext, hrest, bind, Option.bind_some, pure]
          rfl

theorem Holds.sizeLoop (h : Holds tree t) (hsplit : inorder t = xs ++ ys) {turns : Nat} (hturns : ys.length < turns)
    (count : Nat) : bstSizeLoop tree turns (first ys) count = some (count + ys.length) := by
  induction ys generalizing xs turns count with
  | nil =>
      cases turns with
      | zero => omega
      | succ turns => rfl
  | cons e ys ih =>
      cases turns with
      | zero => omega
      | succ turns =>
          obtain ⟨hnext, -⟩ := h.next_of_split hsplit
          have hsplit' : inorder t = (xs ++ [e]) ++ ys := by
            rw [hsplit, List.append_assoc]
            rfl
          have hrest := ih hsplit' (Nat.lt_of_succ_lt_succ hturns) (count + 1)
          have hne : bstEnd ≠ first (e :: ys) := fun heq => Iter.noConfusion heq
          unfold bstSizeLoop
          rw [if_pos hne]
          simp only [first_cons, hnext, bind, Option.bind_some]
          rw [hrest, List.length_cons]
          congr 1
          omega

/-- **A walk from the first node** meets all of them, from left to right. -/
theorem Holds.walk (h : Holds tree t) (hfirst : tree.firstNode = some (first (inorder t))) :
    walk tree = some ((inorder t).map visit) ∧ bstSize tree = some (inorder t).length := by
  have hlength := h.length_lt
  constructor
  · unfold Bst.walk bstBegin
    rw [hfirst]
    exact h.walkLoop (List.nil_append _).symm hlength
  · unfold bstSize bstBegin
    rw [hfirst]
    refine (h.sizeLoop (List.nil_append _).symm hlength 0).trans ?_
    rw [Nat.zero_add]

/-- From a node that is not in memory there is no walk. -/
theorem walk_eq_none (h : ∀ iter, tree.firstNode = some iter → iter ≠ bstEnd ∧ deref tree iter = none) :
    Bst.walk tree = none := by
  unfold Bst.walk bstBegin
  cases hfirst : tree.firstNode with
  | none => rfl
  | some iter =>
      obtain ⟨hne, hfree⟩ := h iter hfirst
      simp only [bind, Option.bind_some]
      cases tree.memory.length with
      | zero => rfl
      | succ turns =>
          unfold Bst.walkLoop bstGetData
          rw [if_pos hne.symm, hfree]
          rfl

end Workbench.Bst
