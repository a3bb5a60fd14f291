import Mathlib.Data.List.Nodup
import Mathlib.Logic.Function.Basic
import Workbench.Lib.TreeContext
import Workbench.Tree.Bst

/-!
# `Tree.BstMemory` — the nodes in memory

The nodes of a tree are in memory with their relatives, each one at its own address. The functions change a few
relatives; the rest of the tree stays as it is.

## Main results
* `Rep`, `Around` — the nodes of a tree, and the nodes around a hole;
* `rep_plug` — a tree in memory is a son and what is around it;
* `Around.setSon`, `Rep.setParent` — what the assignments change.
-/

namespace Workbench.Bst

open SearchTree

variable {α : Type}

/-- What is in memory. -/
abbrev Memory (α : Type) := Iter → Option (Node α)

def lookup (tree : Tree α) : Memory α := deref tree

def rootOf : BinaryTree (Nat × α) → Option Iter
  | .nil => none
  | .node e _ _ => some (.node e.1)

/-- The nodes of the tree are in memory, below the parent. -/
def Rep (M : Memory α) : Iter → BinaryTree (Nat × α) → Prop
  | _, .nil => True
  | parent, .node e l r => M (.node e.1) = some ⟨some e.2, some parent, rootOf l, rootOf r⟩ ∧
      Rep M (.node e.1) l ∧ Rep M (.node e.1) r

/-- The node that has the hole. -/
def holder : Context (Nat × α) → Iter
  | .root => .dummyRoot
  | .left e _ _ => .node e.1
  | .right e _ _ => .node e.1

/-- The nodes around the hole are in memory, and the one that has the hole has the son there. -/
def Around (M : Memory α) : Context (Nat × α) → Option Iter → Prop
  | .root, son => M .dummyRoot = some ⟨none, none, son, none⟩
  | .left e r above, son => M (.node e.1) = some ⟨some e.2, some (holder above), son, rootOf r⟩ ∧
      Rep M (.node e.1) r ∧ Around M above (some (.node e.1))
  | .right e l above, son => M (.node e.1) = some ⟨some e.2, some (holder above), rootOf l, son⟩ ∧
      Rep M (.node e.1) l ∧ Around M above (some (.node e.1))

/-- The memory has the tree. -/
def Shape (M : Memory α) (t : BinaryTree (Nat × α)) : Prop := Around M .root (rootOf t) ∧ Rep M .dummyRoot t

variable {M M' : Memory α} {t l r : BinaryTree (Nat × α)} {context : Context (Nat × α)} {e : Nat × α}
  {son : Option Iter} {parent iter : Iter} {node : Node α}

/-- **The tree in memory** is a son and what is around it. -/
theorem shape_plug : Shape M (plug context t) ↔ Around M context (rootOf t) ∧ Rep M (holder context) t := by
  induction context generalizing t with
  | root => exact Iff.rfl
  | left e r above ih =>
      refine ih.trans ⟨?_, ?_⟩
      · rintro ⟨habove, hnode, hl, hr⟩
        exact ⟨⟨hnode, hr, habove⟩, hl⟩
      · rintro ⟨⟨hnode, hr, habove⟩, hl⟩
        exact ⟨habove, hnode, hl, hr⟩
  | right e l above ih =>
      refine ih.trans ⟨?_, ?_⟩
      · rintro ⟨habove, hnode, hl, hr⟩
        exact ⟨⟨hnode, hl, habove⟩, hr⟩
      · rintro ⟨⟨hnode, hl, habove⟩, hr⟩
        exact ⟨habove, hnode, hl, hr⟩

/-! ## Frames -/

theorem Rep.congr (h : Rep M parent t) (hsame : ∀ e ∈ inorder t, M' (.node e.1) = M (.node e.1)) :
    Rep M' parent t := by
  induction t generalizing parent with
  | nil => trivial
  | node e l r ihl ihr =>
      obtain ⟨hnode, hl, hr⟩ := h
      refine ⟨?_, ihl hl fun e he => ?_, ihr hr fun e he => ?_⟩
      · rw [hsame e (by simp), hnode]
      · exact hsame e (List.mem_append_left _ he)
      · exact hsame e (List.mem_append_right _ (List.mem_cons_of_mem _ he))

theorem Around.congr (h : Around M context son) (hdummy : M' .dummyRoot = M .dummyRoot)
    (hsame : ∀ e ∈ before context ++ after context, M' (.node e.1) = M (.node e.1)) : Around M' context son := by
  induction context generalizing son with
  | root => exact hdummy.trans h
  | left e r above ih =>
      obtain ⟨hnode, hr, habove⟩ := h
      refine ⟨?_, hr.congr fun u hu => hsame u ?_, ih habove fun u hu => hsame u ?_⟩
      · rw [hsame e (by simp [after]), hnode]
      · simp [after, hu]
      · rcases List.mem_append.mp hu with hu | hu
        · simp [before, hu]
        · simp [after, hu]
  | right e l above ih =>
      obtain ⟨hnode, hl, habove⟩ := h
      refine ⟨?_, hl.congr fun u hu => hsame u ?_, ih habove fun u hu => hsame u ?_⟩
      · rw [hsame e (by simp [before]), hnode]
      · simp [before, hu]
      · rcases List.mem_append.mp hu with hu | hu
        · simp [before, hu]
        · simp [after, hu]

/-- The node with another son in the hole. -/
def withSon (context : Context (Nat × α)) (node : Node α) (son : Option Iter) : Node α :=
  match context with
  | .right _ _ _ => { node with right := son }
  | _ => { node with left := son }

theorem Rep.update (h : Rep M parent t) (hne : ∀ e ∈ inorder t, Iter.node e.1 ≠ iter) (v : Option (Node α)) :
    Rep (Function.update M iter v) parent t :=
  h.congr fun e he => Function.update_of_ne (hne e he) v M

theorem Around.update (h : Around M context son) (hdummy : .dummyRoot ≠ iter)
    (hne : ∀ e ∈ before context ++ after context, Iter.node e.1 ≠ iter) (v : Option (Node α)) :
    Around (Function.update M iter v) context son :=
  h.congr (Function.update_of_ne hdummy v M) fun e he => Function.update_of_ne (hne e he) v M

/-- Addresses of the nodes. -/
def addresses (nodes : List (Nat × α)) : List Nat := nodes.map Prod.fst

theorem apart {as bs : List (Nat × α)} {u : Nat × α} (h : (addresses (as ++ e :: bs)).Nodup) (hu : u ∈ as ++ bs) :
    Iter.node u.1 ≠ .node e.1 := by
  unfold addresses at h
  rw [List.map_append, List.map_cons, List.nodup_middle, List.nodup_cons, ← List.map_append] at h
  intro heq
  exact h.1 (List.mem_map.mpr ⟨u, hu, Iter.node.inj heq⟩)

/-- **The hole gets another son.** -/
theorem Around.setSon (h : Around M context son) (hnodup : (addresses (before context ++ after context)).Nodup)
    (hholder : M (holder context) = some node) (son' : Option Iter) :
    Around (Function.update M (holder context) (some (withSon context node son'))) context son' := by
  cases context with
  | root =>
      have hnode : M .dummyRoot = some ⟨none, none, son, none⟩ := h
      obtain rfl := Option.some.inj (hholder.symm.trans hnode)
      exact Function.update_self _ _ _
  | left e r above =>
      obtain ⟨hnode, hr, habove⟩ := h
      obtain rfl := Option.some.inj (hholder.symm.trans hnode)
      have hnodup' : (addresses (before above ++ e :: (inorder r ++ after above))).Nodup := hnodup
      refine ⟨Function.update_self _ _ _, hr.update (fun u hu => apart hnodup' ?_) _,
        habove.update (fun h => Iter.noConfusion h) (fun u hu => apart hnodup' ?_) _⟩
      · simp [hu]
      · rcases List.mem_append.mp hu with hu | hu <;> simp [hu]
  | right e l above =>
      obtain ⟨hnode, hl, habove⟩ := h
      obtain rfl := Option.some.inj (hholder.symm.trans hnode)
      have hnodup' : (addresses (before above ++ inorder l ++ e :: after above)).Nodup := by
        simpa [before, after] using hnodup
      refine ⟨Function.update_self _ _ _, hl.update (fun u hu => apart hnodup' ?_) _,
        habove.update (fun h => Iter.noConfusion h) (fun u hu => apart hnodup' ?_) _⟩
      · simp [hu]
      · rcases List.mem_append.mp hu with hu | hu <;> simp [hu]

/-- **The root of a subtree gets another parent.** -/
theorem Rep.setParent (h : Rep M parent (.node e l r)) (hnodup : (addresses (inorder (.node e l r))).Nodup)
    (hnode : M (.node e.1) = some node) (parent' : Iter) :
    Rep (Function.update M (.node e.1) (some { node with parent := some parent' })) parent' (.node e l r) := by
  obtain ⟨hroot, hl, hr⟩ := h
  obtain rfl := Option.some.inj (hnode.symm.trans hroot)
  have hnodup' : (addresses (inorder l ++ e :: inorder r)).Nodup := hnodup
  refine ⟨Function.update_self _ _ _, hl.update (fun u hu => apart hnodup' ?_) _,
    hr.update (fun u hu => apart hnodup' ?_) _⟩
  · exact List.mem_append_left _ hu
  · exact List.mem_append_right _ hu

end Workbench.Bst
