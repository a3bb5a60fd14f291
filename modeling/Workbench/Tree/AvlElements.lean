import Mathlib.Logic.Function.Iterate
import Workbench.Lib.SearchTree
import Workbench.Lib.System
import Workbench.Tree.Avl

/-!
# `Tree.AvlElements` — what insertion and removal do to the elements of the AVL tree

Rotations leave the elements where they are, from left to right; an insertion adds one, unlinking a node deletes one.

## Main results
* `Rebalanced` — the five ways of rebalancing a node;
* `balancedInsert_elements`, `removeNode_deletes` — insertion adds, and unlinking a node deletes one element;
* `findToRemove_eq` — a removal is a search, an unlinking, and one rebalancing for each node that was passed;
* `locate_below`, `locate_absent` — where the search ends;
* `rebalances_iff` — when rebalancing returns.
-/

namespace Workbench.Avl

open SearchTree

variable {α : Type} {compare : α → α → Int} {t t' l r l' r' : Node α} {e : Entry α} {d x : α}

/-- The elements from left to right. -/
def elements (t : Node α) : List α := keys Entry.data t

@[simp] theorem elements_nil : elements (.nil : Node α) = [] := rfl

@[simp] theorem elements_node (e : Entry α) (l r : Node α) :
    elements (.node e l r) = elements l ++ e.data :: elements r := rfl

/-- The comparator is a total preorder: `compare a b` is positive if `a` is greater than `b`, and 0 if they are
    equal. -/
structure TotalPreorder (compare : α → α → Int) : Prop where
  swap : ∀ a b, 0 < compare a b ↔ compare b a < 0
  trans : ∀ a b c, compare a b ≤ 0 → compare b c ≤ 0 → compare a c ≤ 0

/-- The order of the elements. -/
abbrev Sorted (compare : α → α → Int) (t : Node α) : Prop := Ordered Entry.data (fun a b => compare a b ≤ 0) t

theorem TotalPreorder.le_swap (h : TotalPreorder compare) {a b : α} (hle : 0 ≤ compare a b) : compare b a ≤ 0 := by
  have hswap := h.swap b a
  omega

/-! ## Rebalancing -/

theorem nodeHeigth_eq (t : Node α) : nodeHeigth t = t.height := by
  induction t with
  | nil => rfl
  | node e l r ihl ihr =>
      have hsplit : nodeHeigth (.node e l r) =
          if 1 + nodeHeigth l > 1 + nodeHeigth r then 1 + nodeHeigth l else 1 + nodeHeigth r := by
        cases l <;> cases r <;> rfl
      rw [hsplit, ihl, ihr, BinaryTree.height]
      split <;> omega

/-- The five ways. A node that is not moved gets its balance factor. -/
inductive Rebalanced : Node α → Node α → Prop
  | keep {e e' : Entry α} {l r : Node α} : l.height ≤ r.height + 1 → r.height ≤ l.height + 1 →
      e'.data = e.data → e'.height = (l.height : Int) - r.height → Rebalanced (.node e l r) (.node e' l r)
  | leftLeft {e e' el el' : Entry α} {ll lr r : Node α} : r.height + 1 < (BinaryTree.node el ll lr).height →
      -1 < el.height → e'.data = e.data → el'.data = el.data →
      Rebalanced (.node e (.node el ll lr) r) (.node el' ll (.node e' lr r))
  | leftRight {e e' el el' em em' : Entry α} {ll ml mr r : Node α} :
      r.height + 1 < (BinaryTree.node el ll (.node em ml mr)).height →
      el.height ≤ -1 → e'.data = e.data → el'.data = el.data → em'.data = em.data →
      Rebalanced (.node e (.node el ll (.node em ml mr)) r) (.node em' (.node el' ll ml) (.node e' mr r))
  | rightRight {e e' er er' : Entry α} {l rl rr : Node α} : l.height + 1 < (BinaryTree.node er rl rr).height →
      er.height < 1 → e'.data = e.data → er'.data = er.data →
      Rebalanced (.node e l (.node er rl rr)) (.node er' (.node e' l rl) rr)
  | rightLeft {e e' er er' em em' : Entry α} {l ml mr rr : Node α} :
      l.height + 1 < (BinaryTree.node er (.node em ml mr) rr).height →
      1 ≤ er.height → e'.data = e.data → er'.data = er.data → em'.data = em.data →
      Rebalanced (.node e l (.node er (.node em ml mr) rr)) (.node em' (.node e' l ml) (.node er' mr rr))

/-- The field of a node. -/
def stored : Node α → Int
  | .nil => 0
  | .node e _ _ => e.height

/-- A son that is too tall says in its field that its inner son is the taller one, and has no inner son. -/
def Misled : Node α → Prop
  | .nil => False
  | .node _ l r =>
      r.height + 1 < l.height ∧ stored l ≤ -1 ∧ l.right.height = 0 ∨
        l.height + 1 < r.height ∧ 1 ≤ stored r ∧ r.left.height = 0

theorem rebalance_node : rebalance (.node e l r) =
    balanceTreeIfNeeded (.node { e with height := (l.height : Int) - (r.height : Int) } l r) := by
  rw [rebalance, updateHeight, nodeHeigth_eq, nodeHeigth_eq, Option.bind_eq_bind, Option.bind_some]

theorem rebalance_keep (hl : l.height ≤ r.height + 1) (hr : r.height ≤ l.height + 1) :
    rebalance (.node e l r) = some (.node { e with height := (l.height : Int) - (r.height : Int) } l r) := by
  rw [rebalance_node, balanceTreeIfNeeded, if_neg (by simp only; omega), if_neg (by simp only; omega)]

/-- A node that is too tall on the left. -/
theorem rebalance_left (h : r.height + 1 < l.height) :
    (∃ t', rebalance (.node e l r) = some t' ∧ Rebalanced (.node e l r) t') ∨
      rebalance (.node e l r) = none ∧ stored l ≤ -1 ∧ l.right.height = 0 := by
  obtain ⟨el, ll, lr, rfl⟩ := eq_node_of_height (show 0 < l.height by omega)
  rw [rebalance_node, balanceTreeIfNeeded, if_pos (by simp only; omega)]
  simp only [height, Option.bind_eq_bind, Option.bind_some]
  by_cases hfield : -1 < el.height
  · left
    exact ⟨_, if_pos hfield, .leftLeft h hfield rfl rfl⟩
  · -- the left son is rotated first
    have hleft : stored (.node el ll lr) ≤ -1 := Int.not_lt.mp hfield
    cases lr with
    | nil => exact .inr ⟨if_neg hfield, hleft, rfl⟩
    | node em ml mr =>
        left
        exact ⟨_, if_neg hfield, .leftRight h hleft rfl rfl rfl⟩

/-- A node that is too tall on the right. -/
theorem rebalance_right (h : l.height + 1 < r.height) :
    (∃ t', rebalance (.node e l r) = some t' ∧ Rebalanced (.node e l r) t') ∨
      rebalance (.node e l r) = none ∧ 1 ≤ stored r ∧ r.left.height = 0 := by
  obtain ⟨er, rl, rr, rfl⟩ := eq_node_of_height (show 0 < r.height by omega)
  rw [rebalance_node, balanceTreeIfNeeded, if_neg (by simp only; omega), if_pos (by simp only; omega)]
  simp only [height, Option.bind_eq_bind, Option.bind_some]
  by_cases hfield : 1 > er.height
  · left
    exact ⟨_, if_pos hfield, .rightRight h hfield rfl rfl⟩
  · have hright : 1 ≤ stored (.node er rl rr) := Int.not_lt.mp hfield
    cases rl with
    | nil => exact .inr ⟨if_neg hfield, hright, rfl⟩
    | node em ml mr =>
        left
        exact ⟨_, if_neg hfield, .rightLeft h hright rfl rfl rfl⟩

theorem Rebalanced.not_misled (h : Rebalanced t t') : ¬ Misled t := by
  cases h with
  | keep hl hr => rintro (⟨hlt, -⟩ | ⟨hlt, -⟩) <;> omega
  | leftLeft hlt hfield =>
      rintro (⟨-, hle, -⟩ | ⟨hlt', -⟩)
      · exact Int.not_le.mpr hfield hle
      · omega
  | leftRight hlt hfield =>
      rintro (⟨-, -, hnil⟩ | ⟨hlt', -⟩)
      · exact absurd hnil (Nat.succ_ne_zero _)
      · omega
  | rightRight hlt hfield =>
      rintro (⟨hlt', -⟩ | ⟨-, hle, -⟩)
      · omega
      · exact Int.not_le.mpr hfield hle
  | rightLeft hlt hfield =>
      rintro (⟨hlt', -⟩ | ⟨-, -, hnil⟩)
      · omega
      · exact absurd hnil (Nat.succ_ne_zero _)

/-- **Rebalancing a node** goes one of the five ways, or dereferences `NULL`. -/
theorem rebalance_spec (e : Entry α) (l r : Node α) :
    (∃ t', rebalance (.node e l r) = some t' ∧ Rebalanced (.node e l r) t') ∨
      rebalance (.node e l r) = none ∧ Misled (.node e l r) := by
  by_cases hl : r.height + 1 < l.height
  · rcases rebalance_left (e := e) hl with h | ⟨hnone, hfield, hnil⟩
    · exact .inl h
    · exact .inr ⟨hnone, .inl ⟨hl, hfield, hnil⟩⟩
  · -- neither side is too tall: the node stays where it is
    by_cases hr : l.height + 1 < r.height
    · rcases rebalance_right (e := e) hr with h | ⟨hnone, hfield, hnil⟩
      · exact .inl h
      · exact .inr ⟨hnone, .inr ⟨hr, hfield, hnil⟩⟩
    · exact .inl ⟨_, rebalance_keep (Nat.not_lt.mp hl) (Nat.not_lt.mp hr),
        .keep (Nat.not_lt.mp hl) (Nat.not_lt.mp hr) rfl rfl⟩

theorem rebalanced_of_rebalance (h : rebalance t = some t') : Rebalanced t t' := by
  cases t with
  | nil => cases h
  | node e l r =>
      rcases rebalance_spec e l r with ⟨t'', hsome, hreb⟩ | ⟨hnone, -⟩
      · cases hsome.symm.trans h
        exact hreb
      · cases hnone.symm.trans h

theorem rebalance_of_not_misled (h : ¬ Misled (.node e l r)) :
    ∃ t', rebalance (.node e l r) = some t' ∧ Rebalanced (.node e l r) t' := by
  rcases rebalance_spec e l r with hsome | ⟨-, hmisled⟩
  · exact hsome
  · exact absurd hmisled h

/-- Rotations leave the elements where they are, from left to right. -/
theorem Rebalanced.elements (h : Rebalanced t t') : elements t' = elements t := by
  cases h with
  | keep _ _ he => simp only [elements_node, he]
  | leftLeft _ _ he hel => simp only [elements_node, he, hel, List.append_assoc, List.cons_append]
  | leftRight _ _ he hel hem => simp only [elements_node, he, hel, hem, List.append_assoc, List.cons_append]
  | rightRight _ _ he her => simp only [elements_node, he, her, List.append_assoc, List.cons_append]
  | rightLeft _ _ he her hem => simp only [elements_node, he, her, hem, List.append_assoc, List.cons_append]

theorem Rebalanced.ne_nil (h : Rebalanced t t') : t' ≠ .nil := by
  cases h <;> nofun

theorem rebalance_elements (h : rebalance t = some t') : elements t' = elements t :=
  (rebalanced_of_rebalance h).elements

/-! ## Insertion -/

theorem getDirection_left (h : 0 < compare x d) : getDirection compare x d = .left := if_pos h

theorem getDirection_right (h : ¬ 0 < compare x d) : getDirection compare x d = .right := if_neg h

/-- The elements `ys` are `xs` with `d` right after the last one that is not greater. -/
def InsertedAfter (compare : α → α → Int) (d : α) (xs ys : List α) : Prop :=
  ∃ as bs, xs = as ++ bs ∧ ys = as ++ d :: bs ∧ (∀ a ∈ as, compare a d ≤ 0) ∧ ∀ b ∈ bs, 0 < compare b d

/-- **Insertion** puts the element between those that are at most it and those that are greater. -/
theorem balancedInsert_elements (hc : TotalPreorder compare) (ht : Sorted compare t)
    (h : balancedInsert compare d t = some t') : InsertedAfter compare d (elements t) (elements t') := by
  induction t generalizing t' with
  | nil =>
      cases h
      exact ⟨[], [], rfl, rfl, nofun, nofun⟩
  | node e l r ihl ihr =>
      -- the element goes to the left, with the root behind it; or to the right, with the root before
      by_cases hside : 0 < compare e.data d
      · rw [balancedInsert, getDirection_left hside] at h
        obtain ⟨l', hl', hreb⟩ := Option.bind_eq_some_iff.mp h
        obtain ⟨as, bs, hold, hnew, has, hbs⟩ := ihl ht.left hl'
        refine ⟨as, bs ++ e.data :: elements r, ?_, ?_, has, ?_⟩
        · rw [elements_node, hold, List.append_assoc]
        · rw [rebalance_elements hreb, elements_node, hnew, List.append_assoc, List.cons_append]
        · intro b hb
          rcases List.mem_append.mp hb with hb | hb
          · exact hbs b hb
          · rcases List.mem_cons.mp hb with rfl | hb
            · exact hside
            · -- what is to the right is greater, as the root is
              by_contra hle
              have hed := hc.trans _ _ _ (ht.le_right hb) (Int.not_lt.mp hle)
              omega
      · rw [balancedInsert, getDirection_right hside] at h
        obtain ⟨r', hr', hreb⟩ := Option.bind_eq_some_iff.mp h
        obtain ⟨as, bs, hold, hnew, has, hbs⟩ := ihr ht.right hr'
        have hed : compare e.data d ≤ 0 := Int.not_lt.mp hside
        refine ⟨elements l ++ e.data :: as, bs, ?_, ?_, ?_, hbs⟩
        · rw [elements_node, hold, List.append_assoc, List.cons_append]
        · rw [rebalance_elements hreb, elements_node, hnew, List.append_assoc, List.cons_append]
        · intro a ha
          rcases List.mem_append.mp ha with ha | ha
          · exact hc.trans _ _ _ (ht.left_le ha) hed
          · rcases List.mem_cons.mp ha with rfl | ha
            · exact hed
            · exact has a ha

theorem avlInsert_sorted (hc : TotalPreorder compare) (ht : Sorted compare t) (h : avlInsert compare t d = some t') :
    Sorted compare t' := by
  obtain ⟨as, bs, hold, hnew, has, hbs⟩ := balancedInsert_elements hc ht h
  unfold Sorted Ordered at ht ⊢
  rw [show keys Entry.data t = as ++ bs from hold] at ht
  rw [show keys Entry.data t' = as ++ d :: bs from hnew]
  exact pairwise_insert ht has fun b hb => hc.le_swap (Int.le_of_lt (hbs b hb))

/-! ## Unlinking a node -/

theorem mostLeftNode_elements (e : Entry α) (l r : Node α) :
    elements (.node e l r) = (mostLeftNode e l r).1 :: elements (mostLeftNode e l r).2 := by
  induction l generalizing e r with
  | nil => rfl
  | node el ll lr ihl _ => rw [elements_node, ihl, mostLeftNode, elements_node, List.cons_append]

theorem takeNext_elements (e : Entry α) (l : Node α) (er : Entry α) (rl rr : Node α) :
    elements (takeNext (.node e l (.node er rl rr))) = elements l ++ elements (.node er rl rr) := by
  rw [takeNext, elements_node, mostLeftNode_elements er rl rr]

/-- The root is removed, and nothing else. -/
theorem removeRoot_deletes (e : Entry α) (l r : Node α) :
    Deletes e.data (elements (.node e l r)) (elements (removeRoot (.node e l r))) := by
  refine ⟨elements l, elements r, rfl, ?_⟩
  cases l with
  | nil =>
      cases r with
      | nil => rfl
      | node er rl rr => rfl
  | node el ll lr =>
      cases r with
      | nil => exact (List.append_nil _).symm
      | node er rl rr => exact takeNext_elements ..

/-- The son is removed, and nothing else. -/
theorem removeNode_deletes {p : Node α} {s : Direction} {e : Entry α} {l r : Node α}
    (h : relative p s = .node e l r) : Deletes e.data (elements p) (elements (removeNode p s)) := by
  -- what takes the place of the son
  have hson : ∃ son, removeNode p s = setRelative p s son ∧ elements son = elements l ++ elements r := by
    unfold removeNode
    rw [h]
    cases l with
    | nil =>
        cases r with
        | nil => exact ⟨.nil, rfl, rfl⟩
        | node er rl rr => exact ⟨.node er rl rr, rfl, rfl⟩
    | node el ll lr =>
        cases r with
        | nil => exact ⟨.node el ll lr, rfl, (List.append_nil _).symm⟩
        | node er rl rr => exact ⟨_, rfl, takeNext_elements ..⟩
  obtain ⟨son, hremove, helements⟩ := hson
  -- the elements around the son stay where they are
  have hnode : Deletes e.data (elements (.node e l r)) (elements son) := ⟨_, _, rfl, helements⟩
  rw [hremove]
  cases p with
  | nil => cases s <;> cases h
  | node ep pl pr =>
      cases s with
      | left =>
          obtain rfl : pl = .node e l r := h
          exact hnode.append _
      | right =>
          obtain rfl : pr = .node e l r := h
          exact (hnode.prepend [ep.data]).prepend _

theorem removeNode_ne_nil {p : Node α} {s : Direction} (h : p ≠ .nil) : removeNode p s ≠ .nil := by
  cases p with
  | nil => exact absurd rfl h
  | node e l r =>
      unfold removeNode
      cases s <;> split <;> nofun

/-! ## The search -/

/-- How a search ends: nothing is found, or a son of a node; with the number of nodes that were passed. -/
inductive Search (α : Type)
  | absent (passed : Nat)
  | found (parent : Node α) (direction : Direction) (passed : Nat)

/-- One more node is passed. -/
def Search.pass : Search α → Search α
  | .absent k => .absent (k + 1)
  | .found p s k => .found p s (k + 1)

def Search.passed : Search α → Nat
  | .absent k => k
  | .found _ _ k => k

/-- The node that `FindToRemove` gives back at the end of the path. -/
def Search.result (root : Node α) : Search α → Node α
  | .absent _ => root
  | .found p s _ => removeNode p s

/-- The way that `FindToRemove` takes. -/
def locate (compare : α → α → Int) (data : α) : Node α → Node α → Direction → Search α
  | .nil, _, _ => .absent 0
  | .node e l r, parent, direction =>
      if compare e.data data = 0 then
        .found parent direction 0
      else
        match getDirection compare e.data data with
        | .left => (locate compare data l (.node e l r) .left).pass
        | .right => (locate compare data r (.node e l r) .right).pass

/-- A node is rebalanced again and again. -/
def rebalances : Nat → Node α → Option (Node α)
  | 0, node => some node
  | k + 1, node => rebalances k node >>= rebalance

theorem Search.pass_passed (found : Search α) : found.pass.passed = found.passed + 1 := by
  cases found <;> rfl

theorem Search.pass_result (root : Node α) (found : Search α) : found.pass.result root = found.result root := by
  cases found <;> rfl

variable {root node parent p : Node α} {s direction : Direction} {k : Nat}

theorem locate_node : locate compare d (.node e l r) parent direction =
    if compare e.data d = 0 then
      .found parent direction 0
    else
      (locate compare d (relative (.node e l r) (getDirection compare e.data d)) (.node e l r)
        (getDirection compare e.data d)).pass := by
  rw [locate]
  cases getDirection compare e.data d <;> rfl

theorem findToRemove_node : findToRemove compare root d (.node e l r) parent direction =
    if compare e.data d = 0 then
      some (removeNode parent direction)
    else
      findToRemove compare root d (relative (.node e l r) (getDirection compare e.data d)) (.node e l r)
        (getDirection compare e.data d) >>= rebalance := by
  rw [findToRemove]
  cases getDirection compare e.data d <;> rfl

/-- **A removal** searches, unlinks what is found, and rebalances what it gives back once for each node passed. -/
theorem findToRemove_eq :
    findToRemove compare root d node parent direction =
      rebalances (locate compare d node parent direction).passed
        ((locate compare d node parent direction).result root) := by
  induction node generalizing parent direction with
  | nil => rfl
  -- a node that is passed is one more that is rebalanced on the way up
  | node e l r ihl ihr =>
      rw [findToRemove_node, locate_node]
      by_cases heq : compare e.data d = 0
      · rw [if_pos heq, if_pos heq]
        rfl
      · rw [if_neg heq, if_neg heq, Search.pass_passed, Search.pass_result]
        cases getDirection compare e.data d with
        | left =>
            rw [relative, BinaryTree.left, ihl]
            rfl
        | right =>
            rw [relative, BinaryTree.right, ihr]
            rfl

/-- What is found is here, or the search goes on at a son. -/
theorem locate_found (h : locate compare d (.node e l r) parent direction = .found p s k) :
    (compare e.data d = 0 ∧ p = parent ∧ s = direction ∧ k = 0) ∨
      ∃ side k', k = k' + 1 ∧ compare e.data d ≠ 0 ∧
        locate compare d (relative (.node e l r) side) (.node e l r) side = .found p s k' := by
  rw [locate_node] at h
  by_cases heq : compare e.data d = 0
  · rw [if_pos heq] at h
    cases h
    exact .inl ⟨heq, rfl, rfl, rfl⟩
  · rw [if_neg heq] at h
    right
    cases hson : locate compare d (relative (.node e l r) (getDirection compare e.data d)) (.node e l r)
        (getDirection compare e.data d) with
    | absent k' =>
        rw [hson] at h
        cases h
    | found p' s' k' =>
        rw [hson] at h
        cases h
        exact ⟨_, k', rfl, heq, hson⟩

/-- What is found is equal to what is searched. -/
theorem locate_equal (h : locate compare d node parent direction = .found p s k)
    (hrelative : relative parent direction = node) :
    ∃ e l r, relative p s = .node e l r ∧ compare e.data d = 0 := by
  induction node generalizing parent direction k with
  | nil => cases h
  | node e l r ihl ihr =>
      rcases locate_found h with ⟨heq, rfl, rfl, -⟩ | ⟨side, k', -, -, hson⟩
      · exact ⟨e, l, r, hrelative, heq⟩
      · cases side with
        | left => exact ihl hson rfl
        | right => exact ihr hson rfl

/-- Where the parent is: after no node it is the parent of the start, after one it is the start, and after more it is
    below the start. -/
def Below (node parent p : Node α) (direction s : Direction) : Nat → Prop
  | 0 => p = parent ∧ s = direction
  | 1 => p = node
  | _ + 2 => (elements p).Sublist (elements node) ∧ p.numNodes < node.numNodes

theorem relative_sublist (node : Node α) (side : Direction) :
    (elements (relative node side)).Sublist (elements node) := by
  cases node with
  | nil => cases side <;> exact List.Sublist.refl _
  | node e l r =>
      cases side with
      | left => exact List.sublist_append_left _ _
      | right => exact (List.sublist_cons_self _ _).trans (List.sublist_append_right _ _)

theorem relative_numNodes (side : Direction) :
    (relative (.node e l r) side).numNodes < (BinaryTree.node e l r).numNodes := by
  cases side with
  | left =>
      show l.numNodes < l.numNodes + r.numNodes + 1
      omega
  | right =>
      show r.numNodes < l.numNodes + r.numNodes + 1
      omega

theorem locate_below (h : locate compare d node parent direction = .found p s k) :
    Below node parent p direction s k := by
  induction node generalizing parent direction k with
  | nil => cases h
  | node e l r ihl ihr =>
      rcases locate_found h with ⟨-, hp, hs, rfl⟩ | ⟨side, k', rfl, -, hson⟩
      · exact ⟨hp, hs⟩
      · have hbelow : Below (relative (.node e l r) side) (.node e l r) p side s k' := by
          cases side with
          | left => exact ihl hson
          | right => exact ihr hson
        have hsub := relative_sublist (.node e l r) side
        have hlt := relative_numNodes (e := e) (l := l) (r := r) side
        -- one node more: the start, a son of it, or further down
        rcases k' with _ | _ | k'
        · exact hbelow.1
        · obtain rfl : p = relative (.node e l r) side := hbelow
          exact ⟨hsub, hlt⟩
        · exact ⟨hbelow.1.trans hsub, Nat.lt_trans hbelow.2 hlt⟩

/-- **A search that finds nothing**: the elements are in order, so there is nothing on the other sides. -/
theorem locate_absent (hc : TotalPreorder compare) (ht : Sorted compare node)
    (h : locate compare d node parent direction = .absent k) : ∀ x ∈ elements node, compare x d ≠ 0 := by
  induction node generalizing parent direction k with
  | nil => nofun
  | node e l r ihl ihr =>
      rw [locate_node] at h
      by_cases heq : compare e.data d = 0
      · rw [if_pos heq] at h
        cases h
      rw [if_neg heq] at h
      intro x hx hxd
      have hdx : compare d x ≤ 0 := hc.le_swap (Int.le_of_eq hxd.symm)
      rw [elements_node, List.mem_append, List.mem_cons] at hx
      by_cases hside : 0 < compare e.data d
      · rw [getDirection_left hside] at h
        cases hson : locate compare d l (.node e l r) .left with
        | found p' s' k' =>
            rw [relative, BinaryTree.left, hson] at h
            cases h
        | absent k' =>
            rcases hx with hx | rfl | hx
            · exact ihl ht.left hson x hx hxd
            · exact heq hxd
            · -- what is to the right is greater than `d`
              have hle := hc.trans _ _ _ (ht.le_right hx) (Int.le_of_eq hxd)
              omega
      · rw [getDirection_right hside] at h
        cases hson : locate compare d r (.node e l r) .right with
        | found p' s' k' =>
            rw [relative, BinaryTree.right, hson] at h
            cases h
        | absent k' =>
            rcases hx with hx | rfl | hx
            · have hle := hc.trans _ _ _ hdx (ht.left_le hx)
              have hlt := (hc.swap d e.data).mpr (by omega)
              omega
            · exact heq hxd
            · exact ihr ht.right hson x hx hxd

/-! ## Rebalancing again and again -/

theorem rebalances_elements (h : rebalances k t = some t') : elements t' = elements t := by
  induction k generalizing t' with
  | zero =>
      cases h
      rfl
  | succ k ih =>
      obtain ⟨t'', hk, hreb⟩ := Option.bind_eq_some_iff.mp h
      exact (rebalance_elements hreb).trans (ih hk)

/-- The node after it was rebalanced. -/
def settle (node : Node α) : Node α := (rebalance node).getD node

theorem rebalances_eq (ht : t ≠ .nil) (h : ∀ j < k, ¬ Misled (settle^[j] t)) :
    rebalances k t = some (settle^[k] t) ∧ settle^[k] t ≠ .nil := by
  induction k with
  | zero => exact ⟨rfl, ht⟩
  | succ k ih =>
      obtain ⟨hk, hne⟩ := ih fun j hj => h j (Nat.lt_succ_of_lt hj)
      have hnot := h k (Nat.lt_succ_self k)
      rw [Function.iterate_succ_apply', rebalances, hk]
      generalize settle^[k] t = u at hne hnot
      cases u with
      | nil => exact absurd rfl hne
      | node e l r =>
          obtain ⟨t', hreb, hshape⟩ := rebalance_of_not_misled hnot
          have hsettle : settle (.node e l r) = t' := by
            unfold settle
            rw [hreb]
            rfl
          rw [hsettle]
          exact ⟨hreb, hshape.ne_nil⟩

/-- **Rebalancing again and again** returns exactly if no inner son is missing on the way. -/
theorem rebalances_iff (ht : t ≠ .nil) :
    (∃ t', rebalances k t = some t') ↔ ∀ j < k, ¬ Misled (settle^[j] t) := by
  constructor
  · -- each rebalancing has returned, so the node before it was not misled
    rintro ⟨t', h⟩
    induction k generalizing t' with
    | zero => exact fun j hj => absurd hj (Nat.not_lt_zero j)
    | succ k ih =>
        obtain ⟨t'', hk, hreb⟩ := Option.bind_eq_some_iff.mp h
        have hbefore := ih t'' hk
        intro j hj
        rcases Nat.lt_or_eq_of_le (Nat.lt_succ_iff.mp hj) with hlt | rfl
        · exact hbefore j hlt
        · have heq := (rebalances_eq ht hbefore).1.symm.trans hk
          cases heq
          exact (rebalanced_of_rebalance hreb).not_misled
  · intro h
    exact ⟨_, (rebalances_eq ht h).1⟩

end Workbench.Avl
