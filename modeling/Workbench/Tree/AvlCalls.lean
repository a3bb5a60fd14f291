import Workbench.Tree.AvlBalance

/-!
# `Tree.AvlCalls` — what `AVLInsert` and `AVLFind` return

An insertion returns 1 and a balanced tree, if there is memory for the new node. If there is none, the `NULL` for the
new node is passed up to the root. A search returns the key that it was given.

## Main results
* `insert_succeeds` — an insertion with memory;
* `insert_fails_iff` — an insertion without memory leaves the empty tree alone, and no other;
* `find_iff` — for which keys `AVLFind` returns what is stored.
-/

namespace Workbench.Avl

open SearchTree

variable {α : Type} {compare : α → α → Int} {t t' node parent p : Node α} {d key null : α} {s direction : Direction}
  {k : Nat} {memory : Bool}

/-! ## Insertion -/

theorem balancedInsert_ne_nil (h : balancedInsert compare d t = some t') : t' ≠ .nil := by
  cases t with
  | nil =>
      cases h
      nofun
  | node e l r =>
      rw [balancedInsert] at h
      cases hside : getDirection compare e.data d with
      | left =>
          rw [hside] at h
          obtain ⟨l', -, hreb⟩ := Option.bind_eq_some_iff.mp h
          exact (rebalanced_of_rebalance hreb).ne_nil
      | right =>
          rw [hside] at h
          obtain ⟨r', -, hreb⟩ := Option.bind_eq_some_iff.mp h
          exact (rebalanced_of_rebalance hreb).ne_nil

/-- With memory, no subtree on the way becomes `NULL`. -/
theorem balancedInsertWith_true (t : Node α) :
    balancedInsertWith true compare d t = balancedInsert compare d t := by
  induction t with
  | nil => rfl
  | node e l r ihl ihr =>
      rw [balancedInsertWith, balancedInsert, ihl, ihr]
      cases getDirection compare e.data d with
      | left =>
          refine Option.bind_congr fun l' hl' => ?_
          cases l' with
          | nil => exact absurd rfl (balancedInsert_ne_nil hl')
          | node el ll lr => rfl
      | right =>
          refine Option.bind_congr fun r' hr' => ?_
          cases r' with
          | nil => exact absurd rfl (balancedInsert_ne_nil hr')
          | node er rl rr => rfl

/-- **Without memory**, every subtree on the way becomes `NULL`. -/
theorem balancedInsertWith_false (t : Node α) : balancedInsertWith false compare d t = some .nil := by
  induction t with
  | nil => rfl
  | node e l r ihl ihr =>
      rw [balancedInsertWith, ihl, ihr]
      cases getDirection compare e.data d <;> rfl

/-- **An insertion with memory** into a tree that is in order and balanced returns 1; the new tree has the element
    right after the last one that is not greater, and is balanced. -/
theorem insert_succeeds (hc : TotalPreorder compare) (ht : Sorted compare t) (hbalanced : Balanced t) (d : α) :
    ∃ t', avlInsertWith true compare t d = some (t', 1) ∧
      InsertedAfter compare d (elements t) (elements t') ∧ Balanced t' := by
  obtain ⟨t', hinsert, hbalanced', -⟩ : ∃ t', balancedInsert compare d t = some t' ∧ Balanced t' ∧ Grown t t' :=
    balancedInsert_balanced hbalanced
  refine ⟨t', ?_, balancedInsert_elements hc ht hinsert, hbalanced'⟩
  unfold avlInsertWith
  rw [balancedInsertWith_true, hinsert]
  cases t' with
  | nil => exact absurd rfl (balancedInsert_ne_nil hinsert)
  | node e l r => rfl

theorem insert_succeeds_sample : ∃ t', avlInsertWith true byValue sampleTree 2 = some (t', 1) ∧
    InsertedAfter byValue 2 [1, 2, 3] (elements t') ∧ Balanced t' := by
  have hsorted : Sorted byValue sampleTree := by
    show [(1 : Int), 2, 3].Pairwise fun a b => byValue a b ≤ 0
    decide
  exact insert_succeeds byValue_preorder hsorted (by simp [sampleTree]) 2

theorem avlInsertWith_false (t : Node α) : avlInsertWith false compare t d = some (.nil, 0) := by
  unfold avlInsertWith
  rw [balancedInsertWith_false]
  rfl

/-- **An insertion without memory** returns 0 and leaves the elements as they are exactly if there are none. -/
theorem insert_fails_iff (compare : α → α → Int) (t : Node α) (d : α) :
    (∃ t', avlInsertWith false compare t d = some (t', 0) ∧ elements t' = elements t) ↔ t = .nil := by
  rw [avlInsertWith_false]
  constructor
  · rintro ⟨t', hinsert, helements⟩
    cases hinsert
    cases t with
    | nil => rfl
    | node e l r => exact absurd helements.symm (List.append_ne_nil_of_right_ne_nil _ (List.cons_ne_nil _ _))
  · rintro rfl
    exact ⟨.nil, rfl, rfl⟩

/-- The tree of three elements is lost. -/
theorem insert_loses : ¬ ∃ t', avlInsertWith false byValue sampleTree 4 = some (t', 0) ∧
    elements t' = elements sampleTree := by
  rw [avlInsertWith_false]
  rintro ⟨t', hinsert, helements⟩
  cases hinsert
  cases helements

/-! ## Search -/

theorem locate_mem (h : locate compare d node parent direction = .found p s k) :
    ∃ x ∈ elements node, compare x d = 0 := by
  induction node generalizing parent direction k with
  | nil => cases h
  | node e l r ihl ihr =>
      rcases locate_found h with ⟨heq, -⟩ | ⟨side, k', -, -, hson⟩
      · exact ⟨e.data, by simp, heq⟩
      · cases side with
        | left =>
            obtain ⟨x, hx, hxd⟩ := ihl hson
            exact ⟨x, List.mem_append_left _ hx, hxd⟩
        | right =>
            obtain ⟨x, hx, hxd⟩ := ihr hson
            exact ⟨x, List.mem_append_right _ (List.mem_cons_of_mem _ hx), hxd⟩

/-- The exits at a leaf and at a missing son return what the call for the son returns. -/
theorem nodeFind_node {e : Entry α} {l r : Node α} : nodeFind compare null key (.node e l r) =
    if compare e.data key = 0 then key
    else nodeFind compare null key (relative (.node e l r) (getDirection compare e.data key)) := by
  rw [nodeFind]
  cases getDirection compare e.data key <;> cases l <;> cases r <;> rfl

/-- `AVLFind` takes the way of the search for a removal. -/
theorem nodeFind_eq (null : α) (node parent : Node α) (direction : Direction) : nodeFind compare null key node =
    match locate compare key node parent direction with
    | .absent _ => null
    | .found _ _ _ => key := by
  induction node generalizing parent direction with
  | nil => rfl
  | node e l r ihl ihr =>
      rw [nodeFind_node, locate_node]
      by_cases heq : compare e.data key = 0
      · rw [if_pos heq, if_pos heq]
      · rw [if_neg heq, if_neg heq]
        cases getDirection compare e.data key with
        | left =>
            rw [relative, BinaryTree.left, ihl (.node e l r) .left]
            cases locate compare key l (.node e l r) .left <;> rfl
        | right =>
            rw [relative, BinaryTree.right, ihr (.node e l r) .right]
            cases locate compare key r (.node e l r) .right <;> rfl

/-- What `AVLFind` should return: the data of a node that is equal to the key, and null exactly if there is none. -/
def Finds (compare : α → α → Int) (null : α) (t : Node α) (key : α) : Prop :=
  ((∃ x ∈ elements t, compare x key = 0) → ∃ x ∈ elements t, compare x key = 0 ∧ avlFind compare null t key = x) ∧
    (avlFind compare null t key = null ↔ ∀ x ∈ elements t, compare x key ≠ 0)

/-- **A search** returns what is stored if and only if nothing is equal to the key, or the key is itself stored and is
    not null. -/
theorem find_iff (hc : TotalPreorder compare) (h : (system compare).Reachable System.Any t) (null key : α) :
    Finds compare null t key ↔
      (∀ x ∈ elements t, compare x key ≠ 0) ∨ key ≠ null ∧ key ∈ elements t := by
  unfold Finds avlFind
  have hfind : nodeFind compare null key t = _ := nodeFind_eq null t .nil .left
  cases hloc : locate compare key t .nil .left with
  | absent k =>
      have hnone := locate_absent hc (reachable_sorted hc h) hloc
      rw [hloc] at hfind
      rw [hfind]
      refine iff_of_true ⟨?_, iff_of_true rfl hnone⟩ (.inl hnone)
      rintro ⟨x, hx, heq⟩
      exact absurd heq (hnone x hx)
  | found p s k =>
      obtain ⟨x, hx, heq⟩ := locate_mem hloc
      have hsome : ¬ ∀ x ∈ elements t, compare x key ≠ 0 := fun hnone => hnone x hx heq
      rw [hloc] at hfind
      rw [hfind, or_iff_right hsome, iff_false_right hsome]
      constructor
      · rintro ⟨hstored, hne⟩
        obtain ⟨y, hy, -, rfl⟩ := hstored ⟨x, hx, heq⟩
        exact ⟨hne, hy⟩
      · rintro ⟨hne, hmem⟩
        have hswap := hc.swap key key
        exact ⟨fun _ => ⟨key, hmem, by omega, rfl⟩, hne⟩

theorem find_sample : Finds byValue 0 sampleTree 3 := by
  refine (find_iff byValue_preorder reachable_sample 0 3).mpr (.inr ⟨by decide, ?_⟩)
  show 3 ∈ [(1 : Int), 2, 3]
  decide

/-- Records with a number, which the comparator looks at, and a name. -/
def byNumber (a b : Int × Int) : Int := a.1 - b.1

/-- A record without its name finds itself. -/
theorem finds_key : TotalPreorder byNumber ∧
    ∃ t, (system byNumber).Reachable System.Any t ∧ ¬ Finds byNumber (0, 0) t (1, 0) := by
  have hnumber : TotalPreorder byNumber := by
    unfold byNumber
    exact ⟨fun a b => by omega, fun a b c => by omega⟩
  refine ⟨hnumber, .node ⟨(1, 7), 0⟩ .nil .nil, .step (a := .insert (1, 7)) (.init rfl) trivial rfl, ?_⟩
  rintro ⟨hstored, -⟩
  obtain ⟨x, hx, -, heq⟩ := hstored ⟨(1, 7), by simp, rfl⟩
  obtain rfl : x = (1, 7) := List.mem_singleton.mp hx
  cases heq

end Workbench.Avl
