import Workbench.Tree.AvlElements

/-!
# `Tree.AvlRemove` — which removals from the AVL tree are right

An element that is found at the root or at one of its sons is removed. When it is found further down, the tree loses
everything that is not below the parent of its node. A removal that finds nothing rebalances the root.

## Main results
* `reachable_sorted` — the tree stays in order over every run;
* `removed_iff` — exactly which removals remove one equal element, or leave the elements alone if there is none.
-/

namespace Workbench.Avl

open SearchTree

variable {α : Type} {compare : α → α → Int} {t t' p : Node α} {d : α} {s : Direction} {k : Nat}

/-! ## Runs -/

inductive Op (α : Type)
  | insert (data : α)
  | remove (data : α)

def run (compare : α → α → Int) (t : Node α) : Op α → Option (Node α)
  | .insert data => avlInsert compare t data
  | .remove data => avlRemove compare t data

/-- The runs of insertions and removals that return, from the empty tree. -/
def system (compare : α → α → Int) : System (Node α) (Op α) where
  init := fun t => t = .nil
  step := fun t op t' => run compare t op = some t'

/-- A removal that does not find its element at the root. -/
theorem avlRemove_eq {e : Entry α} {l r : Node α} (hroot : compare e.data d ≠ 0) :
    avlRemove compare (.node e l r) d =
      rebalances (locate compare d (.node e l r) .nil .left).passed
        ((locate compare d (.node e l r) .nil .left).result (.node e l r)) := by
  rw [avlRemove, if_neg hroot]
  exact findToRemove_eq

/-- A node is found, at a son of the root or below. -/
theorem locate_passed {e : Entry α} {l r : Node α} (hroot : compare e.data d ≠ 0)
    (h : locate compare d (.node e l r) .nil .left = .found p s k) : ∃ k', k = k' + 1 := by
  -- at the root the search is not over
  rcases locate_found h with ⟨heq, -⟩ | ⟨_, k', hk, -⟩
  · exact absurd heq hroot
  · exact ⟨k', hk⟩

/-- The parent is the root or below it. -/
theorem locate_sublist {e : Entry α} {l r : Node α} (hroot : compare e.data d ≠ 0)
    (h : locate compare d (.node e l r) .nil .left = .found p s k) :
    (elements p).Sublist (elements (.node e l r)) := by
  obtain ⟨k', rfl⟩ := locate_passed hroot h
  have hbelow := locate_below h
  cases k' with
  | zero =>
      obtain rfl : p = .node e l r := hbelow
      exact List.Sublist.refl _
  | succ k' => exact hbelow.1

theorem locate_deletes (h : locate compare d t .nil .left = .found p s k) (ht : t ≠ .nil) (hk : k ≠ 0) :
    ∃ x, compare x d = 0 ∧ Deletes x (elements p) (elements (removeNode p s)) := by
  cases t with
  | nil => exact absurd rfl ht
  | node e l r =>
      rcases locate_found h with ⟨-, -, -, rfl⟩ | ⟨side, k', -, -, hson⟩
      · exact absurd rfl hk
      · obtain ⟨e', l', r', hrelative, heq⟩ := locate_equal hson rfl
        exact ⟨e'.data, heq, removeNode_deletes hrelative⟩

theorem avlRemove_sublist (h : avlRemove compare t d = some t') : (elements t').Sublist (elements t) := by
  cases t with
  | nil =>
      cases h
      exact List.Sublist.refl _
  | node e l r =>
      by_cases hroot : compare e.data d = 0
      · rw [avlRemove, if_pos hroot] at h
        cases h
        exact (removeRoot_deletes e l r).sublist
      · -- what is given back is the root, or the parent without its son
        rw [avlRemove_eq hroot] at h
        rw [rebalances_elements h]
        cases hloc : locate compare d (.node e l r) .nil .left with
        | absent k => exact List.Sublist.refl _
        | found p s k =>
            obtain ⟨k', rfl⟩ := locate_passed hroot hloc
            obtain ⟨x, -, hx⟩ := locate_deletes hloc nofun (Nat.succ_ne_zero k')
            exact hx.sublist.trans (locate_sublist hroot hloc)

/-- **The tree stays in order.** -/
theorem reachable_sorted (hc : TotalPreorder compare) (h : (system compare).Reachable System.Any t) :
    Sorted compare t := by
  refine System.invariant ?_ ?_ h
  · rintro t rfl
    exact List.Pairwise.nil
  · intro t op t' ht _ hstep
    cases op with
    | insert data => exact avlInsert_sorted hc ht hstep
    | remove data => exact ht.sublist (avlRemove_sublist hstep)

/-! ## Removals -/

/-- The tree is in order, without one element that is equal to `d`, or with all of them if none is equal. -/
def Removed (compare : α → α → Int) (d : α) (t t' : Node α) : Prop :=
  Sorted compare t' ∧
    ((∃ x ∈ elements t, compare x d = 0 ∧ (elements t).Perm (x :: elements t')) ∨
      (∀ x ∈ elements t, compare x d ≠ 0) ∧ (elements t').Perm (elements t))

/-- The element is at the root; or it is at a son of the root, and rebalancing the root does not miss an inner son; or
    it is not found, and rebalancing the root for each node that is passed does not miss one. -/
def Handled (compare : α → α → Int) (d : α) (t : Node α) : Prop :=
  match locate compare d t .nil .left with
  | .absent k => ∀ j < k, ¬ Misled (settle^[j] t)
  | .found _ _ 0 => True
  | .found p s 1 => ¬ Misled (removeNode p s)
  | .found _ _ (_ + 2) => False

theorem removed_of_deletes {x : α} (hsorted : Sorted compare t) (heq : compare x d = 0)
    (h : Deletes x (elements t) (elements t')) : Removed compare d t t' :=
  ⟨hsorted.sublist h.sublist, .inl ⟨x, h.mem, heq, h.perm⟩⟩

/-- An element that is found below the sons of the root: the root is lost with it. -/
theorem not_removed_below {e : Entry α} {l r : Node α} (hroot : compare e.data d ≠ 0)
    (h : locate compare d (.node e l r) .nil .left = .found p s (k + 2)) :
    ¬ ∃ t', avlRemove compare (.node e l r) d = some t' ∧ Removed compare d (.node e l r) t' := by
  rintro ⟨t', hremove, -, hcases⟩
  have hbelow : _ ∧ p.numNodes < (BinaryTree.node e l r).numNodes := locate_below h
  obtain ⟨x, hxd, hx⟩ := locate_deletes h nofun (Nat.succ_ne_zero _)
  rw [avlRemove_eq hroot, h] at hremove
  -- what is left has one element less than the parent
  have hlen : (elements t').length + 1 = p.numNodes := by
    rw [rebalances_elements hremove, ← length_keys Entry.data p]
    have hperm := hx.perm.length_eq
    exact hperm.symm
  have hall : (elements (.node e l r)).length = (BinaryTree.node e l r).numNodes := length_keys Entry.data _
  rcases hcases with ⟨y, -, -, hperm⟩ | ⟨-, hperm⟩
  · have hperm' := hperm.length_eq
    rw [List.length_cons] at hperm'
    omega
  · have hperm' := hperm.length_eq
    omega

/-- **A removal is right** exactly if it is handled. -/
theorem removed_iff (hc : TotalPreorder compare) (h : (system compare).Reachable System.Any t) (d : α) :
    (∃ t', avlRemove compare t d = some t' ∧ Removed compare d t t') ↔ Handled compare d t := by
  have hsorted := reachable_sorted hc h
  cases t with
  | nil => exact ⟨fun _ j hj => absurd hj (Nat.not_lt_zero j), fun _ => ⟨.nil, rfl, hsorted, .inr ⟨nofun, .refl _⟩⟩⟩
  | node e l r =>
      by_cases hroot : compare e.data d = 0
      · have hhandled : Handled compare d (.node e l r) := by
          unfold Handled
          rw [locate_node, if_pos hroot]
          trivial
        refine iff_of_true ⟨removeRoot (.node e l r), ?_, ?_⟩ hhandled
        · rw [avlRemove, if_pos hroot]
        · exact removed_of_deletes hsorted hroot (removeRoot_deletes e l r)
      · rw [avlRemove_eq hroot]
        unfold Handled
        cases hloc : locate compare d (.node e l r) .nil .left with
        -- nothing is found: the elements stay, if every rebalancing of the root returns
        | absent k =>
            show (∃ t', rebalances k (.node e l r) = some t' ∧ _) ↔ ∀ j < k, ¬ Misled (settle^[j] (.node e l r))
            rw [← rebalances_iff (t := .node e l r) nofun]
            refine exists_congr fun t' => and_iff_left_of_imp fun hreb => ?_
            have helements := rebalances_elements hreb
            refine ⟨?_, .inr ⟨locate_absent hc hsorted hloc, ?_⟩⟩
            · show (elements t').Pairwise _
              rw [helements]
              exact hsorted
            · rw [helements]
        -- the first node on the path is the root, so at least one node is passed
        | found p s k =>
            obtain ⟨k', rfl⟩ := locate_passed hroot hloc
            obtain ⟨x, hxd, hx⟩ := locate_deletes hloc nofun (Nat.succ_ne_zero k')
            cases k' with
            -- the parent is the root: it is rebalanced once
            | zero =>
                obtain rfl : p = .node e l r := locate_below hloc
                show (∃ t', rebalances 1 (removeNode (.node e l r) s) = some t' ∧ _) ↔ ¬ Misled _
                have hone : (∃ t', rebalances 1 (removeNode (.node e l r) s) = some t') ↔
                    ¬ Misled (removeNode (.node e l r) s) := by
                  rw [rebalances_iff (removeNode_ne_nil (p := .node e l r) nofun)]
                  exact ⟨fun h => h 0 Nat.one_pos, fun h j hj => by rwa [Nat.lt_one_iff.mp hj]⟩
                rw [← hone]
                refine exists_congr fun t' => and_iff_left_of_imp fun hreb => ?_
                have hx' : Deletes x (elements (.node e l r)) (elements t') := by
                  rw [rebalances_elements hreb]
                  exact hx
                exact removed_of_deletes hsorted hxd hx'
            -- further down, the root is lost
            | succ k' =>
                have hnot := not_removed_below hroot hloc
                rw [avlRemove_eq hroot, hloc] at hnot
                exact iff_of_false hnot id

/-! ## Samples -/

/-- The order of the integers. -/
def byValue (a b : Int) : Int := a - b

theorem byValue_preorder : TotalPreorder byValue := by
  unfold byValue
  exact ⟨fun a b => by omega, fun a b c => by omega⟩

/-- Two is at the root, with one at the left and three at the right. -/
def sampleTree : Node Int := .node ⟨2, 0⟩ (.node ⟨1, 0⟩ .nil .nil) (.node ⟨3, 0⟩ .nil .nil)

theorem reachable_sample : (system byValue).Reachable System.Any sampleTree := by
  have hone : (system byValue).Reachable System.Any (.node ⟨2, 0⟩ .nil .nil) :=
    .step (a := .insert 2) (.init rfl) trivial rfl
  have htwo : (system byValue).Reachable System.Any (.node ⟨2, 1⟩ (.node ⟨1, 0⟩ .nil .nil) .nil) :=
    .step (a := .insert 1) hone trivial rfl
  exact .step (a := .insert 3) htwo trivial rfl

theorem removed_sample : ∃ t', avlRemove byValue sampleTree 1 = some t' ∧ Removed byValue 1 sampleTree t' := by
  refine (removed_iff byValue_preorder reachable_sample 1).mpr ?_
  show ¬ Misled (.node ⟨2, 0⟩ .nil (.node ⟨3, 0⟩ .nil .nil))
  rintro (⟨h, -⟩ | ⟨h, -⟩) <;> exact absurd h (by decide)

/-- The same tree with zero below one. -/
def sampleDeep : Node Int :=
  .node ⟨2, 1⟩ (.node ⟨1, 1⟩ (.node ⟨0, 0⟩ .nil .nil) .nil) (.node ⟨3, 0⟩ .nil .nil)

/-- Removing zero loses two and three. -/
theorem not_removed : ∃ t, (system byValue).Reachable System.Any t ∧
    ∃ d, ¬ ∃ t', avlRemove byValue t d = some t' ∧ Removed byValue d t t' := by
  refine ⟨sampleDeep, .step (a := .insert 0) reachable_sample trivial rfl, 0, ?_⟩
  exact not_removed_below (k := 0) (show byValue 2 0 ≠ 0 by decide) rfl

end Workbench.Avl
