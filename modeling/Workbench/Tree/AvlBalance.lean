import Workbench.Tree.AvlRemove

/-!
# `Tree.AvlBalance` — the balance of the AVL tree

An insertion keeps the tree balanced, whatever the fields of the nodes say. A removal at the root does not rebalance
anything, and one that takes the next node leaves the path to that node as it is. A removal below the root relies on
the field of the other son.

## Main results
* `rebalance_leftHeavy`, `rebalance_rightHeavy` — when one rebalancing is enough;
* `balancedInsert_balanced` — insertions;
* `removeRoot_balanced`, `removeNode_balanced` — removals;
* `reachable_balanced` — every run of insertions and of removals that meet the condition.
-/

namespace Workbench.Avl

open SearchTree

variable {α : Type} {compare : α → α → Int} {t t' l r p : Node α} {e : Entry α} {d : α} {s : Direction} {k : Nat}

/-! ## Rebalancing -/

/-- The field of a left son that is two too tall is good enough: a single rotation is done if the outer son is not the
    lower one, a double rotation if it is, or if it is as tall as the inner son and the inner son is not taller on the
    inner side only. -/
def LeftSound (l : Node α) : Prop :=
  (-1 < stored l ∧ l.right.height ≤ l.left.height) ∨
    stored l ≤ -1 ∧ (l.left.height < l.right.height ∨
      l.left.height = l.right.height ∧ l.right.left.height + 1 = l.right.height)

/-- The same for a right son. -/
def RightSound (r : Node α) : Prop :=
  (stored r < 1 ∧ r.left.height ≤ r.right.height) ∨
    1 ≤ stored r ∧ (r.right.height < r.left.height ∨
      r.left.height = r.right.height ∧ r.left.right.height + 1 = r.left.height)

theorem rebalance_leftHeavy (hl : Balanced l) (hr : Balanced r) (hheight : l.height = r.height + 2)
    (hsound : LeftSound l) :
    ∃ t', rebalance (.node e l r) = some t' ∧ Balanced t' ∧
      (l.left.height ≠ l.right.height → t'.height = r.height + 2) := by
  have hnot : ¬ Misled (.node e l r) := by
    rintro (⟨-, hfield, hnil⟩ | ⟨hlt, -⟩)
    · rcases hsound with ⟨hfield', -⟩ | ⟨-, hlt | ⟨-, hinner⟩⟩ <;> omega
    · omega
  obtain ⟨t', hreb, hshape⟩ := rebalance_of_not_misled hnot
  refine ⟨t', hreb, ?_⟩
  cases hshape with
  | keep hle _ => omega
  -- a single rotation: the outer son is at least as tall as the inner one
  | leftLeft _ hfield =>
      have hle := hsound.resolve_right fun h => Int.not_le.mpr hfield h.1
      have hle' := hle.2
      simp only [balanced_node, BinaryTree.height, BinaryTree.left, BinaryTree.right] at hl hheight hle' ⊢
      refine ⟨⟨?_, ?_, hl.2.2.1, ?_, ?_, hl.2.2.2, hr⟩, ?_⟩ <;> omega
  -- a double rotation: the sons of the inner son are put apart
  | leftRight _ hfield =>
      have hlt := (hsound.resolve_left fun h => Int.not_le.mpr h.1 hfield).2
      simp only [balanced_node, BinaryTree.height, BinaryTree.left, BinaryTree.right] at hl hheight hlt ⊢
      obtain ⟨hl1, hl2, hll, hm1, hm2, hml, hmr⟩ := hl
      refine ⟨⟨?_, ?_, ⟨?_, ?_, hll, hml⟩, ?_, ?_, hmr, hr⟩, ?_⟩ <;> omega
  | rightRight hlt _ => omega
  | rightLeft hlt _ => omega

theorem rebalance_rightHeavy (hl : Balanced l) (hr : Balanced r) (hheight : r.height = l.height + 2)
    (hsound : RightSound r) :
    ∃ t', rebalance (.node e l r) = some t' ∧ Balanced t' ∧
      (r.left.height ≠ r.right.height → t'.height = l.height + 2) := by
  have hnot : ¬ Misled (.node e l r) := by
    rintro (⟨hlt, -⟩ | ⟨-, hfield, hnil⟩)
    · omega
    · rcases hsound with ⟨hfield', -⟩ | ⟨-, hlt | ⟨-, hinner⟩⟩ <;> omega
  obtain ⟨t', hreb, hshape⟩ := rebalance_of_not_misled hnot
  refine ⟨t', hreb, ?_⟩
  cases hshape with
  | keep _ hle => omega
  | leftLeft hlt _ => omega
  | leftRight hlt _ => omega
  | rightRight _ hfield =>
      have hle := (hsound.resolve_right fun h => Int.not_le.mpr hfield h.1).2
      simp only [balanced_node, BinaryTree.height, BinaryTree.left, BinaryTree.right] at hr hheight hle ⊢
      obtain ⟨hr1, hr2, hrl, hrr⟩ := hr
      refine ⟨⟨?_, ?_, ⟨?_, ?_, hl, hrl⟩, hrr⟩, ?_⟩ <;> omega
  | rightLeft _ hfield =>
      have hlt := (hsound.resolve_left fun h => Int.not_le.mpr h.1 hfield).2
      simp only [balanced_node, BinaryTree.height, BinaryTree.left, BinaryTree.right] at hr hheight hlt ⊢
      obtain ⟨hr1, hr2, ⟨hm1, hm2, hml, hmr⟩, hrr⟩ := hr
      refine ⟨⟨?_, ?_, ⟨?_, ?_, hl, hml⟩, ?_, ?_, hmr, hrr⟩, ?_⟩ <;> omega

/-! ## Insertion -/

/-- A tree that has grown has a root with its balance factor, which is not 0. -/
def Grown (t t' : Node α) : Prop :=
  t'.height = t.height ∨
    t'.height = t.height + 1 ∧
      (t = .nil ∨ stored t' = (t'.left.height : Int) - t'.right.height ∧ t'.left.height ≠ t'.right.height)

/-- A son that is too tall after an insertion was not empty: its field is its balance factor. -/
theorem Grown.tall (h : Grown t t') (hlow : t.height ≤ k + 1) (htall : ¬ t'.height ≤ k + 1) :
    t.height = k + 1 ∧ t'.height = k + 2 ∧ stored t' = (t'.left.height : Int) - t'.right.height ∧
      t'.left.height ≠ t'.right.height := by
  rcases h with hsame | ⟨hmore, hnil | ⟨hfield, hne⟩⟩
  · omega
  · subst hnil
    simp only [BinaryTree.height] at hmore
    omega
  · exact ⟨by omega, by omega, hfield, hne⟩

/-- A node whose son has grown grows only if this son is now the taller one. -/
theorem Grown.max (h : Grown t t') (k : Nat) :
    max t'.height k = max t.height k ∨ max t'.height k = max t.height k + 1 ∧ t'.height ≠ k := by
  rcases h with hsame | ⟨hmore, -⟩ <;> omega

theorem Grown.le (h : Grown t t') : t.height ≤ t'.height := by
  rcases h with hsame | ⟨hmore, -⟩ <;> omega

/-- **An insertion** into a balanced tree returns a balanced tree. -/
theorem balancedInsert_balanced (ht : Balanced t) :
    ∃ t', balancedInsert compare d t = some t' ∧ Balanced t' ∧ Grown t t' := by
  induction t with
  | nil => exact ⟨nodeCreate d, rfl, by simp [nodeCreate], .inr ⟨rfl, .inl rfl⟩⟩
  | node e l r ihl ihr =>
      obtain ⟨hlr, hrl, hl, hr⟩ := ht
      by_cases hside : 0 < compare e.data d
      · obtain ⟨l', hinsert, hl', hgrown⟩ := ihl hl
        have hle := hgrown.le
        rw [balancedInsert, getDirection_left hside]
        simp only [hinsert, Option.bind_eq_bind, Option.bind_some]
        by_cases hlow : l'.height ≤ r.height + 1
        · have hkeep : r.height ≤ l'.height + 1 := by omega
          refine ⟨_, rebalance_keep hlow hkeep, ⟨hlow, hkeep, hl', hr⟩, ?_⟩
          exact (hgrown.max r.height).imp (congrArg (· + 1)) fun h => ⟨congrArg (· + 1) h.1, .inr ⟨rfl, h.2⟩⟩
        · -- the left son has grown: one rebalancing gives the node its height back
          obtain ⟨hold, hheight, hfield, hne⟩ := hgrown.tall hlr hlow
          have hsound : LeftSound l' := by
            unfold LeftSound
            omega
          obtain ⟨t', hreb, hbalanced, hback⟩ := rebalance_leftHeavy (e := e) hl' hr hheight hsound
          refine ⟨t', hreb, hbalanced, .inl ?_⟩
          rw [hback hne, BinaryTree.height]
          omega
      · obtain ⟨r', hinsert, hr', hgrown⟩ := ihr hr
        have hle := hgrown.le
        rw [balancedInsert, getDirection_right hside]
        simp only [hinsert, Option.bind_eq_bind, Option.bind_some]
        by_cases hlow : r'.height ≤ l.height + 1
        · have hkeep : l.height ≤ r'.height + 1 := by omega
          refine ⟨_, rebalance_keep hkeep hlow, ⟨hkeep, hlow, hl, hr'⟩, ?_⟩
          have hgrow := hgrown.max l.height
          rw [Nat.max_comm r'.height, Nat.max_comm r.height] at hgrow
          exact hgrow.imp (congrArg (· + 1)) fun h => ⟨congrArg (· + 1) h.1, .inr ⟨rfl, h.2.symm⟩⟩
        · obtain ⟨hold, hheight, hfield, hne⟩ := hgrown.tall hrl hlow
          have hsound : RightSound r' := by
            unfold RightSound
            omega
          obtain ⟨t', hreb, hbalanced, hback⟩ := rebalance_rightHeavy (e := e) hl hr' hheight hsound
          refine ⟨t', hreb, hbalanced, .inl ?_⟩
          rw [hback hne, BinaryTree.height]
          omega

/-! ## Unlinking a node -/

/-- The height without the leftmost node. -/
def heightWithoutMin : Node α → Nat
  | .nil => 0
  | .node _ .nil r => r.height
  | .node _ (.node el ll lr) r => max (heightWithoutMin (.node el ll lr)) r.height + 1

/-- No node on the way to the leftmost one has a right son that is too tall when the leftmost one is gone. -/
def MinFree : Node α → Prop
  | .nil => True
  | .node _ .nil _ => True
  | .node _ (.node el ll lr) r =>
      MinFree (.node el ll lr) ∧ r.height ≤ heightWithoutMin (.node el ll lr) + 1

/-- The height without the root. -/
def heightWithout : Node α → Nat
  | .nil => 0
  | .node _ l .nil => l.height
  | .node _ .nil r => r.height
  | .node _ (.node el ll lr) (.node er rl rr) =>
      max (BinaryTree.node el ll lr).height (heightWithoutMin (.node er rl rr)) + 1

/-- When the root has two sons, its right son can do without its leftmost node, and stays tall enough. -/
def RootFree : Node α → Prop
  | .node _ (.node el ll lr) (.node er rl rr) =>
      MinFree (.node er rl rr) ∧ (BinaryTree.node el ll lr).height ≤ heightWithoutMin (.node er rl rr) + 1
  | _ => True

theorem mostLeftNode_height (e : Entry α) (l r : Node α) :
    (mostLeftNode e l r).2.height = heightWithoutMin (.node e l r) := by
  induction l generalizing e r with
  | nil => rfl
  | node el ll lr ihl _ => rw [mostLeftNode, BinaryTree.height, ihl, heightWithoutMin]

theorem heightWithoutMin_bounds (ht : Balanced t) :
    heightWithoutMin t ≤ t.height ∧ t.height ≤ heightWithoutMin t + 1 := by
  induction t with
  | nil => exact ⟨Nat.le_refl _, Nat.zero_le _⟩
  | node e l r ihl _ =>
      obtain ⟨hlr, hrl, hl, -⟩ := ht
      have hson := ihl hl
      cases l with
      | nil =>
          simp only [heightWithoutMin, BinaryTree.height]
          omega
      | node el ll lr =>
          rw [heightWithoutMin, BinaryTree.height]
          omega

theorem mostLeftNode_balanced {e : Entry α} {l r : Node α} (ht : Balanced (.node e l r))
    (hfree : MinFree (.node e l r)) : Balanced (mostLeftNode e l r).2 := by
  induction l generalizing e r with
  | nil => exact ht.2.2.2
  | node el ll lr ihl _ =>
      obtain ⟨hlr, hrl, hl, hr⟩ := ht
      obtain ⟨hmin, hright⟩ := hfree
      have hbounds := heightWithoutMin_bounds hl
      rw [mostLeftNode, balanced_node, mostLeftNode_height]
      exact ⟨by omega, hright, ihl hl hmin, hr⟩

/-- The node that takes the data of the next one. -/
theorem takeNext_balanced {el er : Entry α} {ll lr rl rr : Node α}
    (ht : Balanced (.node e (.node el ll lr) (.node er rl rr)))
    (hfree : RootFree (.node e (.node el ll lr) (.node er rl rr))) :
    Balanced (takeNext (.node e (.node el ll lr) (.node er rl rr))) := by
  obtain ⟨hlr, hrl, hl, hr⟩ := ht
  obtain ⟨hmin, hleft⟩ := hfree
  have hbounds := heightWithoutMin_bounds hr
  rw [takeNext, balanced_node, mostLeftNode_height]
  exact ⟨hleft, by omega, hl, mostLeftNode_balanced hr hmin⟩

theorem takeNext_height (el er : Entry α) (ll lr rl rr : Node α) :
    (takeNext (.node e (.node el ll lr) (.node er rl rr))).height =
      heightWithout (.node e (.node el ll lr) (.node er rl rr)) := by
  rw [takeNext, BinaryTree.height, mostLeftNode_height, heightWithout]

/-- **A removal at the root.** -/
theorem removeRoot_balanced (ht : Balanced t) (hfree : RootFree t) : Balanced (removeRoot t) := by
  cases t with
  | nil => trivial
  | node e l r =>
      cases l with
      | nil =>
          cases r with
          | nil => trivial
          | node er rl rr => exact ht.2.2.2
      | node el ll lr =>
          cases r with
          | nil => exact ht.2.2.1
          | node er rl rr => exact takeNext_balanced ht hfree

/-- What takes the place of a son that is removed. -/
theorem removeNode_son (hson : relative p s ≠ .nil) :
    ∃ son, removeNode p s = setRelative p s son ∧ son.height = heightWithout (relative p s) ∧
      (Balanced (relative p s) → RootFree (relative p s) → Balanced son) := by
  unfold removeNode
  generalize relative p s = n at hson
  cases n with
  | nil => exact absurd rfl hson
  | node e l r =>
      cases l with
      | nil =>
          cases r with
          | nil => exact ⟨.nil, rfl, rfl, fun _ _ => trivial⟩
          | node er rl rr => exact ⟨.node er rl rr, rfl, rfl, fun ht _ => ht.2.2.2⟩
      | node el ll lr =>
          cases r with
          | nil => exact ⟨.node el ll lr, rfl, rfl, fun ht _ => ht.2.2.1⟩
          | node er rl rr => exact ⟨_, rfl, takeNext_height .., takeNext_balanced⟩

theorem heightWithout_bounds (ht : Balanced t) (hne : t ≠ .nil) :
    heightWithout t ≤ t.height ∧ t.height ≤ heightWithout t + 1 := by
  cases t with
  | nil => exact absurd rfl hne
  | node e l r =>
      obtain ⟨hlr, hrl, hl, hr⟩ := ht
      have hbounds := heightWithoutMin_bounds hr
      cases l with
      | nil =>
          cases r with
          | nil => exact ⟨Nat.zero_le _, Nat.le_refl _⟩
          | node er rl rr =>
              simp only [heightWithout, BinaryTree.height] at hrl ⊢
              omega
      | node el ll lr =>
          cases r with
          | nil =>
              simp only [heightWithout, BinaryTree.height] at hlr ⊢
              omega
          | node er rl rr =>
              have hwhole : (BinaryTree.node e (.node el ll lr) (.node er rl rr)).height =
                  max (BinaryTree.node el ll lr).height (BinaryTree.node er rl rr).height + 1 := rfl
              rw [heightWithout]
              omega

/-- The son can be removed; and when the other son is two taller then, its field is good enough. -/
def SonFree (p : Node α) (s : Direction) : Prop :=
  RootFree (relative p s) ∧
    match s with
    | .left => p.right.height = heightWithout p.left + 2 → RightSound p.right
    | .right => p.left.height = heightWithout p.right + 2 → LeftSound p.left

/-- **A removal below the root**, with the first rebalancing. -/
theorem removeNode_balanced (hp : Balanced p) (hson : relative p s ≠ .nil) (hfree : SonFree p s) :
    ∃ t', rebalance (removeNode p s) = some t' ∧ Balanced t' := by
  obtain ⟨son, hremove, hheight, hbalanced⟩ := removeNode_son hson
  cases p with
  | nil => cases s <;> exact absurd rfl hson
  | node e l r =>
      obtain ⟨hlr, hrl, hl, hr⟩ := hp
      rw [hremove]
      cases s with
      | left =>
          have hson' : Balanced son := hbalanced hl hfree.1
          have hbounds := heightWithout_bounds hl hson
          have hheight' : son.height = heightWithout l := hheight
          by_cases htall : r.height = heightWithout l + 2
          · obtain ⟨t', hreb, ht', -⟩ := rebalance_rightHeavy (e := e) hson' hr (by omega) (hfree.2 htall)
            exact ⟨t', hreb, ht'⟩
          · have hlow : r.height ≤ son.height + 1 := by omega
            have hhigh : son.height ≤ r.height + 1 := by omega
            exact ⟨_, rebalance_keep hhigh hlow, hhigh, hlow, hson', hr⟩
      | right =>
          have hson' : Balanced son := hbalanced hr hfree.1
          have hbounds := heightWithout_bounds hr hson
          have hheight' : son.height = heightWithout r := hheight
          by_cases htall : l.height = heightWithout r + 2
          · obtain ⟨t', hreb, ht', -⟩ := rebalance_leftHeavy (e := e) hl hson' (by omega) (hfree.2 htall)
            exact ⟨t', hreb, ht'⟩
          · have hlow : l.height ≤ son.height + 1 := by omega
            have hhigh : son.height ≤ l.height + 1 := by omega
            exact ⟨_, rebalance_keep hlow hhigh, hlow, hhigh, hl, hson'⟩

/-! ## Runs -/

theorem rebalances_balanced (ht : Balanced t) (hne : t ≠ .nil) :
    ∃ t', rebalances k t = some t' ∧ Balanced t' ∧ t' ≠ .nil := by
  induction k with
  | zero => exact ⟨t, rfl, ht, hne⟩
  | succ k ih =>
      obtain ⟨t', hk, ht', hne'⟩ := ih
      cases t' with
      | nil => exact absurd rfl hne'
      | node e l r =>
          have hlast : rebalances (k + 1) t = rebalance (.node e l r) := by
            rw [rebalances, hk, Option.bind_eq_bind, Option.bind_some]
          exact ⟨_, hlast.trans (rebalance_keep ht'.1 ht'.2.1), ht', node_ne_nil _ _ _⟩

theorem rebalances_succ (k : Nat) (t : Node α) : rebalances (k + 1) t = rebalance t >>= rebalances k := by
  induction k with
  | zero =>
      show rebalance t = (rebalance t).bind some
      cases rebalance t <;> rfl
  | succ k ih =>
      rw [rebalances, ih]
      exact Option.bind_assoc ..

theorem locate_balanced {node parent : Node α} {direction : Direction} (hparent : Balanced parent)
    (hnode : Balanced node) (h : locate compare d node parent direction = .found p s k) : Balanced p := by
  induction node generalizing parent direction k with
  | nil => cases h
  | node e l r ihl ihr =>
      rcases locate_found h with ⟨-, rfl, -, -⟩ | ⟨side, k', -, -, hson⟩
      · exact hparent
      · cases side with
        | left => exact ihl hnode hnode.2.2.1 hson
        | right => exact ihr hnode hnode.2.2.2 hson

/-- A removal that finds nothing, one of the root when it can be removed, or of a son when it can be removed. -/
def RemovalFree (compare : α → α → Int) (t : Node α) (d : α) : Prop :=
  match locate compare d t .nil .left with
  | .absent _ => True
  | .found _ _ 0 => RootFree t
  | .found p s (_ + 1) => SonFree p s

/-- The condition on the steps: there is none on insertions. -/
def Steady (compare : α → α → Int) (t : Node α) : Op α → Prop
  | .insert _ => True
  | .remove d => RemovalFree compare t d

theorem avlRemove_balanced (ht : Balanced t) (hfree : RemovalFree compare t d) :
    ∃ t', avlRemove compare t d = some t' ∧ Balanced t' := by
  cases t with
  | nil => exact ⟨.nil, rfl, trivial⟩
  | node e l r =>
      unfold RemovalFree at hfree
      by_cases hroot : compare e.data d = 0
      · rw [locate_node, if_pos hroot] at hfree
        refine ⟨removeRoot (.node e l r), ?_, removeRoot_balanced ht hfree⟩
        rw [avlRemove, if_pos hroot]
      · rw [avlRemove_eq hroot]
        cases hloc : locate compare d (.node e l r) .nil .left with
        | absent k =>
            obtain ⟨t', hreb, ht', -⟩ := rebalances_balanced (k := k) ht (node_ne_nil e l r)
            exact ⟨t', hreb, ht'⟩
        | found p s k =>
            obtain ⟨k', rfl⟩ := locate_passed hroot hloc
            rw [hloc] at hfree
            have hson : relative p s ≠ .nil := by
              rcases locate_found hloc with ⟨heq, -⟩ | ⟨side, _, -, -, hside⟩
              · exact absurd heq hroot
              · obtain ⟨e', l', r', hrelative, -⟩ := locate_equal hside rfl
                rw [hrelative]
                exact node_ne_nil e' l' r'
            -- the first rebalancing gives a balanced tree, the others leave it as it is
            have hp : Balanced p := locate_balanced balanced_nil ht hloc
            obtain ⟨t₁, hfirst, ht₁⟩ := removeNode_balanced hp hson hfree
            obtain ⟨t', hreb, ht', -⟩ :=
              rebalances_balanced (k := k') ht₁ (rebalanced_of_rebalance hfirst).ne_nil
            refine ⟨t', ?_, ht'⟩
            show rebalances (k' + 1) (removeNode p s) = some t'
            rw [rebalances_succ, hfirst]
            exact hreb

theorem run_balanced {op : Op α} (ht : Balanced t) (hsteady : Steady compare t op) :
    ∃ t', run compare t op = some t' ∧ Balanced t' := by
  cases op with
  | insert data =>
      obtain ⟨t', hinsert, ht', -⟩ : ∃ t', balancedInsert compare data t = some t' ∧ Balanced t' ∧ Grown t t' :=
        balancedInsert_balanced ht
      exact ⟨t', hinsert, ht'⟩
  | remove data => exact avlRemove_balanced ht hsteady

/-- **The tree stays balanced** over every run of insertions and of removals that meet the condition, and each of them
    returns. -/
theorem reachable_balanced (h : (system compare).Reachable (Steady compare) t) :
    Balanced t ∧ ∀ op, Steady compare t op → ∃ t', run compare t op = some t' := by
  have ht : Balanced t := by
    refine System.invariant ?_ ?_ h
    · rintro t rfl
      trivial
    · intro t op t' ht hsteady hstep
      obtain ⟨t'', hrun, ht''⟩ := run_balanced ht hsteady
      cases hrun.symm.trans hstep
      exact ht''
  refine ⟨ht, fun op hsteady => ?_⟩
  obtain ⟨t', hrun, -⟩ := run_balanced ht hsteady
  exact ⟨t', hrun⟩

/-- Two, then one, three and four are inserted. -/
def sampleFour : Node Int :=
  .node ⟨2, -1⟩ (.node ⟨1, 0⟩ .nil .nil) (.node ⟨3, -1⟩ .nil (.node ⟨4, 0⟩ .nil .nil))

theorem steady_sample : (system byValue).Reachable (Steady byValue) sampleFour := by
  have hone : (system byValue).Reachable (Steady byValue) (.node ⟨2, 0⟩ .nil .nil) :=
    .step (a := .insert 2) (.init rfl) trivial rfl
  have htwo : (system byValue).Reachable (Steady byValue) (.node ⟨2, 1⟩ (.node ⟨1, 0⟩ .nil .nil) .nil) :=
    .step (a := .insert 1) hone trivial rfl
  have hthree : (system byValue).Reachable (Steady byValue) sampleTree := .step (a := .insert 3) htwo trivial rfl
  exact .step (a := .insert 4) hthree trivial rfl

/-- Four is removed: its parent becomes the tree. -/
theorem reachable_balanced_sample : Balanced (BinaryTree.node (⟨3, 0⟩ : Entry Int) .nil .nil) := by
  have hsteady : Steady byValue sampleFour (.remove 4) := ⟨trivial, nofun⟩
  exact (reachable_balanced (.step (a := .remove 4) steady_sample hsteady rfl)).1

/-- Two is removed at the root: three takes its place, and nothing is left on the right. -/
theorem not_balanced : ∃ t, (system byValue).Reachable System.Any t ∧ ¬ Balanced t := by
  have hdeep : (system byValue).Reachable System.Any sampleDeep := .step (a := .insert 0) reachable_sample trivial rfl
  have hremoved : (system byValue).Reachable System.Any
      (.node ⟨3, 1⟩ (.node ⟨1, 1⟩ (.node ⟨0, 0⟩ .nil .nil) .nil) .nil) :=
    .step (a := .remove 2) hdeep trivial rfl
  refine ⟨_, hremoved, ?_⟩
  rintro ⟨hle, -⟩
  exact absurd hle (by decide)

end Workbench.Avl
