import Workbench.Lib.ForEach
import Workbench.Tree.AvlBalance

/-!
# `Tree.AvlWalks` — what `AVLForEach`, `AVLSize` and `AVLHeight` return

Each of the three walks goes over the elements in an order of its own, and ends at the first application that does not
return 0. The walk from left to right over a tree into which a list was inserted is over the list, sorted.

## Main results
* `avlForEach_order` — each walk is over a list;
* `insertAll_sorts` — inserting sorts, and equal elements stay in their order;
* `insertAll_walks` — the tree of a list: its walks, its size and its height.
-/

namespace Workbench.Avl

open SearchTree

variable {α σ : Type} {compare : α → α → Int} {t t' : Node α} {ds xs ys : List α} {d : α}

/-! ## Sizes -/

def avlIsEmpty (root : Node α) : Bool := isNull root

def nodeTreeSize : Node α → Nat
  | .nil => 0
  | .node e l r => if nodeIsLeaf (.node e l r) then 1 else 1 + nodeTreeSize l + nodeTreeSize r

def avlSize (root : Node α) : Nat := nodeTreeSize root

def avlHeight (root : Node α) : Nat := nodeHeigth root

theorem nodeTreeSize_eq (t : Node α) : nodeTreeSize t = (elements t).length := by
  induction t with
  | nil => rfl
  | node e l r ihl ihr =>
      rw [nodeTreeSize, ihl, ihr, elements_node, List.length_append, List.length_cons]
      by_cases hleaf : nodeIsLeaf (.node e l r) = true
      · rw [if_pos hleaf]
        cases l with
        | nil =>
            cases r with
            | nil => rfl
            | node er rl rr => cases hleaf
        | node el ll lr => cases hleaf
      · rw [if_neg hleaf]
        omega

/-! ## Walks -/

def avlForEachPreOrder (operation : α → σ → Int × σ) : Node α → σ → Int × σ
  | .nil, param => (0, param)
  | .node e l r, param =>
      let res := operation e.data param
      if res.1 = 0 then
        let res := avlForEachPreOrder operation l res.2
        if res.1 = 0 then avlForEachPreOrder operation r res.2 else res
      else res

def avlForEachInOrder (operation : α → σ → Int × σ) : Node α → σ → Int × σ
  | .nil, param => (0, param)
  | .node e l r, param =>
      let res := avlForEachInOrder operation l param
      if res.1 = 0 then
        let res := operation e.data res.2
        if res.1 = 0 then avlForEachInOrder operation r res.2 else res
      else res

def avlForEachPostOrder (operation : α → σ → Int × σ) : Node α → σ → Int × σ
  | .nil, param => (0, param)
  | .node e l r, param =>
      let res := avlForEachPostOrder operation l param
      if res.1 = 0 then
        let res := avlForEachPostOrder operation r res.2
        if res.1 = 0 then operation e.data res.2 else res
      else res

/-- `PRE_ORDER`, `In_ORDER` and `POST_ORDER` are 1, 2 and 3. -/
def avlForEach (operation : α → σ → Int × σ) (root : Node α) (param : σ) (travesalType : Int) : Int × σ :=
  if travesalType = 1 then avlForEachPreOrder operation root param
  else if travesalType = 2 then avlForEachInOrder operation root param
  else if travesalType = 3 then avlForEachPostOrder operation root param
  else (0, param)

def preOrder : Node α → List α
  | .nil => []
  | .node e l r => e.data :: (preOrder l ++ preOrder r)

def postOrder : Node α → List α
  | .nil => []
  | .node e l r => postOrder l ++ (postOrder r ++ [e.data])

/-- The elements that a walk of the type goes over. -/
def walked (t : Node α) (travesalType : Int) : List α :=
  if travesalType = 1 then preOrder t
  else if travesalType = 2 then elements t
  else if travesalType = 3 then postOrder t
  else []

theorem forEach_singleton (operation : α → σ → Int × σ) (d : α) (param : σ) :
    forEach operation [d] param = operation d param := by
  rw [forEach, forEach]
  split
  · next hstatus => exact Prod.ext hstatus.symm rfl
  · rfl

theorem avlForEachPreOrder_eq (operation : α → σ → Int × σ) (t : Node α) (param : σ) :
    avlForEachPreOrder operation t param = forEach operation (preOrder t) param := by
  induction t generalizing param with
  | nil => rfl
  | node e l r ihl ihr => simp only [avlForEachPreOrder, preOrder, forEach, forEach_append, ihl, ihr]

theorem avlForEachInOrder_eq (operation : α → σ → Int × σ) (t : Node α) (param : σ) :
    avlForEachInOrder operation t param = forEach operation (elements t) param := by
  induction t generalizing param with
  | nil => rfl
  | node e l r ihl ihr => simp only [avlForEachInOrder, elements_node, forEach, forEach_append, ihl, ihr]

theorem avlForEachPostOrder_eq (operation : α → σ → Int × σ) (t : Node α) (param : σ) :
    avlForEachPostOrder operation t param = forEach operation (postOrder t) param := by
  induction t generalizing param with
  | nil => rfl
  | node e l r ihl ihr =>
      simp only [avlForEachPostOrder, postOrder, forEach_append, forEach_singleton, ihl, ihr]

/-- **Each walk** is over the elements in the order of its type. -/
theorem avlForEach_order (operation : α → σ → Int × σ) (t : Node α) (param : σ) (travesalType : Int) :
    avlForEach operation t param travesalType = forEach operation (walked t travesalType) param := by
  unfold avlForEach walked
  rw [avlForEachPreOrder_eq, avlForEachInOrder_eq, avlForEachPostOrder_eq]
  repeat' split
  all_goals rfl

theorem preOrder_perm (t : Node α) : (preOrder t).Perm (elements t) := by
  induction t with
  | nil => exact .nil
  | node e l r ihl ihr => exact ((ihl.append ihr).cons e.data).trans List.perm_middle.symm

theorem postOrder_perm (t : Node α) : (postOrder t).Perm (elements t) := by
  induction t with
  | nil => exact .nil
  | node e l r ihl ihr => exact ihl.append ((ihr.append_right [e.data]).trans (List.perm_append_singleton _ _))

/-! ## The tree of a list -/

/-- `AVLInsert` of each element in turn, into an empty tree. -/
def insertAll (compare : α → α → Int) (ds : List α) : Option (Node α) := ds.foldlM (avlInsert compare) .nil

/-- The list is sorted, and equal elements are in the order in which they were. -/
structure StablySorted (compare : α → α → Int) (ds xs : List α) : Prop where
  perm : xs.Perm ds
  sorted : xs.Pairwise fun a b => compare a b ≤ 0
  stable (x : α) : xs.filter (fun a => compare a x = 0) = ds.filter fun a => compare a x = 0

/-- **One element more** goes behind those that are equal to it. -/
theorem StablySorted.insert (hc : TotalPreorder compare) (h : StablySorted compare ds xs)
    (hinsert : InsertedAfter compare d xs ys) : StablySorted compare (ds ++ [d]) ys := by
  obtain ⟨as, bs, rfl, rfl, has, hbs⟩ := hinsert
  refine ⟨?_, pairwise_insert h.sorted has fun b hb => hc.le_swap (Int.le_of_lt (hbs b hb)), fun x => ?_⟩
  · exact (List.perm_middle.trans (h.perm.cons d)).trans (List.perm_append_singleton d ds).symm
  · rw [List.filter_append, List.filter_append, ← h.stable x, List.filter_append]
    by_cases hd : compare d x = 0
    · -- what is greater than the new element is not equal to it
      have hnone : bs.filter (fun a => compare a x = 0) = [] := by
        refine List.filter_eq_nil_iff.mpr fun b hb heq => ?_
        have hbx : compare b x = 0 := of_decide_eq_true heq
        have hbd := hc.trans b x d (Int.le_of_eq hbx) (hc.le_swap (Int.le_of_eq hd.symm))
        exact absurd (hbs b hb) (Int.not_lt.mpr hbd)
      simp [hd, hnone]
    · simp [hd]

theorem insertAll_concat (ds : List α) (d : α) :
    insertAll compare (ds ++ [d]) = insertAll compare ds >>= fun t => avlInsert compare t d := by
  simp [insertAll, List.foldlM_append]

/-- **Inserting sorts**, into a balanced tree. -/
theorem insertAll_sorts (hc : TotalPreorder compare) (ds : List α) :
    ∃ t, insertAll compare ds = some t ∧ Balanced t ∧ StablySorted compare ds (elements t) := by
  induction ds using List.reverseRecOn with
  | nil => exact ⟨.nil, rfl, trivial, .nil, .nil, fun _ => rfl⟩
  | append_singleton ds d ih =>
      obtain ⟨t, hall, hbalanced, hsorted⟩ := ih
      obtain ⟨t', hinsert, hbalanced', -⟩ : ∃ t', balancedInsert compare d t = some t' ∧ Balanced t' ∧ Grown t t' :=
        balancedInsert_balanced hbalanced
      refine ⟨t', ?_, hbalanced', hsorted.insert hc (balancedInsert_elements hc hsorted.sorted hinsert)⟩
      rw [insertAll_concat, hall]
      exact hinsert

/-- **The tree of a list**: every insertion succeeds, the walk from left to right is over the list, sorted, the two
    other ones are over its elements too, and there are no other ones; the size is that of the list, and the height is
    logarithmic in it. -/
theorem insertAll_walks (hc : TotalPreorder compare) (ds : List α) :
    ∃ t xs, insertAll compare ds = some t ∧ StablySorted compare ds xs ∧
      (∀ (operation : α → σ → Int × σ) param, avlForEach operation t param 2 = forEach operation xs param) ∧
      (∀ travesalType, travesalType = 1 ∨ travesalType = 3 → ∃ ys, ys.Perm ds ∧
        ∀ (operation : α → σ → Int × σ) param,
          avlForEach operation t param travesalType = forEach operation ys param) ∧
      (∀ (operation : α → σ → Int × σ) param travesalType, travesalType ≠ 1 → travesalType ≠ 2 → travesalType ≠ 3 →
        avlForEach operation t param travesalType = (0, param)) ∧
      (avlIsEmpty t = true ↔ ds = []) ∧ avlSize t = ds.length ∧ Nat.fib (avlHeight t + 2) ≤ ds.length + 1 := by
  obtain ⟨t, hall, hbalanced, hsorted⟩ := insertAll_sorts hc ds
  have hsize : (elements t).length = ds.length := hsorted.perm.length_eq
  refine ⟨t, elements t, hall, hsorted, fun operation param => avlForEach_order operation t param 2, ?_, ?_, ?_, ?_, ?_⟩
  · rintro travesalType (rfl | rfl)
    · exact ⟨preOrder t, (preOrder_perm t).trans hsorted.perm,
        fun operation param => avlForEach_order operation t param 1⟩
    · exact ⟨postOrder t, (postOrder_perm t).trans hsorted.perm,
        fun operation param => avlForEach_order operation t param 3⟩
  · intro operation param travesalType hpre hin hpost
    rw [avlForEach, if_neg hpre, if_neg hin, if_neg hpost]
  · rw [← List.length_eq_zero_iff, ← hsize]
    cases t with
    | nil => exact iff_of_true rfl rfl
    | node e l r => exact iff_of_false nofun (by simp)
  · exact (nodeTreeSize_eq t).trans hsize
  · rw [avlHeight, nodeHeigth_eq, ← hsize]
    exact (fib_le_numNodes hbalanced).trans (Nat.le_of_eq (congrArg (· + 1) (length_keys Entry.data t).symm))

/-- A list of one element that is there twice. -/
theorem insertAll_sample : ∃ t xs, insertAll byValue [2, 1, 2] = some t ∧ StablySorted byValue [2, 1, 2] xs ∧
    ∀ param, avlForEach (fun d (param : List Int) => (0, d :: param)) t param 2 =
      forEach (fun d (param : List Int) => (0, d :: param)) xs param := by
  obtain ⟨t, xs, hall, hsorted, hwalk, -⟩ := insertAll_walks (σ := List Int) byValue_preorder [2, 1, 2]
  exact ⟨t, xs, hall, hsorted, fun param => hwalk _ param⟩

end Workbench.Avl
