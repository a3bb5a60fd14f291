import Workbench.Lib.Dict

/-!
# `Tree.Bst` — the binary search tree of nodes with parents

The dummy root is a part of the tree; its left relative is the root, and its data are the first node. The other nodes
are allocated one by one. An assertion that fails, and a `NULL` or a freed node that is dereferenced, are `none`.

## Contents
* `bstInsert`, `bstRemove` — the changes, as assignments to the relatives of nodes;
* `bstIterNext`, `bstBegin`, `bstSize` — the walk over the elements;
* `bstIterPrev` — the way back.
-/

namespace Workbench.Bst

/-- `BST_iter_ty`. -/
inductive Iter
  | dummyRoot
  | node (address : Nat)
  deriving DecidableEq

/-- `tree_node_t`. The data of the dummy root are not here. -/
structure Node (α : Type) where
  data : Option α
  parent : Option Iter
  left : Option Iter
  right : Option Iter

/-- `BST_ty`: the comparator with its parameter, the data of the dummy root, and the nodes that were allocated and not
    freed. -/
structure Tree (α : Type) where
  compare : α → α → Int
  firstNode : Option Iter
  memory : Dict Iter (Node α)

variable {α : Type}

def bstCreate (compare : α → α → Int) : Tree α := ⟨compare, none, [(.dummyRoot, ⟨none, none, none, none⟩)]⟩

/-- `*iter`. -/
def deref (tree : Tree α) (iter : Iter) : Option (Node α) := Dict.get? tree.memory iter

/-- An assignment to a relative of `*iter`. -/
def assign (tree : Tree α) (iter : Iter) (f : Node α → Node α) : Option (Tree α) := do
  let node ← deref tree iter
  return { tree with memory := Dict.put tree.memory iter (f node) }

def free (tree : Tree α) (iter : Iter) : Tree α := { tree with memory := Dict.erase tree.memory iter }

/-! ## The walk -/

def bstBegin (tree : Tree α) : Option Iter := tree.firstNode

def bstEnd : Iter := .dummyRoot

/-- The first loop of `BSTIterNext`, up to a node that is not a right son, and to its parent. A walk that takes more
    turns than there are nodes has met one twice, and never ends. -/
def climbLoop (tree : Tree α) : Nat → Iter → Option Iter
  | 0, _ => none
  | turns + 1, runner => do
      let node ← deref tree runner
      let parent ← node.parent
      let parentNode ← deref tree parent
      if some runner = parentNode.right then climbLoop tree turns parent else return parent

/-- The second loop of `BSTIterNext`. -/
def leftmostLoop (tree : Tree α) : Nat → Iter → Option Iter
  | 0, _ => none
  | turns + 1, runner => do
      let node ← deref tree runner
      match node.left with
      | some left => leftmostLoop tree turns left
      | none => return runner

def bstIterNext (tree : Tree α) (iter : Iter) : Option Iter := do
  let node ← deref tree iter
  match node.right with
  | none => climbLoop tree tree.memory.length iter
  | some right => leftmostLoop tree tree.memory.length right

/-- The first loop of `BSTIterPrev`. The parent of the runner is dereferenced before it is compared to `NULL`, so that
    the comparisons to `NULL` decide nothing. -/
def climbBackLoop (tree : Tree α) : Nat → Iter → Option Iter
  | 0, _ => none
  | turns + 1, runner => do
      let node ← deref tree runner
      let parent ← node.parent
      let parentNode ← deref tree parent
      if some runner = parentNode.left then climbBackLoop tree turns parent else return parent

/-- The second loop of `BSTIterPrev`. -/
def rightmostLoop (tree : Tree α) : Nat → Iter → Option Iter
  | 0, _ => none
  | turns + 1, runner => do
      let node ← deref tree runner
      match node.right with
      | some right => rightmostLoop tree turns right
      | none => return runner

def bstIterPrev (tree : Tree α) (iter : Iter) : Option Iter := do
  let node ← deref tree iter
  match node.left with
  | none => climbBackLoop tree tree.memory.length iter
  | some left => rightmostLoop tree tree.memory.length left

def bstGetData (tree : Tree α) (iter : Iter) : Option α := (deref tree iter).bind Node.data

def bstSizeLoop (tree : Tree α) : Nat → Iter → Nat → Option Nat
  | 0, _, _ => none
  | turns + 1, runner, count =>
      if bstEnd ≠ runner then do
        let next ← bstIterNext tree runner
        bstSizeLoop tree turns next (count + 1)
      else
        some count

def bstSize (tree : Tree α) : Option Nat := do
  let runner ← bstBegin tree
  bstSizeLoop tree tree.memory.length runner 0

def walkLoop (tree : Tree α) : Nat → Iter → Option (List (Iter × α))
  | 0, _ => none
  | turns + 1, runner =>
      if bstEnd ≠ runner then do
        let data ← bstGetData tree runner
        let next ← bstIterNext tree runner
        let rest ← walkLoop tree turns next
        return (runner, data) :: rest
      else
        some []

/-- What a user meets on the way from `BSTBegin` to `BSTEnd`. -/
def walk (tree : Tree α) : Option (List (Iter × α)) := do
  let runner ← bstBegin tree
  walkLoop tree tree.memory.length runner

/-! ## Insertion -/

/-- 0, `LEFT` and `RIGHT`. -/
inductive Direction
  | none
  | left
  | right

/-- The loop of `FindWhereToInsert`: the node before the runner, and the direction from it. -/
def findLoop (tree : Tree α) (data : α) : Nat → Option Iter → Option Iter → Direction → Option (Option Iter × Direction)
  | 0, _, _, _ => none
  | _ + 1, none, beforeRunner, direction => some (beforeRunner, direction)
  | turns + 1, some runner, _, _ => do
      let node ← deref tree runner
      let nodeData ← node.data
      if tree.compare nodeData data > 0 then
        findLoop tree data turns node.left (some runner) .left
      else
        findLoop tree data turns node.right (some runner) .right

def findWhereToInsert (tree : Tree α) (data : α) : Option (Option Iter × Direction) := do
  let dummyRoot ← deref tree .dummyRoot
  findLoop tree data tree.memory.length dummyRoot.left none .none

def insertByDirection (tree : Tree α) (direction : Direction) (newTreeNode : Iter) (where_ : Option Iter) :
    Option (Tree α) :=
  match direction with
  | .none => do
      let tree ← assign tree .dummyRoot fun node => { node with left := some newTreeNode }
      let tree ← assign tree newTreeNode fun node => { node with parent := some .dummyRoot }
      return { tree with firstNode := some newTreeNode }
  | .left => do
      let where_ ← where_
      let tree ← assign tree where_ fun node => { node with left := some newTreeNode }
      assign tree newTreeNode fun node => { node with parent := some where_ }
  | .right => do
      let where_ ← where_
      let tree ← assign tree where_ fun node => { node with right := some newTreeNode }
      assign tree newTreeNode fun node => { node with parent := some where_ }

def updateBeginByData (tree : Tree α) (data : α) (whereToInsert : Iter) : Option (Tree α) := do
  let nodeToCheck ← tree.firstNode
  let nodeData ← bstGetData tree nodeToCheck
  return if 0 < tree.compare nodeData data then { tree with firstNode := some whereToInsert } else tree

/-- `new` is the address that `malloc` returns. -/
def bstInsert (tree : Tree α) (data : α) (new : Option Nat) : Option (Tree α × Iter) :=
  match new with
  | none => some (tree, bstEnd)
  | some address => do
      let newTreeNode := Iter.node address
      let tree : Tree α := { tree with memory := Dict.put tree.memory newTreeNode ⟨some data, none, none, none⟩ }
      let (where_, direction) ← findWhereToInsert tree data
      let tree ← insertByDirection tree direction newTreeNode where_
      let tree ← updateBeginByData tree data newTreeNode
      return (tree, newTreeNode)

/-! ## Removal -/

/-- `if (iter == parent->left) parent->left = son; else parent->right = son;` -/
def setSonLeft (tree : Tree α) (iter : Iter) (son : Option Iter) : Option (Tree α) := do
  let node ← deref tree iter
  let parent ← node.parent
  let parentNode ← deref tree parent
  if some iter = parentNode.left then
    assign tree parent fun node => { node with left := son }
  else
    assign tree parent fun node => { node with right := son }

/-- `if (iter == parent->right) parent->right = son; else parent->left = son;` -/
def setSonRight (tree : Tree α) (iter : Iter) (son : Option Iter) : Option (Tree α) := do
  let node ← deref tree iter
  let parent ← node.parent
  let parentNode ← deref tree parent
  if some iter = parentNode.right then
    assign tree parent fun node => { node with right := son }
  else
    assign tree parent fun node => { node with left := son }

def removeWithNoSons (tree : Tree α) (iter : Iter) : Option (Tree α) := do
  let tree ← setSonLeft tree iter none
  return free tree iter

def removeWithLeftSon (tree : Tree α) (iter : Iter) : Option (Tree α) := do
  let node ← deref tree iter
  let left ← node.left
  let tree ← assign tree left fun son => { son with parent := node.parent }
  let tree ← setSonLeft tree iter node.left
  return free tree iter

def removeWithRightSon (tree : Tree α) (iter : Iter) : Option (Tree α) := do
  let node ← deref tree iter
  let right ← node.right
  let tree ← assign tree right fun son => { son with parent := node.parent }
  let tree ← setSonRight tree iter node.right
  return free tree iter

/-- The left son is hung below the next node, and the right son takes the place of the node. -/
def removeWithTwoSons (tree : Tree α) (iter : Iter) : Option (Tree α) := do
  let nextIter ← bstIterNext tree iter
  let node ← deref tree iter
  let tree ← assign tree nextIter fun next => { next with left := node.left }
  let left ← node.left
  let tree ← assign tree left fun son => { son with parent := some nextIter }
  let tree ← assign tree iter fun node => { node with left := none }
  let node ← deref tree iter
  let right ← node.right
  let tree ← assign tree right fun son => { son with parent := node.parent }
  let tree ← setSonRight tree iter node.right
  return free tree iter

/-- The cases are those of `GetNumOfSons`. -/
def bstRemove (tree : Tree α) (iter : Iter) : Option (Tree α × α) := do
  let node ← deref tree iter
  let _ ← node.parent
  let dataToReturn ← bstGetData tree iter
  let tree ←
    match node.left, node.right with
    | none, none => removeWithNoSons tree iter
    | some _, none => removeWithLeftSon tree iter
    | none, some _ => removeWithRightSon tree iter
    | some _, some _ => removeWithTwoSons tree iter
  return (tree, dataToReturn)

end Workbench.Bst
