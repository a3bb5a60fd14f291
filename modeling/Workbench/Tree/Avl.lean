import Mathlib.Data.Tree.Basic

/-!
# `Tree.Avl` — the AVL tree

Nodes are values: a node that no pointer reaches any more is gone. The field `height` of a node is its balance factor
when the node was last passed, or a height when the node was last rotated. A `NULL` that is dereferenced is `none`.

## Contents
* `nodeHeigth`, `rotateRight`, `rotateLeft`, `balanceTreeIfNeeded` — rebalancing;
* `balancedInsert`, `removeNode`, `findToRemove`, `nodeFind` — insertion, removal and search;
* `avlInsert`, `avlInsertWith`, `avlRemove`, `avlFind` — the calls.
-/

namespace Workbench.Avl

variable {α : Type}

/-- What a node holds. -/
structure Entry (α : Type) where
  data : α
  height : Int

abbrev Node (α : Type) : Type := BinaryTree (Entry α)

/-! ## Directions -/

inductive Direction
  | left
  | right
  deriving DecidableEq

def relative : Node α → Direction → Node α
  | node, .left => node.left
  | node, .right => node.right

def setRelative : Node α → Direction → Node α → Node α
  | .nil, _, _ => .nil
  | .node e _ r, .left, son => .node e son r
  | .node e l _, .right, son => .node e l son

/-- `GetDirection`: an equal element is to the right. -/
def getDirection (compare : α → α → Int) (data insertData : α) : Direction :=
  if 0 < compare data insertData then .left else .right

/-! ## Rebalancing -/

/-- `NodeHeigth`. -/
def nodeHeigth : Node α → Nat
  | .nil => 0
  | .node _ .nil .nil => 1
  | .node _ l r => if 1 + nodeHeigth l > 1 + nodeHeigth r then 1 + nodeHeigth l else 1 + nodeHeigth r

/-- `RotateRight`: the two nodes that are moved get their heights. -/
def rotateRight : Node α → Option (Node α)
  | .node e (.node el ll lr) r =>
      let node : Node α := .node { e with height := nodeHeigth (.node e lr r) } lr r
      some (.node { el with height := nodeHeigth (.node el ll node) } ll node)
  | _ => none

/-- `RotateLeft`. -/
def rotateLeft : Node α → Option (Node α)
  | .node e l (.node er rl rr) =>
      let node : Node α := .node { e with height := nodeHeigth (.node e l rl) } l rl
      some (.node { er with height := nodeHeigth (.node er node rr) } node rr)
  | _ => none

/-- The assignment of the balance factor to `node->height`. -/
def updateHeight : Node α → Option (Node α)
  | .nil => none
  | .node e l r => some (.node { e with height := (nodeHeigth l : Int) - (nodeHeigth r : Int) } l r)

/-- `node->height`. -/
def height : Node α → Option Int
  | .nil => none
  | .node e _ _ => some e.height

def balanceTreeIfNeeded : Node α → Option (Node α)
  | .nil => none
  | .node e l r =>
      if 1 < e.height then do
        if -1 < (← height l) then
          rotateRight (.node e l r)
        else
          -- the inner son of the left son is the taller one
          let l' ← rotateLeft l
          rotateRight (.node e l' r)
      else if -1 > e.height then do
        if 1 > (← height r) then
          rotateLeft (.node e l r)
        else
          -- the inner son of the right son is the taller one
          let r' ← rotateRight r
          rotateLeft (.node e l r')
      else
        some (.node e l r)

/-- What `BalancedInsert` and `FindToRemove` do with a node on their way up. -/
def rebalance (node : Node α) : Option (Node α) := updateHeight node >>= balanceTreeIfNeeded

/-! ## Insertion -/

/-- `NodeCreate`, which succeeds. -/
def nodeCreate (data : α) : Node α := .node ⟨data, 0⟩ .nil .nil

def balancedInsert (compare : α → α → Int) (data : α) : Node α → Option (Node α)
  | .nil => some (nodeCreate data)
  | .node e l r =>
      match getDirection compare e.data data with
      | .left => do
          let l' ← balancedInsert compare data l
          rebalance (.node e l' r)
      | .right => do
          let r' ← balancedInsert compare data r
          rebalance (.node e l r')

/-- `NodeCreate`; `memory` is whether `malloc` succeeds. -/
def nodeCreateWith (memory : Bool) (data : α) : Node α := if memory then nodeCreate data else .nil

/-- `BalancedInsert`, with whether `malloc` succeeds. -/
def balancedInsertWith (memory : Bool) (compare : α → α → Int) (data : α) : Node α → Option (Node α)
  | .nil => some (nodeCreateWith memory data)
  | .node e l r =>
      match getDirection compare e.data data with
      | .left => do
          match ← balancedInsertWith memory compare data l with
          | .nil => some .nil
          | .node el ll lr => rebalance (.node e (.node el ll lr) r)
      | .right => do
          match ← balancedInsertWith memory compare data r with
          | .nil => some .nil
          | .node er rl rr => rebalance (.node e l (.node er rl rr))

/-! ## Search -/

def nodeIsLeaf : Node α → Bool
  | .node _ .nil .nil => true
  | _ => false

def isNull : Node α → Bool
  | .nil => true
  | .node _ _ _ => false

/-- `NodeFind`. The data are pointers, and `null` is one of them. -/
def nodeFind (compare : α → α → Int) (null key : α) : Node α → α
  | .nil => null
  | .node e l r =>
      if compare e.data key = 0 then key
      else if nodeIsLeaf (.node e l r) then null
      else
        match getDirection compare e.data key with
        | .left => if isNull l then null else nodeFind compare null key l
        | .right => if isNull r then null else nodeFind compare null key r

/-! ## Removal -/

inductive SonsNum
  | noSons
  | oneLeftSon
  | oneRightSon
  | twoSons
  deriving DecidableEq

def getNumOfSons : Node α → SonsNum
  | .node _ .nil .nil => .noSons
  | .node _ (.node _ _ _) .nil => .oneLeftSon
  | .node _ .nil (.node _ _ _) => .oneRightSon
  | .node _ (.node _ _ _) (.node _ _ _) => .twoSons
  | .nil => .noSons

/-- `MostLeftNode` of the node that holds `e`: its data, and what is left when the node is unlinked. -/
def mostLeftNode : Entry α → Node α → Node α → α × Node α
  | e, .nil, r => (e.data, r)
  | e, .node el ll lr, r => ((mostLeftNode el ll lr).1, .node e (mostLeftNode el ll lr).2 r)

/-- The node that takes the data of the next one, as in `RemoveWithTwoSons`. -/
def takeNext : Node α → Node α
  | .node e l (.node er rl rr) => .node { e with data := (mostLeftNode er rl rr).1 } l (mostLeftNode er rl rr).2
  | node => node

/-- The node that takes the data and the sons of its only son, as the root does. -/
def takeSon : Node α → Node α → Node α
  | .node e _ _, .node es ls rs => .node { e with data := es.data } ls rs
  | node, _ => node

/-- `RemoveNode` of the son in the direction. -/
def removeNode (parent : Node α) (direction : Direction) : Node α :=
  match getNumOfSons (relative parent direction) with
  | .noSons => setRelative parent direction .nil
  | .oneLeftSon => setRelative parent direction (relative parent direction).left
  | .oneRightSon => setRelative parent direction (relative parent direction).right
  | .twoSons => setRelative parent direction (takeNext (relative parent direction))

/-- `RemoveNode` with `ROOT_DIRECTION`. What it reads behind the two relatives is not used. -/
def removeRoot (root : Node α) : Node α :=
  match getNumOfSons root with
  | .noSons => .nil
  | .oneLeftSon => takeSon root root.left
  | .oneRightSon => takeSon root root.right
  | .twoSons => takeNext root

/-- `FindToRemove`: the node that is given back is the parent of the one removed, with `tree->root` for the end of the
    path. No node above takes it in. -/
def findToRemove (compare : α → α → Int) (root : Node α) (data : α) :
    Node α → Node α → Direction → Option (Node α)
  | .nil, _, _ => some root
  | .node e l r, parent, direction =>
      if compare e.data data = 0 then
        some (removeNode parent direction)
      else
        match getDirection compare e.data data with
        | .left => findToRemove compare root data l (.node e l r) .left >>= rebalance
        | .right => findToRemove compare root data r (.node e l r) .right >>= rebalance

/-! ## The calls -/

/-- `AVLInsert`, with the new root. -/
def avlInsert (compare : α → α → Int) (root : Node α) (data : α) : Option (Node α) :=
  balancedInsert compare data root

/-- `AVLInsert`, with the new root and what is returned. -/
def avlInsertWith (memory : Bool) (compare : α → α → Int) (root : Node α) (data : α) : Option (Node α × Int) := do
  let root ← balancedInsertWith memory compare data root
  some (root, if isNull root then 0 else 1)

/-- `AVLFind`. -/
def avlFind (compare : α → α → Int) (null : α) (root : Node α) (key : α) : α := nodeFind compare null key root

/-- `AVLRemove`, with the new root. -/
def avlRemove (compare : α → α → Int) (root : Node α) (data : α) : Option (Node α) :=
  match root with
  | .nil => some .nil
  | .node e l r =>
      if compare e.data data = 0 then
        some (removeRoot (.node e l r))
      else
        findToRemove compare (.node e l r) data (.node e l r) .nil .left

end Workbench.Avl
