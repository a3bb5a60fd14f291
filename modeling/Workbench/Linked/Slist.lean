import Workbench.Lib.Dict

/-!
# `Linked.Slist` — the singly linked list

A list ends with a dummy node, whose data are the list itself. Nodes move from list to list, so all lists are in one
memory. A `NULL` or a freed node that is dereferenced, and data that are no list where one is needed, are `none`.

## Contents
* `slistInsert`, `slistRemove` — they move data from node to node, and the dummy with its list;
* `slistCount` — a walk with an action;
* `slistAppend` — the dummies of two lists.
-/

namespace Workbench.SinglyLinked

/-- `void *`: what a user has, or a list. -/
inductive Data (α : Type)
  | user (data : α)
  | list (address : Nat)
  deriving DecidableEq

/-- `slist_node`. -/
structure SlistNode (α : Type) where
  data : Data α
  nextNode : Option Nat

/-- `struct slist`. -/
structure Slist where
  head : Nat
  tail : Nat

/-- What was allocated and not freed. A queue has the address of its list. -/
structure Memory (α : Type) where
  queues : Dict Nat Nat
  lists : Dict Nat Slist
  nodes : Dict Nat (SlistNode α)

variable {α σ : Type}

/-- `*list`. -/
def derefList (memory : Memory α) (list : Nat) : Option Slist := Dict.get? memory.lists list

/-- `*iter`. -/
def deref (memory : Memory α) (iter : Nat) : Option (SlistNode α) := Dict.get? memory.nodes iter

/-- An assignment to a field of `*list`. -/
def assignList (memory : Memory α) (list : Nat) (f : Slist → Slist) : Option (Memory α) := do
  let slist ← derefList memory list
  return { memory with lists := Dict.put memory.lists list (f slist) }

/-- An assignment to a field of `*iter`. -/
def assign (memory : Memory α) (iter : Nat) (f : SlistNode α → SlistNode α) : Option (Memory α) := do
  let node ← deref memory iter
  return { memory with nodes := Dict.put memory.nodes iter (f node) }

/-- `(Slist_t *)data`. -/
def asList : Data α → Option Nat
  | .user _ => none
  | .list address => some address

/-- `newSlist` and `newHead` are what `malloc` returns. -/
def slistCreate (memory : Memory α) (newSlist newHead : Option Nat) : Memory α × Option Nat :=
  match newSlist, newHead with
  | some list, some head =>
      ({ memory with
          lists := Dict.put memory.lists list ⟨head, head⟩
          nodes := Dict.put memory.nodes head ⟨.list list, none⟩ }, some list)
  | _, _ => (memory, none)

def slistBegin (memory : Memory α) (list : Nat) : Option Nat := (derefList memory list).map Slist.head

def slistEnd (memory : Memory α) (list : Nat) : Option Nat := (derefList memory list).map Slist.tail

/-- The outer `none` is a failure, the inner one is `NULL`. -/
def slistNext (memory : Memory α) (iter : Nat) : Option (Option Nat) := (deref memory iter).map SlistNode.nextNode

def slistGetData (memory : Memory α) (iter : Nat) : Option (Data α) := (deref memory iter).map SlistNode.data

def slistSetData (memory : Memory α) (iter : Nat) (data : Data α) : Option (Memory α) :=
  assign memory iter fun node => { node with data }

/-- A walk that takes more turns than there are nodes never ends. -/
def getEndByNext (memory : Memory α) : Nat → Nat → Option Nat
  | 0, _ => none
  | turns + 1, nodeRunner => do
      let next ← slistNext memory nodeRunner
      match next with
      | some next => getEndByNext memory turns next
      | none => return nodeRunner

def slistInsert (memory : Memory α) (where_ : Nat) (data : Data α) (new : Option Nat) : Option (Memory α × Nat) :=
  match new with
  | none => do
      let last ← getEndByNext memory memory.nodes.length where_
      return (memory, last)
  | some newNode => do
      let node ← deref memory where_
      let memory := { memory with nodes := Dict.put memory.nodes newNode ⟨node.data, node.nextNode⟩ }
      let memory ← assign memory where_ fun node => { node with nextNode := some newNode }
      let memory ← slistSetData memory where_ data
      match node.nextNode with
      | none => do
          let list ← asList node.data
          let memory ← assignList memory list fun slist => { slist with tail := newNode }
          return (memory, where_)
      | some _ => return (memory, where_)

/-- It compares what comes next. -/
def slistIsSameIter (memory : Memory α) (one two : Nat) : Option Bool := do
  let nextOne ← slistNext memory one
  let nextTwo ← slistNext memory two
  return nextOne = nextTwo

/-- The node and what comes next, or `NULL` for the end of a list. -/
def slistRemove (memory : Memory α) (iter : Nat) : Option (Memory α × Option Nat) := do
  let next ← slistNext memory iter
  match next with
  | none => return (memory, none)
  | some buffer => do
      let data ← slistGetData memory buffer
      let memory ← slistSetData memory iter data
      let afterNext ← slistNext memory buffer
      let memory ←
        match afterNext with
        | none => do
            let list ← asList data
            let memory ← assignList memory list fun slist => { slist with tail := iter }
            assignList memory list fun slist => { slist with head := iter }
        | some _ => some memory
      let memory ← assign memory iter fun node => { node with nextNode := afterNext }
      return ({ memory with nodes := Dict.erase memory.nodes buffer }, some iter)

/-- The loop of `SlistForEach`. The action always gets the data of the first node. -/
def slistForEachLoop (memory : Memory α) (from_ to_ : Nat) (action : Data α → σ → Int × σ) :
    Nat → Nat → σ → Option σ
  | 0, _, _ => none
  | turns + 1, runner, param => do
      let same ← slistIsSameIter memory runner to_
      if same then
        return param
      else do
        let data ← slistGetData memory from_
        let (status, param) := action data param
        if status = 0 then do
          let next ← slistNext memory runner
          let next ← next
          slistForEachLoop memory from_ to_ action turns next param
        else
          return param

/-- The parameter after the walk; the result is 0. -/
def slistForEach (memory : Memory α) (from_ to_ : Nat) (action : Data α → σ → Int × σ) (param : σ) : Option σ :=
  slistForEachLoop memory from_ to_ action memory.nodes.length from_ param

def countNode (_ : Data α) (param : Nat) : Int × Nat := (0, param + 1)

def slistCount (memory : Memory α) (list : Nat) : Option Nat := do
  let from_ ← slistBegin memory list
  let to_ ← slistEnd memory list
  slistForEach memory from_ to_ countNode 0

def slistAppend (memory : Memory α) (dest src : Nat) : Option (Memory α) := do
  let srcHead ← slistBegin memory src
  let next ← slistNext memory srcHead
  match next with
  | none => return memory
  | some _ => do
      let srcTail ← slistEnd memory src
      let destTail ← slistEnd memory dest
      let data ← slistGetData memory destTail
      let memory ← slistSetData memory srcTail data
      let data ← slistGetData memory srcHead
      let memory ← slistSetData memory destTail data
      let next ← slistNext memory srcHead
      let memory ← assign memory destTail fun node => { node with nextNode := next }
      let memory ← assignList memory dest fun slist => { slist with tail := srcTail }
      let memory ← assign memory srcHead fun node => { node with data := .list src }
      let memory ← assign memory srcHead fun node => { node with nextNode := none }
      assignList memory src fun slist => { slist with tail := slist.head }

end Workbench.SinglyLinked
