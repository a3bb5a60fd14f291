import Workbench.Lib.Dict
import Workbench.Lib.Links
import Mathlib.Data.List.Perm.Subperm

/-!
# `Linked.Dlist` — the doubly linked list

The two dummies are parts of the list, the other nodes are allocated one by one. Nodes of different lists never lead to
each other, so a list has a memory of its own. An assertion that fails, and a `NULL` or a freed node that is
dereferenced, are `none`; a `NULL` that is returned as an iterator is `none` too.

## Main results
* `Holds` — the list has these nodes with these data, in this order;
* `Holds.insert`, `Holds.remove`, `Holds.setData` — what changes;
* `Holds.walk`, `Holds.size` — the loops end, and where.
-/

namespace Workbench.DoublyLinked

/-- `Dlist_iter_t`. -/
inductive Iter
  | beginDummy
  | endDummy
  | node (address : Nat)
  deriving DecidableEq

/-- `dlist_node_t`. The data of a dummy is the list itself: it is `none`, and nothing reads it. -/
structure Node (α : Type) where
  data : Option α
  nextNode : Option Iter
  prevNode : Option Iter

/-- `dlist_t`, with the nodes that were allocated and not freed. -/
structure Dlist (α : Type) where
  memory : Dict Iter (Node α)

variable {α : Type}

/-! ## The functions -/

def dlistCreate : Dlist α :=
  ⟨[(.beginDummy, ⟨none, some .endDummy, none⟩), (.endDummy, ⟨none, none, some .beginDummy⟩)]⟩

/-- `*iter`. -/
def deref (list : Dlist α) (iter : Iter) : Option (Node α) := Dict.get? list.memory iter

/-- An assignment to a field of `*iter`. -/
def assign (list : Dlist α) (iter : Iter) (f : Node α → Node α) : Option (Dlist α) := do
  let node ← deref list iter
  return ⟨Dict.put list.memory iter (f node)⟩

def dlistNext (list : Dlist α) (iter : Iter) : Option Iter := (deref list iter).bind Node.nextNode

def dlistPrev (list : Dlist α) (iter : Iter) : Option Iter := (deref list iter).bind Node.prevNode

def dlistBegin (list : Dlist α) : Option Iter := dlistNext list .beginDummy

def dlistEnd (_ : Dlist α) : Iter := .endDummy

def dlistIsEmpty (list : Dlist α) : Option Bool := do
  let first ← dlistBegin list
  return first = dlistEnd list

def dlistGetData (list : Dlist α) (iter : Iter) : Option α := do
  let _ ← dlistNext list iter
  let _ ← dlistPrev list iter
  let node ← deref list iter
  node.data

def dlistSetData (list : Dlist α) (iter : Iter) (data : α) : Option (Dlist α) := do
  let _ ← dlistNext list iter
  let _ ← dlistPrev list iter
  assign list iter fun node => { node with data := some data }

/-- The loop of `DlistSize`. A walk that takes more turns than there are nodes has met one twice, and never ends. -/
def dlistSizeLoop (list : Dlist α) : Nat → Iter → Nat → Option Nat
  | 0, _, _ => none
  | turns + 1, runner, counter =>
      if dlistEnd list ≠ runner then do
        let next ← dlistNext list runner
        dlistSizeLoop list turns next (counter + 1)
      else
        some counter

def dlistSize (list : Dlist α) : Option Nat := do
  let first ← dlistBegin list
  dlistSizeLoop list list.memory.length first 0

/-- `new` is the address that `malloc` returns. -/
def dlistInsert (list : Dlist α) (where_ : Iter) (data : α) (new : Option Nat) : Option (Dlist α × Iter) :=
  match new with
  | none => some (list, dlistEnd list)
  | some address => do
      let whereNode ← deref list where_
      let list : Dlist α := ⟨Dict.put list.memory (.node address) ⟨none, some where_, whereNode.prevNode⟩⟩
      let list ← dlistSetData list (.node address) data
      let prev ← dlistPrev list where_
      let list ← assign list prev fun node => { node with nextNode := some (.node address) }
      let list ← assign list where_ fun node => { node with prevNode := some (.node address) }
      return (list, .node address)

def dlistRemove (list : Dlist α) (iter : Iter) : Option (Dlist α × Iter) :=
  if iter = dlistEnd list then
    none
  else do
    let node ← deref list iter
    let next ← node.nextNode
    let list ← assign list next fun nextNode => { nextNode with prevNode := node.prevNode }
    let prev ← dlistPrev list iter
    let list ← assign list prev fun prevNode => { prevNode with nextNode := some next }
    return (⟨Dict.erase list.memory iter⟩, next)

def dlistPushBack (list : Dlist α) (data : α) (new : Option Nat) : Option (Dlist α × Iter) :=
  dlistInsert list (dlistEnd list) data new

/-- The loop `while (runner is not to && goesOn(data)) runner = next` of `DlistFind` and of the sorted list. -/
def walk (list : Dlist α) (to_ : Iter) (goesOn : α → Bool) : Nat → Iter → Option Iter
  | 0, _ => none
  | turns + 1, runner =>
      if runner = to_ then
        some runner
      else do
        let data ← dlistGetData list runner
        if goesOn data then
          let next ← dlistNext list runner
          walk list to_ goesOn turns next
        else
          return runner

def dlistFind (list : Dlist α) (from_ to_ : Iter) (isMatch : α → α → Int) (dataToCompare : α) : Option Iter :=
  walk list to_ (fun data => isMatch data dataToCompare = 0) list.memory.length from_

/-! ## What a list holds -/

/-- The nodes of some elements, up to the second dummy. -/
def after (ys : List (Nat × α)) : List Iter := ys.map (fun e => .node e.1) ++ [.endDummy]

/-- The nodes from the first dummy to the second one. -/
def nodes (xs : List (Nat × α)) : List Iter := .beginDummy :: after xs

/-- The list has these nodes with these data, in this order. -/
structure Holds (list : Dlist α) (xs : List (Nat × α)) : Prop where
  links : Links (dlistNext list) (dlistPrev list) (nodes xs)
  nodup : (nodes xs).Nodup
  data : ∀ e ∈ xs, (deref list (.node e.1)).bind Node.data = some e.2

/-- The first of the nodes, or the second dummy. -/
def first : List (Nat × α) → Iter
  | [] => .endDummy
  | e :: _ => .node e.1

@[simp] theorem first_nil : first ([] : List (Nat × α)) = .endDummy := rfl

@[simp] theorem first_cons (e : Nat × α) (xs : List (Nat × α)) : first (e :: xs) = .node e.1 := rfl

variable {list list' : Dlist α} {xs ys : List (Nat × α)} {e : Nat × α} {address : Nat} {data : α} {iter : Iter}

theorem after_eq_cons (ys : List (Nat × α)) : ∃ r, after ys = first ys :: r := by
  cases ys with
  | nil => exact ⟨_, rfl⟩
  | cons e ys => exact ⟨_, rfl⟩

/-- The place after some elements: the node in front of it does not depend on what comes next. -/
theorem nodes_append (xs : List (Nat × α)) : ∃ l x, ∀ ys, nodes (xs ++ ys) = l ++ x :: after ys := by
  obtain ⟨l, x, hl⟩ : ∃ l x, Iter.beginDummy :: xs.map (fun e => .node e.1) = l ++ [x] :=
    ⟨_, _, (List.dropLast_concat_getLast (List.cons_ne_nil _ _)).symm⟩
  refine ⟨l, x, fun ys => ?_⟩
  unfold nodes after
  rw [List.map_append, List.append_assoc, ← List.cons_append, hl, List.append_assoc]
  rfl

/-- The two neighbours at a place. -/
theorem Holds.between (h : Holds list (xs ++ ys)) : ∃ l x r, after ys = first ys :: r ∧
    (∀ zs, nodes (xs ++ zs) = l ++ x :: after zs) ∧ Link (dlistNext list) (dlistPrev list) x (first ys) := by
  obtain ⟨l, x, hsplit⟩ := nodes_append xs
  obtain ⟨r, hr⟩ := after_eq_cons ys
  have hlinks := h.links
  rw [hsplit, hr] at hlinks
  exact ⟨l, x, r, hr, hsplit, (List.isChain_append_cons_cons.mp hlinks).2.1⟩

theorem deref_of_next {p q : Iter} (h : dlistNext list p = some q) :
    ∃ node, deref list p = some node ∧ node.nextNode = some q := Option.bind_eq_some_iff.mp h

theorem deref_of_prev {p q : Iter} (h : dlistPrev list p = some q) :
    ∃ node, deref list p = some node ∧ node.prevNode = some q := Option.bind_eq_some_iff.mp h

/-! ## Writing -/

theorem deref_put_self (iter : Iter) (node : Node α) : deref ⟨Dict.put list.memory iter node⟩ iter = some node :=
  Dict.get?_put_self _ _ _

theorem deref_put_ne {p q : Iter} (h : p ≠ q) (node : Node α) :
    deref ⟨Dict.put list.memory p node⟩ q = deref list q := Dict.get?_put_ne h _ _

theorem assign_eq {node : Node α} (h : deref list iter = some node) (f : Node α → Node α) :
    assign list iter f = some ⟨Dict.put list.memory iter (f node)⟩ := by
  unfold assign
  rw [h]
  rfl

/-- From `list` to `list'` changes what comes after `x`, what comes before `z`, and the node `y`. -/
structure Changed (list list' : Dlist α) (x z y : Iter) : Prop where
  next : ∀ p, p ≠ x → p ≠ y → dlistNext list' p = dlistNext list p
  prev : ∀ p, p ≠ z → p ≠ y → dlistPrev list' p = dlistPrev list p
  data : ∀ p, p ≠ y → (deref list' p).bind Node.data = (deref list p).bind Node.data

theorem Changed.of_reads {x z y : Iter} {nx nz : Node α} {next prev : Option Iter} (hx : deref list x = some nx)
    (hz : deref list z = some nz) (hx' : deref list' x = some { nx with nextNode := next })
    (hz' : deref list' z = some { nz with prevNode := prev })
    (hother : ∀ p, p ≠ x → p ≠ z → p ≠ y → deref list' p = deref list p) : Changed list list' x z y where
  next p hpx hpy := by
    by_cases hpz : p = z
    · subst hpz
      rw [dlistNext, dlistNext, hz', hz, Option.bind_some, Option.bind_some]
    · rw [dlistNext, dlistNext, hother p hpx hpz hpy]
  prev p hpz hpy := by
    by_cases hpx : p = x
    · subst hpx
      rw [dlistPrev, dlistPrev, hx', hx, Option.bind_some, Option.bind_some]
    · rw [dlistPrev, dlistPrev, hother p hpx hpz hpy]
  data p hpy := by
    by_cases hpx : p = x
    · subst hpx
      rw [hx', hx, Option.bind_some, Option.bind_some]
    · by_cases hpz : p = z
      · subst hpz
        rw [hz', hz, Option.bind_some, Option.bind_some]
      · rw [hother p hpx hpz hpy]

/-- **A node is made** between two neighbours; the rest is as before. -/
theorem dlistInsert_eq {x z : Iter} (hlink : Link (dlistNext list) (dlistPrev list) x z)
    (hnew : deref list (.node address) = none) (hne : x ≠ z) (data : α) :
    ∃ list', dlistInsert list z data (some address) = some (list', .node address) ∧
      Link (dlistNext list') (dlistPrev list') x (.node address) ∧
      Link (dlistNext list') (dlistPrev list') (.node address) z ∧
      (deref list' (.node address)).bind Node.data = some data ∧ Changed list list' x z (.node address) := by
  obtain ⟨nx, hx, hnextx⟩ := deref_of_next hlink.1
  obtain ⟨nz, hz, hprevz⟩ := deref_of_prev hlink.2
  have hnewx : .node address ≠ x := by
    rintro rfl
    rw [hnew] at hx
    cases hx
  have hnewz : .node address ≠ z := by
    rintro rfl
    rw [hnew] at hz
    cases hz
  -- the new node, then the neighbours
  let list₁ : Dlist α := ⟨Dict.put list.memory (.node address) ⟨some data, some z, some x⟩⟩
  let list₂ : Dlist α := ⟨Dict.put list₁.memory x { nx with nextNode := some (.node address) }⟩
  let list₃ : Dlist α := ⟨Dict.put list₂.memory z { nz with prevNode := some (.node address) }⟩
  have hx₁ : deref list₁ x = some nx := (deref_put_ne hnewx _).trans hx
  have hz₁ : deref list₁ z = some nz := (deref_put_ne hnewz _).trans hz
  have hz₂ : deref list₂ z = some nz := (deref_put_ne hne _).trans hz₁
  have hnew₃ : deref list₃ (.node address) = some ⟨some data, some z, some x⟩ :=
    (deref_put_ne (Ne.symm hnewz) _).trans ((deref_put_ne (Ne.symm hnewx) _).trans (deref_put_self _ _))
  have hx₃ : deref list₃ x = some { nx with nextNode := some (.node address) } :=
    (deref_put_ne (Ne.symm hne) _).trans (deref_put_self _ _)
  have hz₃ : deref list₃ z = some { nz with prevNode := some (.node address) } := deref_put_self _ _
  have hother : ∀ p, p ≠ x → p ≠ z → p ≠ .node address → deref list₃ p = deref list p := fun p hpx hpz hpnew =>
    (deref_put_ne (Ne.symm hpz) _).trans ((deref_put_ne (Ne.symm hpx) _).trans (deref_put_ne (Ne.symm hpnew) _))
  refine ⟨list₃, ?_, ⟨?_, ?_⟩, ⟨?_, ?_⟩, ?_, .of_reads hx hz hx₃ hz₃ hother⟩
  · have hset : dlistSetData ⟨Dict.put list.memory (.node address) ⟨none, some z, some x⟩⟩ (.node address) data =
        some list₁ := by
      simp only [dlistSetData, dlistNext, dlistPrev, deref_put_self, assign_eq (deref_put_self _ _), Dict.put_put,
        Option.bind_some, bind]
      rfl
    simp only [dlistInsert, hz, hprevz, hset, dlistPrev, hz₁, assign_eq hx₁, Option.bind_some, bind]
    rw [assign_eq hz₂]
    rfl
  · rw [dlistNext, hx₃, Option.bind_some]
  · rw [dlistPrev, hnew₃, Option.bind_some]
  · rw [dlistNext, hnew₃, Option.bind_some]
  · rw [dlistPrev, hz₃, Option.bind_some]
  · rw [hnew₃, Option.bind_some]

/-- A node between two neighbours that are linked with it goes; the rest is as before. -/
theorem dlistRemove_eq {x y z : Iter} (hxy : Link (dlistNext list) (dlistPrev list) x y)
    (hyz : Link (dlistNext list) (dlistPrev list) y z) (hy : y ≠ .endDummy) (hnexy : x ≠ y) (hneyz : y ≠ z)
    (hnexz : x ≠ z) :
    ∃ list', dlistRemove list y = some (list', z) ∧ Link (dlistNext list') (dlistPrev list') x z ∧
      deref list' y = none ∧ Changed list list' x z y := by
  obtain ⟨ny, hderef, hnexty⟩ := deref_of_next hyz.1
  obtain ⟨nz, hz, hprevz⟩ := deref_of_prev hyz.2
  obtain ⟨nx, hx, hnextx⟩ := deref_of_next hxy.1
  have hprevy : ny.prevNode = some x := by
    have hprev := hxy.2
    rwa [dlistPrev, hderef, Option.bind_some] at hprev
  let list₁ : Dlist α := ⟨Dict.put list.memory z { nz with prevNode := some x }⟩
  let list₂ : Dlist α := ⟨Dict.put list₁.memory x { nx with nextNode := some z }⟩
  let list₃ : Dlist α := ⟨Dict.erase list₂.memory y⟩
  have hx₁ : deref list₁ x = some nx := (deref_put_ne (Ne.symm hnexz) _).trans hx
  have hy₁ : deref list₁ y = some ny := (deref_put_ne (Ne.symm hneyz) _).trans hderef
  have herase : ∀ p, p ≠ y → deref list₃ p = deref list₂ p := fun p hp => Dict.get?_erase_ne (Ne.symm hp) _
  have hx₃ : deref list₃ x = some { nx with nextNode := some z } := (herase x hnexy).trans (deref_put_self _ _)
  have hz₃ : deref list₃ z = some { nz with prevNode := some x } :=
    (herase z (Ne.symm hneyz)).trans ((deref_put_ne hnexz _).trans (deref_put_self _ _))
  have hother : ∀ p, p ≠ x → p ≠ z → p ≠ y → deref list₃ p = deref list p := fun p hpx hpz hpy =>
    (herase p hpy).trans ((deref_put_ne (Ne.symm hpx) _).trans (deref_put_ne (Ne.symm hpz) _))
  refine ⟨list₃, ?_, ⟨?_, ?_⟩, ?_, .of_reads hx hz hx₃ hz₃ hother⟩
  · have hend : ¬ y = dlistEnd list := hy
    simp only [dlistRemove, if_neg hend, hderef, hnexty, assign_eq hz, hprevy, bind, Option.bind_some]
    have hprev₁ : dlistPrev list₁ y = some x := by rw [dlistPrev, hy₁, Option.bind_some, hprevy]
    show (dlistPrev list₁ y).bind _ = _
    rw [hprev₁, Option.bind_some]
    show (assign list₁ x _).bind _ = _
    rw [assign_eq hx₁]
    rfl
  · rw [dlistNext, hx₃, Option.bind_some]
  · rw [dlistPrev, hz₃, Option.bind_some]
  · exact Dict.get?_erase_self _ _

/-! ## What changes -/

theorem holds_create : Holds (dlistCreate : Dlist α) [] where
  links := List.isChain_pair.mpr ⟨rfl, rfl⟩
  nodup := by simp [nodes, after]
  data e he := absurd he List.not_mem_nil

theorem Holds.deref_isSome (h : Holds list xs) {p : Iter} (hp : p ∈ nodes xs) : (deref list p).isSome := by
  obtain ⟨l, r, hsplit⟩ := List.append_of_mem hp
  have hlinks := h.links
  rw [hsplit] at hlinks
  cases r with
  | cons q r =>
      obtain ⟨node, hnode, -⟩ := deref_of_next (List.isChain_append_cons_cons.mp hlinks).2.1.1
      rw [hnode]
      rfl
  | nil =>
      -- the last one has a node before it
      rcases List.eq_nil_or_concat l with rfl | ⟨l, q, rfl⟩
      · have hlength := congrArg List.length hsplit
        simp [nodes, after] at hlength
      · rw [List.concat_eq_append, List.append_assoc] at hlinks
        obtain ⟨node, hnode, -⟩ := deref_of_prev (List.isChain_append_cons_cons.mp hlinks).2.1.2
        rw [hnode]
        rfl

/-- An address that `malloc` returns is none of the nodes. -/
theorem Holds.new (h : Holds list xs) (hnew : deref list (.node address) = none) : .node address ∉ nodes xs := by
  intro hmem
  have hsome := h.deref_isSome hmem
  rw [hnew] at hsome
  cases hsome

theorem node_mem_nodes {x : Nat × α} : .node x.1 ∈ nodes xs ↔ ∃ y ∈ xs, y.1 = x.1 := by
  simp only [nodes, after, List.mem_cons, List.mem_append, List.mem_map, reduceCtorEq, Iter.node.injEq, false_or,
    List.not_mem_nil, or_false]

theorem Holds.ne_new (h : Holds list xs) (hnew : deref list (.node address) = none) {x : Nat × α} (hx : x ∈ xs) :
    Iter.node x.1 ≠ .node address := by
  intro heq
  exact h.new hnew (heq ▸ node_mem_nodes.mpr ⟨x, hx, rfl⟩)

/-- **A node is inserted** in front of some elements. -/
theorem Holds.insert (h : Holds list (xs ++ ys)) (hnew : deref list (.node address) = none) (data : α) :
    ∃ list', dlistInsert list (first ys) data (some address) = some (list', .node address) ∧
      Holds list' (xs ++ (address, data) :: ys) := by
  have hnodup := h.nodup
  have hlinks := h.links
  have hfresh := h.new hnew
  obtain ⟨l, x, r, hr, hsplit, hlink⟩ := h.between
  rw [hsplit, hr] at hnodup hlinks hfresh
  have hne : x ≠ first ys := by
    rintro heq
    rw [heq] at hnodup
    exact (List.nodup_cons.mp (List.nodup_append.mp hnodup).2.1).1 List.mem_cons_self
  obtain ⟨list', heq, hxy, hyz, hdata, hchanged⟩ := dlistInsert_eq hlink hnew hne data
  have hnodes : nodes (xs ++ (address, data) :: ys) = l ++ x :: .node address :: first ys :: r := by
    rw [hsplit, ← hr]
    rfl
  refine ⟨list', heq, ?_, ?_, ?_⟩
  · rw [hnodes]
    refine links_link hlinks hnodup (fun p hp hpx => hchanged.next p hpx ?_) (fun p hp hpz => hchanged.prev p hpz ?_)
      hxy hyz
    · rintro rfl
      exact hfresh hp
    · rintro rfl
      exact hfresh hp
  · rw [hnodes]
    exact nodup_link.mpr ⟨hfresh, hnodup⟩
  · intro e he
    rcases List.mem_append.mp he with he | he
    · rw [hchanged.data _ (h.ne_new hnew (List.mem_append_left _ he)), h.data e (List.mem_append_left _ he)]
    · rcases List.mem_cons.mp he with rfl | he
      · exact hdata
      · rw [hchanged.data _ (h.ne_new hnew (List.mem_append_right _ he)), h.data e (List.mem_append_right _ he)]

/-- **A node is removed.** -/
theorem Holds.remove (h : Holds list (xs ++ e :: ys)) :
    ∃ list', dlistRemove list (.node e.1) = some (list', first ys) ∧ Holds list' (xs ++ ys) ∧
      deref list' (.node e.1) = none := by
  have hnodup := h.nodup
  have hlinks := h.links
  obtain ⟨l, x, hsplit⟩ := nodes_append xs
  obtain ⟨r, hr⟩ := after_eq_cons ys
  have hnodes : nodes (xs ++ e :: ys) = l ++ x :: .node e.1 :: first ys :: r := by
    rw [hsplit, ← hr]
    rfl
  have hnodes' : nodes (xs ++ ys) = l ++ x :: first ys :: r := by rw [hsplit, hr]
  rw [hnodes] at hnodup hlinks
  obtain ⟨-, hxy, hright⟩ := List.isChain_append_cons_cons.mp hlinks
  have hyz := (List.isChain_cons_cons.mp hright).1
  -- no two of the nodes are the same
  have hnodupr := (List.nodup_append.mp hnodup).2.1
  obtain ⟨hx, hnodupy⟩ := List.nodup_cons.mp hnodupr
  obtain ⟨hy, hnodup'⟩ := nodup_link.mp hnodup
  have hnexy : x ≠ .node e.1 := fun heq => hx (heq ▸ List.mem_cons_self)
  have hnexz : x ≠ first ys := fun heq => hx (heq ▸ List.mem_cons_of_mem _ List.mem_cons_self)
  have hneyz : .node e.1 ≠ first ys := fun heq => (List.nodup_cons.mp hnodupy).1 (heq ▸ List.mem_cons_self)
  obtain ⟨list', heq, hxz, hgone, hchanged⟩ := dlistRemove_eq hxy hyz (by simp) hnexy hneyz hnexz
  have hne : ∀ p ∈ l ++ x :: first ys :: r, p ≠ .node e.1 := fun p hp heq => hy (heq ▸ hp)
  refine ⟨list', heq, ⟨?_, ?_, ?_⟩, hgone⟩
  · rw [hnodes']
    exact links_unlink hlinks hnodup' (fun p hp hpx => hchanged.next p hpx (hne p hp))
      (fun p hp hpz => hchanged.prev p hpz (hne p hp)) hxz
  · rw [hnodes']
    exact hnodup'
  · intro d hd
    have hmem : .node d.1 ∈ l ++ x :: first ys :: r := hnodes' ▸ node_mem_nodes.mpr ⟨d, hd, rfl⟩
    rw [hchanged.data _ (hne _ hmem)]
    refine h.data d ?_
    rcases List.mem_append.mp hd with hd | hd
    · exact List.mem_append_left _ hd
    · exact List.mem_append_right _ (List.mem_cons_of_mem e hd)

/-! ## Reading -/

/-- No other element has the address of a node. -/
theorem Holds.node_not_mem (h : Holds list (xs ++ e :: ys)) : .node e.1 ∉ nodes (xs ++ ys) := by
  obtain ⟨l, x, hsplit⟩ := nodes_append xs
  have hnodup := h.nodup
  rw [hsplit] at hnodup ⊢
  exact (nodup_link.mp hnodup).1

/-- A node in the middle, with what comes after it. -/
theorem Holds.node (h : Holds list (xs ++ e :: ys)) : dlistNext list (.node e.1) = some (first ys) ∧
    (∃ p, dlistPrev list (.node e.1) = some p) ∧ dlistGetData list (.node e.1) = some e.2 := by
  obtain ⟨l, x, hsplit⟩ := nodes_append xs
  obtain ⟨r, hr⟩ := after_eq_cons ys
  have hlinks := h.links
  have hnodes : nodes (xs ++ e :: ys) = l ++ x :: .node e.1 :: first ys :: r := by
    rw [hsplit, ← hr]
    rfl
  rw [hnodes] at hlinks
  obtain ⟨-, hxy, hright⟩ := List.isChain_append_cons_cons.mp hlinks
  have hnext := (List.isChain_cons_cons.mp hright).1.1
  refine ⟨hnext, ⟨x, hxy.2⟩, ?_⟩
  have hdata := h.data e (List.mem_append_right _ List.mem_cons_self)
  simp only [dlistGetData, hnext, hxy.2, bind, Option.bind_some]
  exact hdata

/-- **The data of a node are overwritten.** -/
theorem Holds.setData (h : Holds list (xs ++ e :: ys)) (data : α) :
    ∃ list', dlistSetData list (.node e.1) data = some list' ∧ Holds list' (xs ++ (e.1, data) :: ys) := by
  obtain ⟨hnext, ⟨p, hprev⟩, -⟩ := h.node
  obtain ⟨n, hderef, -⟩ := deref_of_next hnext
  let list' : Dlist α := ⟨Dict.put list.memory (.node e.1) { n with data := some data }⟩
  have hother : ∀ q, q ≠ .node e.1 → deref list' q = deref list q := fun q hq => deref_put_ne (Ne.symm hq) _
  have hself : deref list' (.node e.1) = some { n with data := some data } := deref_put_self _ _
  have hnexts : dlistNext list' = dlistNext list := by
    funext q
    by_cases hq : q = .node e.1
    · rw [dlistNext, dlistNext, hq, hself, hderef, Option.bind_some, Option.bind_some]
    · rw [dlistNext, dlistNext, hother q hq]
  have hprevs : dlistPrev list' = dlistPrev list := by
    funext q
    by_cases hq : q = .node e.1
    · rw [dlistPrev, dlistPrev, hq, hself, hderef, Option.bind_some, Option.bind_some]
    · rw [dlistPrev, dlistPrev, hother q hq]
  have hnodes : nodes (xs ++ (e.1, data) :: ys) = nodes (xs ++ e :: ys) := by
    simp only [nodes, after, List.map_append, List.map_cons]
  refine ⟨list', ?_, ?_, ?_, ?_⟩
  · simp only [dlistSetData, hnext, hprev, assign_eq hderef, bind, Option.bind_some]
    rfl
  · rw [hnodes, hnexts, hprevs]
    exact h.links
  · rw [hnodes]
    exact h.nodup
  · intro d hd
    have hcases : d = (e.1, data) ∨ d ∈ xs ++ ys := by
      rcases List.mem_append.mp hd with hd | hd
      · exact .inr (List.mem_append_left _ hd)
      · rcases List.mem_cons.mp hd with rfl | hd
        · exact .inl rfl
        · exact .inr (List.mem_append_right _ hd)
    rcases hcases with rfl | hd
    · rw [hself, Option.bind_some]
    · -- no other element has the address
      have hne : Iter.node d.1 ≠ .node e.1 := by
        intro heq
        exact h.node_not_mem (heq ▸ node_mem_nodes.mpr ⟨d, hd, rfl⟩)
      rw [hother _ hne]
      refine h.data d ?_
      rcases List.mem_append.mp hd with hd | hd
      · exact List.mem_append_left _ hd
      · exact List.mem_append_right _ (List.mem_cons_of_mem e hd)

/-- There are fewer elements than nodes. -/
theorem Holds.length_lt (h : Holds list xs) : xs.length < list.memory.length := by
  have hsubset : nodes xs ⊆ Dict.keys list.memory := by
    intro p hp
    have hsome := h.deref_isSome hp
    by_contra hkeys
    rw [deref, Dict.get?_eq_none_iff.mpr hkeys] at hsome
    cases hsome
  have hlength := (List.subperm_of_subset h.nodup hsubset).length_le
  simp only [nodes, after, Dict.keys, List.length_cons, List.length_append, List.length_map, List.length_nil] at hlength
  omega

/-- **A walk** ends at the first element at which it does not go on, or at the second dummy. -/
theorem Holds.walk {goesOn : α → Bool} {turns : Nat} : ∀ {xs ys : List (Nat × α)}, Holds list (xs ++ ys) →
    ys.length < turns →
    walk list .endDummy goesOn turns (first ys) = some (first (ys.dropWhile (fun e => goesOn e.2))) := by
  induction turns with
  | zero => exact fun _ hturns => absurd hturns (Nat.not_lt_zero _)
  | succ turns ih =>
      intro xs ys h hturns
      cases ys with
      | nil => rfl
      | cons e ys =>
          obtain ⟨hnext, -, hdata⟩ := h.node
          have hne : ¬ Iter.node e.1 = .endDummy := by simp
          simp only [first_cons, DoublyLinked.walk, if_neg hne, hdata, hnext, bind, Option.bind_some]
          by_cases hgoes : goesOn e.2 = true
          · have hrest : Holds list ((xs ++ [e]) ++ ys) := by rwa [List.append_assoc]
            simp only [if_pos hgoes, List.dropWhile_cons, ih hrest (Nat.lt_of_succ_lt_succ hturns)]
          · simp only [if_neg hgoes, List.dropWhile_cons]
            rfl

/-- The walk over the whole list. -/
theorem Holds.walk_all (h : Holds list xs) (goesOn : α → Bool) :
    DoublyLinked.walk list .endDummy goesOn list.memory.length (first xs) =
      some (first (xs.dropWhile (fun e => goesOn e.2))) := by
  have hall : Holds list ([] ++ xs) := h
  exact hall.walk h.length_lt

theorem Holds.sizeLoop {turns : Nat} : ∀ {xs ys : List (Nat × α)} {counter : Nat}, Holds list (xs ++ ys) →
    ys.length < turns → dlistSizeLoop list turns (first ys) counter = some (counter + ys.length) := by
  induction turns with
  | zero => exact fun _ hturns => absurd hturns (Nat.not_lt_zero _)
  | succ turns ih =>
      intro xs ys counter h hturns
      cases ys with
      | nil => rfl
      | cons e ys =>
          obtain ⟨hnext, -, -⟩ := h.node
          have hne : dlistEnd list ≠ Iter.node e.1 := by simp [dlistEnd]
          have hrest : Holds list ((xs ++ [e]) ++ ys) := by rwa [List.append_assoc]
          simp only [first_cons, dlistSizeLoop, if_pos hne, hnext, bind, Option.bind_some]
          rw [ih hrest (Nat.lt_of_succ_lt_succ hturns), List.length_cons]
          congr 1
          omega

theorem Holds.begin (h : Holds list xs) : dlistBegin list = some (first xs) := by
  obtain ⟨r, hr⟩ := after_eq_cons xs
  have hlinks := h.links
  unfold nodes at hlinks
  rw [hr] at hlinks
  exact (List.isChain_cons_cons.mp hlinks).1.1

theorem Holds.isEmpty (h : Holds list xs) : dlistIsEmpty list = some xs.isEmpty := by
  simp only [dlistIsEmpty, h.begin, bind, Option.bind_some]
  cases xs <;> rfl

/-- **The size.** -/
theorem Holds.size (h : Holds list xs) : dlistSize list = some xs.length := by
  simp only [dlistSize, h.begin, bind, Option.bind_some]
  have hall : Holds list ([] ++ xs) := h
  rw [hall.sizeLoop h.length_lt, Nat.zero_add]

end Workbench.DoublyLinked
