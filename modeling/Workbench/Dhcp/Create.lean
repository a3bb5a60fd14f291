import Mathlib.Logic.Function.Basic
import Workbench.Dhcp.Trie

/-!
# `Dhcp.Create` — the creation of a server in memory

`malloc` may fail at any call. The blocks that it gave are in memory with the pointers between them, each one at the
number of its call. The loop of `DhcpInit` goes on with two runners, and looks whether they are `NULL` before they are
moved.

## Main results
* `initLoop_step`, `initLoop_null` — one round of the loop, and what follows a `NULL`;
* `initLoop_succeeds`, `initLoop_fails` — the loop with and without memory for all nodes;
* `create_iff` — for which failures `DhcpCreate` returns what it should.
-/

namespace Workbench.Dhcp.Create

/-! ## Memory -/

/-- The address of a block, or `NULL`. -/
abbrev Ptr : Type := Option Nat

structure NodeBlock where
  zero : Ptr
  one : Ptr
  isFull : Bool

inductive Block
  | dhcp (root : Ptr) (numOfBitsForNetwork : Nat) (subNet : Ip)
  | node (node : NodeBlock)

structure Heap where
  /-- How often `malloc` was called. -/
  calls : Nat
  block : Nat → Option Block

def Heap.empty : Heap := ⟨0, fun _ => none⟩

def Heap.write (heap : Heap) (a : Nat) (block : Block) : Heap :=
  { heap with block := Function.update heap.block a (some block) }

/-- `free`. -/
def Heap.free (heap : Heap) (a : Nat) : Heap := { heap with block := Function.update heap.block a none }

/-- What the call `k` of `malloc` returns. -/
def granted (fails : Nat → Bool) (k : Nat) : Ptr := if fails k then none else some k

/-- `malloc`, with what is put into the block at once. -/
def malloc (fails : Nat → Bool) (block : Block) (heap : Heap) : Ptr × Heap :=
  (granted fails heap.calls,
    if fails heap.calls then { heap with calls := heap.calls + 1 }
    else { heap.write heap.calls block with calls := heap.calls + 1 })

/-- `*node`. -/
def derefNode (ptr : Ptr) (heap : Heap) : Option NodeBlock := do
  match heap.block (← ptr) with
  | some (.node node) => some node
  | _ => none

/-- `*dhcp`. -/
def derefDhcp (dhcp : Nat) (heap : Heap) : Option (Ptr × Nat) :=
  match heap.block dhcp with
  | some (.dhcp root numOfBitsForNetwork _) => some (root, numOfBitsForNetwork)
  | _ => none

/-- An assignment to a field of a node. -/
def setNode (ptr : Ptr) (assign : NodeBlock → NodeBlock) (heap : Heap) : Option Heap := do
  let node ← derefNode ptr heap
  some (heap.write (← ptr) (.node (assign node)))

/-! ## The functions -/

def blank : NodeBlock := ⟨none, none, false⟩

def nodeCreate (fails : Nat → Bool) (heap : Heap) : Ptr × Heap := malloc fails (.node blank) heap

/-- `DestroyByElement`, for as many levels as there can be. -/
def destroyByElement : Nat → Ptr → Heap → Option Heap
  | _, none, heap => some heap
  | 0, some _, _ => none
  | levels + 1, some a, heap => do
      let heap ← destroyByElement levels (← derefNode (some a) heap).zero heap
      let heap ← destroyByElement levels (← derefNode (some a) heap).one heap
      some (heap.free a)

def dhcpDestroy (dhcp : Nat) (heap : Heap) : Option Heap := do
  let heap ← destroyByElement heap.calls (← derefDhcp dhcp heap).1 heap
  some (heap.free dhcp)

/-- The loop of `DhcpInit` with the rounds that are left, and what is behind it. -/
def initLoop (fails : Nat → Bool) (dhcp : Nat) : Nat → Ptr → Ptr → Heap → Option (Ptr × Heap)
  | 0, zeroRunner, oneRunner, heap => do
      let heap ← setNode zeroRunner (fun node => { node with isFull := true }) heap
      let heap ← setNode oneRunner (fun node => { node with isFull := true }) heap
      some ((← derefDhcp dhcp heap).1, heap)
  | left + 1, zeroRunner, oneRunner, heap => do
      let (created, heap) := nodeCreate fails heap
      let heap ← setNode zeroRunner (fun node => { node with zero := created }) heap
      let (created, heap) := nodeCreate fails heap
      let heap ← setNode oneRunner (fun node => { node with one := created }) heap
      -- the runners, and not what was created for them
      if zeroRunner = none ∨ oneRunner = none then
        some (none, ← dhcpDestroy dhcp heap)
      else
        initLoop fails dhcp left (← derefNode zeroRunner heap).zero (← derefNode oneRunner heap).one heap

def dhcpInit (fails : Nat → Bool) (dhcp : Nat) (heap : Heap) : Option (Ptr × Heap) := do
  let (root, numOfBitsForNetwork) ← derefDhcp dhcp heap
  initLoop fails dhcp (ipLength - numOfBitsForNetwork) root root heap

/-- `DhcpCreate`: what is returned, and the memory; or a `NULL` is dereferenced. -/
def dhcpCreate (fails : Nat → Bool) (subNet : Ip) (numOfBitsForNetwork : Nat) : Option (Ptr × Heap) :=
  match malloc fails (.dhcp none 0 0) Heap.empty with
  | (none, heap) => some (none, heap)
  | (some dhcp, heap) =>
      match nodeCreate fails heap with
      | (none, heap) => some (none, heap.free dhcp)
      | (some root, heap) => do
          let heap := heap.write dhcp (.dhcp (some root) numOfBitsForNetwork subNet)
          match ← dhcpInit fails dhcp heap with
          | (none, heap) => some (none, heap)
          | (some _, heap) => some (some dhcp, heap)

/-! ## One round -/

variable {fails : Nat → Bool} {dhcp left a b p k : Nat} {heap : Heap} {na nb node : NodeBlock} {ptr : Ptr}
  {zeroRunner oneRunner : Ptr} {subNet : Ip} {assign : NodeBlock → NodeBlock}

theorem granted_some (h : fails k = false) : granted fails k = some k := if_neg (Bool.eq_false_iff.mp h)

theorem granted_none (h : fails k = true) : granted fails k = none := if_pos h

theorem derefNode_some (ha : heap.block a = some (.node na)) : derefNode (some a) heap = some na := by
  unfold derefNode
  simp only [Option.bind_eq_bind, Option.bind_some, ha]

theorem setNode_some (ha : heap.block a = some (.node na)) :
    setNode (some a) assign heap = some (heap.write a (.node (assign na))) := by
  unfold setNode
  rw [derefNode_some ha]
  rfl

theorem setNode_null : setNode none assign heap = none := rfl

theorem write_self {block : Block} : (heap.write a block).block a = some block := Function.update_self ..

theorem write_ne {block : Block} (hne : b ≠ a) : (heap.write a block).block b = heap.block b :=
  Function.update_of_ne hne ..

theorem nodeCreate_calls : (nodeCreate fails heap).2.calls = heap.calls + 1 := by
  unfold nodeCreate malloc
  split <;> rfl

/-- The blocks that are there stay as they are. -/
theorem nodeCreate_below (ha : a < heap.calls) : (nodeCreate fails heap).2.block a = heap.block a := by
  unfold nodeCreate malloc
  dsimp only
  split
  · rfl
  · exact write_ne (Nat.ne_of_lt ha)

theorem nodeCreate_new (hfails : fails heap.calls = false) :
    (nodeCreate fails heap).2.block heap.calls = some (.node blank) := by
  unfold nodeCreate malloc
  rw [hfails]
  exact write_self

/-- **One round** of the loop. The two runners may be the same node, as in the first round. -/
theorem initLoop_step (fails : Nat → Bool) (dhcp left : Nat) (ha : heap.block a = some (.node na))
    (hb : heap.block b = some (.node nb)) (hac : a < heap.calls) (hbc : b < heap.calls) :
    ∃ heap', initLoop fails dhcp (left + 1) (some a) (some b) heap =
        initLoop fails dhcp left (granted fails heap.calls) (granted fails (heap.calls + 1)) heap' ∧
      heap'.calls = heap.calls + 2 ∧
      (∀ k < 2, fails (heap.calls + k) = false → heap'.block (heap.calls + k) = some (.node blank)) ∧
      (a ≠ b → heap'.block a = some (.node { na with zero := granted fails heap.calls }) ∧
        heap'.block b = some (.node { nb with one := granted fails (heap.calls + 1) })) ∧
      (a = b → heap'.block a =
        some (.node { na with zero := granted fails heap.calls, one := granted fails (heap.calls + 1) })) ∧
      ∀ x < heap.calls, x ≠ a → x ≠ b → heap'.block x = heap.block x := by
  let heap₁ := (nodeCreate fails heap).2
  have hcalls₁ : heap₁.calls = heap.calls + 1 := nodeCreate_calls
  have ha₁ : heap₁.block a = some (.node na) := (nodeCreate_below hac).trans ha
  let heap₂ := heap₁.write a (.node { na with zero := granted fails heap.calls })
  have hcalls₂ : heap₂.calls = heap.calls + 1 := hcalls₁
  let heap₃ := (nodeCreate fails heap₂).2
  have hbelow₃ (x : Nat) (hx : x < heap.calls + 1) : heap₃.block x = heap₂.block x := nodeCreate_below (by omega)
  -- the second assignment sees the first one when the runners are the same
  obtain ⟨nb', hb₃, hne, heq⟩ : ∃ nb', heap₃.block b = some (.node nb') ∧ (a ≠ b → nb' = nb) ∧
      (a = b → nb' = { na with zero := granted fails heap.calls }) := by
    rw [hbelow₃ b (by omega)]
    by_cases hab : a = b
    · subst hab
      exact ⟨_, write_self, fun h => absurd rfl h, fun _ => rfl⟩
    · refine ⟨nb, ?_, fun _ => rfl, fun h => absurd h hab⟩
      rw [write_ne (Ne.symm hab)]
      exact (nodeCreate_below hbc).trans hb
  have hone : granted fails heap₂.calls = granted fails (heap.calls + 1) := by rw [hcalls₂]
  let heap₄ := heap₃.write b (.node { nb' with one := granted fails (heap.calls + 1) })
  have hbelow₄ (x : Nat) (hx : x < heap.calls + 1) (hxa : x ≠ a) (hxb : x ≠ b) : heap₄.block x = heap₁.block x := by
    rw [write_ne hxb, hbelow₃ x hx, write_ne hxa]
  have hb₄ : heap₄.block b = some (.node { nb' with one := granted fails (heap.calls + 1) }) := write_self
  have ha₄ : a ≠ b → heap₄.block a = some (.node { na with zero := granted fails heap.calls }) := by
    intro hab
    rw [write_ne hab, hbelow₃ a (by omega)]
    exact write_self
  refine ⟨heap₄, ?_, ?_, ?_, ?_, ?_, ?_⟩
  · -- the runners are there, so they go on to what was created
    have hzero : ∃ na', derefNode (some a) heap₄ = some na' ∧ na'.zero = granted fails heap.calls := by
      by_cases hab : a = b
      · subst hab
        exact ⟨_, derefNode_some hb₄, by rw [heq rfl]⟩
      · exact ⟨_, derefNode_some (ha₄ hab), rfl⟩
    obtain ⟨na', hna', hzero'⟩ := hzero
    rw [initLoop]
    show (setNode (some a) (fun node => { node with zero := granted fails heap.calls }) heap₁).bind _ = _
    rw [setNode_some ha₁, Option.bind_some]
    show (setNode (some b) (fun node => { node with one := granted fails heap₂.calls }) heap₃).bind _ = _
    rw [setNode_some hb₃, Option.bind_some, hone, if_neg (by simp)]
    show (derefNode (some a) heap₄).bind (fun na' => (derefNode (some b) heap₄).bind _) = _
    rw [hna', derefNode_some hb₄, Option.bind_some, Option.bind_some, hzero']
  · show heap₃.calls = _
    rw [nodeCreate_calls, hcalls₂]
  · intro k hk hfails
    rw [write_ne (by omega)]
    obtain rfl | rfl : k = 0 ∨ k = 1 := by omega
    · rw [hbelow₃ _ (by omega), write_ne (by omega)]
      exact nodeCreate_new hfails
    · have hnew : heap₃.block heap₂.calls = some (.node blank) := nodeCreate_new (by rw [hcalls₂]; exact hfails)
      rw [hcalls₂] at hnew
      exact hnew
  · intro hab
    rw [ha₄ hab, hb₄, hne hab]
    exact ⟨rfl, rfl⟩
  · intro hab
    rw [hab, hb₄, heq hab]
  · intro x hx hxa hxb
    rw [hbelow₄ x (by omega) hxa hxb]
    exact nodeCreate_below hx

/-- **A runner that is `NULL`** is dereferenced, in the next round or behind the loop. -/
theorem initLoop_null (hnull : zeroRunner = none ∨ oneRunner = none) :
    initLoop fails dhcp left zeroRunner oneRunner heap = none := by
  cases left with
  | zero =>
      rw [initLoop]
      rcases hnull with rfl | rfl
      · rfl
      · simp only [setNode_null, Option.bind_eq_bind, Option.bind_none, Option.bind_fun_none]
  | succ left =>
      rw [initLoop]
      rcases hnull with rfl | rfl
      · rfl
      · simp only [setNode_null, Option.bind_eq_bind, Option.bind_none, Option.bind_fun_none]

/-! ## The loop -/

/-- The tree is in memory. -/
def Rep (memory : Nat → Option Block) : Ptr → Node → Prop
  | none, .nil => True
  | some a, .node full zero one => ∃ node, memory a = some (.node node) ∧ node.isFull = full ∧
      Rep memory node.zero zero ∧ Rep memory node.one one
  | _, _ => False

theorem initLoop_done (hdhcp : heap.block dhcp = some (.dhcp ptr p subNet)) (hab : a ≠ b)
    (ha : heap.block a = some (.node blank)) (hb : heap.block b = some (.node blank)) :
    ∃ heap', initLoop fails dhcp 0 (some a) (some b) heap = some (ptr, heap') ∧
      Rep heap'.block (some a) (runner false 0) ∧ Rep heap'.block (some b) (runner true 0) ∧
      ∀ x, x ≠ a → x ≠ b → heap'.block x = heap.block x := by
  have hda : dhcp ≠ a := by
    rintro rfl
    rw [hdhcp] at ha
    cases ha
  have hdb : dhcp ≠ b := by
    rintro rfl
    rw [hdhcp] at hb
    cases hb
  let heap₁ := heap.write a (.node { blank with isFull := true })
  have hb₁ : heap₁.block b = some (.node blank) := (write_ne (Ne.symm hab)).trans hb
  let heap₂ := heap₁.write b (.node { blank with isFull := true })
  have hdhcp₂ : heap₂.block dhcp = some (.dhcp ptr p subNet) := by
    rw [write_ne hdb, write_ne hda]
    exact hdhcp
  refine ⟨heap₂, ?_, ⟨_, (write_ne hab).trans write_self, rfl, trivial, trivial⟩,
    ⟨_, write_self, rfl, trivial, trivial⟩, fun x hxa hxb => (write_ne hxb).trans (write_ne hxa)⟩
  have hderef : derefDhcp dhcp heap₂ = some (ptr, p) := by
    unfold derefDhcp
    rw [hdhcp₂]
  rw [initLoop, setNode_some ha]
  show (setNode (some b) _ heap₁).bind _ = _
  rw [setNode_some hb₁]
  show (derefDhcp dhcp heap₂).bind _ = _
  rw [hderef]
  rfl

/-- **With memory for all nodes**, two different runners leave their paths behind. -/
theorem initLoop_succeeds (hdhcp : heap.block dhcp = some (.dhcp ptr p subNet)) (hd : dhcp < heap.calls)
    (hab : a ≠ b) (ha : heap.block a = some (.node blank)) (hb : heap.block b = some (.node blank))
    (hac : a < heap.calls) (hbc : b < heap.calls) (hfails : ∀ k < 2 * left, fails (heap.calls + k) = false) :
    ∃ heap', initLoop fails dhcp left (some a) (some b) heap = some (ptr, heap') ∧
      Rep heap'.block (some a) (runner false left) ∧ Rep heap'.block (some b) (runner true left) ∧
      ∀ x < heap.calls, x ≠ a → x ≠ b → heap'.block x = heap.block x := by
  induction left generalizing a b heap with
  | zero =>
      obtain ⟨heap', hloop, hzero, hone, hsame⟩ := initLoop_done hdhcp hab ha hb
      exact ⟨heap', hloop, hzero, hone, fun x _ => hsame x⟩
  | succ left ih =>
      obtain ⟨heap₁, hloop, hcalls, hnew, hruns, -, hsame⟩ :=
        initLoop_step fails dhcp left ha hb hac hbc
      obtain ⟨ha₁, hb₁⟩ := hruns hab
      have hzero : granted fails heap.calls = some heap.calls := granted_some (hfails 0 (by omega))
      have hone : granted fails (heap.calls + 1) = some (heap.calls + 1) := granted_some (hfails 1 (by omega))
      have hdhcp₁ : heap₁.block dhcp = some (.dhcp ptr p subNet) := by
        rw [hsame dhcp hd, hdhcp]
        · rintro rfl
          rw [hdhcp] at ha
          cases ha
        · rintro rfl
          rw [hdhcp] at hb
          cases hb
      rw [hzero, hone] at hloop
      rw [hzero] at ha₁
      rw [hone] at hb₁
      obtain ⟨heap', hrest, hrepZero, hrepOne, hsame'⟩ := ih hdhcp₁ (by omega) (Nat.ne_of_lt (Nat.lt_succ_self _))
        (hnew 0 (by omega) (hfails 0 (by omega))) (hnew 1 (by omega) (hfails 1 (by omega))) (by omega) (by omega)
        fun k hk => by
          rw [hcalls, Nat.add_assoc]
          exact hfails (2 + k) (by omega)
      -- the two nodes are not written any more
      refine ⟨heap', hloop.trans hrest,
        ⟨_, (hsame' a (by omega) (by omega) (by omega)).trans ha₁, rfl, hrepZero, trivial⟩,
        ⟨_, (hsame' b (by omega) (by omega) (by omega)).trans hb₁, rfl, trivial, hrepOne⟩, fun x hx hxa hxb => ?_⟩
      rw [hsame' x (by omega) (by omega) (by omega), hsame x hx hxa hxb]

/-- **Without memory for one of the nodes**, the `NULL` is dereferenced. -/
theorem initLoop_fails (ha : heap.block a = some (.node na)) (hb : heap.block b = some (.node nb))
    (hac : a < heap.calls) (hbc : b < heap.calls) (hk : k < 2 * left) (hfails : fails (heap.calls + k) = true) :
    initLoop fails dhcp left (some a) (some b) heap = none := by
  induction left generalizing a b heap na nb k with
  | zero => omega
  | succ left ih =>
      obtain ⟨heap₁, hloop, hcalls, hnew, -⟩ :=
        initLoop_step fails dhcp left ha hb hac hbc
      rw [hloop]
      -- a failure in this round, or in one that is left
      cases hzero : fails heap.calls with
      | true => exact initLoop_null (.inl (granted_none hzero))
      | false =>
          cases hone : fails (heap.calls + 1) with
          | true => exact initLoop_null (.inr (granted_none hone))
          | false =>
              have hlater : 2 ≤ k := by
                by_contra hlt
                obtain rfl | rfl : k = 0 ∨ k = 1 := by omega
                · exact absurd (hfails.symm.trans hzero) (by decide)
                · exact absurd (hfails.symm.trans hone) (by decide)
              rw [granted_some hzero, granted_some hone]
              refine ih (k := k - 2) (hnew 0 (by omega) hzero) (hnew 1 (by omega) hone) (by omega) (by omega)
                (by omega) ?_
              rw [hcalls, show heap.calls + 2 + (k - 2) = heap.calls + k by omega]
              exact hfails

/-! ## Creation -/

/-- What `malloc` is called for: the server, the root, and two nodes for each bit of the hosts. -/
def mallocs (p : Nat) : Nat := 2 + 2 * (ipLength - p)

/-- The server is in memory, with the paths of the two reserved hosts. -/
def Complete (heap : Heap) (dhcp : Nat) (subNet : Ip) (p : Nat) : Prop :=
  ∃ root, heap.block dhcp = some (.dhcp root p subNet) ∧ Rep heap.block root (Dhcp.dhcpInit (ipLength - p))

/-- What `DhcpCreate` should do: it does not dereference `NULL`; when an allocation fails it returns `NULL` and has
    released all blocks, and it returns a complete server exactly if none fails. -/
def CreatesRight (fails : Nat → Bool) (subNet : Ip) (p : Nat) : Prop :=
  ∃ ptr heap, dhcpCreate fails subNet p = some (ptr, heap) ∧
    ((∃ k < mallocs p, fails k = true) → ptr = none ∧ ∀ a, heap.block a = none) ∧
    ((∃ dhcp, ptr = some dhcp ∧ Complete heap dhcp subNet p) ↔ ∀ k < mallocs p, fails k = false)

/-- The server and the root are in memory, and the loop begins. -/
theorem dhcpCreate_loop (subNet : Ip) (p : Nat) (hserver : fails 0 = false) (hroot : fails 1 = false) :
    ∃ heap, heap.calls = 2 ∧ heap.block 0 = some (.dhcp (some 1) p subNet) ∧
      heap.block 1 = some (.node blank) ∧
      dhcpCreate fails subNet p = (initLoop fails 0 (ipLength - p) (some 1) (some 1) heap).bind fun result =>
        match result with
        | (none, heap) => some (none, heap)
        | (some _, heap) => some (some 0, heap) := by
  let heap₁ : Heap := { Heap.empty.write 0 (.dhcp none 0 0) with calls := 1 }
  let heap₂ : Heap := { heap₁.write 1 (.node blank) with calls := 2 }
  let heap₃ : Heap := heap₂.write 0 (.dhcp (some 1) p subNet)
  have hmalloc : malloc fails (.dhcp none 0 0) Heap.empty = (some 0, heap₁) := by
    show (granted fails 0, if fails 0 = true then _ else _) = _
    rw [granted_some hserver, hserver]
    rfl
  have hnode : nodeCreate fails heap₁ = (some 1, heap₂) := by
    show (granted fails 1, if fails 1 = true then _ else _) = _
    rw [granted_some hroot, hroot]
    rfl
  have hblock : heap₂.block 1 = some (.node blank) := by
    show (heap₁.write 1 (.node blank)).block 1 = _
    exact write_self
  refine ⟨heap₃, rfl, write_self, (write_ne (by decide)).trans hblock, ?_⟩
  unfold dhcpCreate
  simp only [hmalloc, hnode]
  show (Option.bind (dhcpInit fails 0 heap₃) _) = _
  have hderef : derefDhcp 0 heap₃ = some (some 1, p) := by
    unfold derefDhcp
    rw [show heap₃.block 0 = some (.dhcp (some 1) p subNet) from write_self]
  unfold dhcpInit
  rw [hderef]
  rfl

/-- Nothing is left when the server or the root cannot be allocated. -/
theorem dhcpCreate_first (subNet : Ip) (p : Nat) (h : fails 0 = true ∨ fails 1 = true) :
    ∃ heap, dhcpCreate fails subNet p = some (none, heap) ∧ ∀ a, heap.block a = none := by
  cases hserver : fails 0 with
  | true =>
      have hmalloc : malloc fails (.dhcp none 0 0) Heap.empty = (none, ⟨1, fun _ => none⟩) := by
        show (granted fails 0, if fails 0 = true then _ else _) = _
        rw [granted_none hserver, hserver]
        rfl
      refine ⟨⟨1, fun _ => none⟩, ?_, fun a => rfl⟩
      unfold dhcpCreate
      rw [hmalloc]
  | false =>
      have hroot : fails 1 = true := h.resolve_left (Bool.eq_false_iff.mp hserver)
      let heap₁ : Heap := { Heap.empty.write 0 (.dhcp none 0 0) with calls := 1 }
      have hmalloc : malloc fails (.dhcp none 0 0) Heap.empty = (some 0, heap₁) := by
        show (granted fails 0, if fails 0 = true then _ else _) = _
        rw [granted_some hserver, hserver]
        rfl
      have hnode : nodeCreate fails heap₁ = (none, { heap₁ with calls := 2 }) := by
        show (granted fails 1, if fails 1 = true then _ else _) = _
        rw [granted_none hroot, hroot]
        rfl
      refine ⟨({ heap₁ with calls := 2 } : Heap).free 0, ?_, fun a => ?_⟩
      · unfold dhcpCreate
        simp only [hmalloc, hnode]
      · -- the server is the only block
        by_cases ha : a = 0
        · rw [ha]
          show Function.update heap₁.block 0 none 0 = none
          exact Function.update_self ..
        · exact (Function.update_of_ne ha ..).trans (write_ne ha)

/-- With memory for everything, the server is complete. -/
theorem dhcpCreate_succeeds (subNet : Ip) (hp : p ≤ 31) (hfails : ∀ k < mallocs p, fails k = false) :
    ∃ heap, dhcpCreate fails subNet p = some (some 0, heap) ∧ Complete heap 0 subNet p := by
  have hmallocs : mallocs p = 2 + 2 * (32 - p) := rfl
  obtain ⟨left, hleft⟩ : ∃ left, ipLength - p = left + 1 := ⟨31 - p, show 32 - p = 31 - p + 1 by omega⟩
  have hbits : 32 - p = left + 1 := hleft
  obtain ⟨heap, hcalls, hserver, hroot, hcreate⟩ :=
    dhcpCreate_loop subNet p (hfails 0 (by omega)) (hfails 1 (by omega))
  -- in the first round both runners are the root
  obtain ⟨heap₁, hstep, hcalls₁, hnew, -, hroot₁, hsame⟩ := initLoop_step fails 0 left hroot
    hroot (by omega) (by omega)
  have htwo : fails 2 = false := hfails 2 (by omega)
  have hthree : fails 3 = false := hfails 3 (by omega)
  rw [hcalls] at hstep hcalls₁ hnew hroot₁ hsame
  rw [granted_some htwo, granted_some hthree] at hstep hroot₁
  have hrest : ∀ k < 2 * left, fails (heap₁.calls + k) = false := by
    intro k hk
    rw [hcalls₁]
    exact hfails (4 + k) (by omega)
  obtain ⟨heap', hloop, hzero, hone, hsame'⟩ := initLoop_succeeds
    ((hsame 0 (by decide) (by decide) (by decide)).trans hserver) (by omega) (show 2 ≠ 3 by decide)
    (hnew 0 (by decide) htwo) (hnew 1 (by decide) hthree) (by omega) (by omega) hrest
  refine ⟨heap', ?_, some 1, ?_, ?_⟩
  · rw [hcreate, hleft, hstep, hloop]
    rfl
  · rw [hsame' 0 (by omega) (by decide) (by decide), hsame 0 (by decide) (by decide) (by decide)]
    exact hserver
  · rw [hleft]
    exact ⟨_, (hsame' 1 (by omega) (by decide) (by decide)).trans (hroot₁ rfl), rfl, hzero, hone⟩

/-- **A creation** returns what it should exactly if no allocation fails, or the first to fail is the one of the server
    or of the root. -/
theorem create_iff (hp : p ≤ 31) :
    CreatesRight fails subNet p ↔ (∀ k < mallocs p, fails k = false) ∨ fails 0 = true ∨ fails 1 = true := by
  have hmallocs : mallocs p = 2 + 2 * (32 - p) := rfl
  by_cases hall : ∀ k < mallocs p, fails k = false
  · obtain ⟨heap, hcreate, hcomplete⟩ := dhcpCreate_succeeds subNet hp hall
    refine iff_of_true ⟨_, heap, hcreate, ?_, iff_of_true ⟨0, rfl, hcomplete⟩ hall⟩ (.inl hall)
    rintro ⟨k, hk, hfail⟩
    rw [hall k hk] at hfail
    cases hfail
  rw [or_iff_right hall]
  constructor
  · rintro ⟨ptr, heap, hcreate, -⟩
    by_contra hfirst
    obtain ⟨hserver, hroot⟩ := not_or.mp hfirst
    rw [Bool.not_eq_true] at hserver hroot
    -- the first allocation that fails is one of the loop
    obtain ⟨k, hk, hfail⟩ : ∃ k < mallocs p, fails k = true := by
      by_contra hnone
      exact hall fun k hk => Bool.eq_false_iff.mpr fun hfail => hnone ⟨k, hk, hfail⟩
    have hlater : 2 ≤ k := by
      by_contra hlt
      obtain rfl | rfl : k = 0 ∨ k = 1 := by omega
      · exact absurd (hfail.symm.trans hserver) (by decide)
      · exact absurd (hfail.symm.trans hroot) (by decide)
    obtain ⟨heap₀, hcalls, -, hblock, hloop⟩ := dhcpCreate_loop subNet p hserver hroot
    have hnull : initLoop fails 0 (ipLength - p) (some 1) (some 1) heap₀ = none := by
      refine initLoop_fails (k := k - 2) hblock hblock (by omega) (by omega) (show k - 2 < 2 * (32 - p) by omega) ?_
      rw [hcalls, Nat.add_sub_cancel' hlater]
      exact hfail
    rw [hloop, hnull] at hcreate
    cases hcreate
  · intro hfirst
    obtain ⟨heap, hcreate, hreleased⟩ := dhcpCreate_first subNet p hfirst
    refine ⟨none, heap, hcreate, fun _ => ⟨rfl, hreleased⟩, iff_of_false ?_ hall⟩
    rintro ⟨dhcp, hnone, -⟩
    cases hnone

theorem create_sample : CreatesRight (fun _ => false) 0xC4000000#32 29 :=
  (create_iff (by decide)).mpr (.inl fun _ _ => rfl)

/-- There is memory for the server and the root, and not for the first node. -/
theorem create_null : ¬ CreatesRight (fun k => k == 2) 0xC4000000#32 29 := by
  rintro ⟨ptr, heap, hcreate, -⟩
  cases hcreate

end Workbench.Dhcp.Create
