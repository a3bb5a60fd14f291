import Workbench.Lib.Follow
import Workbench.Linked.Intersection

/-!
# `Linked.Flip` — `HasLoop`, `Flip` and `FlipList`

A `NULL` that is dereferenced is no result, and the loops and the recursion have fuel. `HasLoop` reads behind the second
node, so it needs one. `Flip` comes back to its head when the list goes around in a loop, and `FlipList` does not return
then.

## Contents
* `hasLoop`, `flip`, `flipList` — the functions;
* `hasLoop_iff` — when `HasLoop` returns the right answer;
* `flip_reverses` — `Flip` reverses a list, and the loop of a list with a loop;
* `flipList_agrees_iff` — when `FlipList` does what `Flip` does.
-/

namespace Workbench.NodeLists

open Intersection

/-! ## The functions -/

/-- The loop of `HasLoop`. -/
def hasLoopLoop (memory : Memory) : Nat → Option Nat → Option Nat → Option Int
  | 0, _, _ => none
  | fuel + 1, slowRunner, usainRunner =>
      if slowRunner = usainRunner then some 1
      else do
        let usain ← memory (← usainRunner)
        match usain.next with
        | none => some 0
        | some next => do
            let nextNode ← memory next
            match nextNode.next with
            | none => some 0
            | some nextNext => do
                let slow ← memory (← slowRunner)
                hasLoopLoop memory fuel slow.next (some nextNext)

def hasLoop (fuel : Nat) (memory : Memory) (head : Option Nat) : Option Int := do
  let node ← memory (← head)
  hasLoopLoop memory fuel head node.next

/-- The assignment to `node->next`. -/
def setNext (memory : Memory) (x : Nat) (next : Option Nat) : Memory :=
  Function.update memory x ((memory x).map fun node => { node with next })

/-- The loop of `Flip`. -/
def flipLoop : Nat → Memory → Option Nat → Option Nat → Option (Memory × Option Nat)
  | 0, _, _, _ => none
  | _ + 1, memory, previusOne, none => some (memory, previusOne)
  | fuel + 1, memory, previusOne, some head => do
      let node ← memory head
      flipLoop fuel (setNext memory head previusOne) (some head) node.next

/-- With the new head. -/
def flip (fuel : Nat) (memory : Memory) (head : Option Nat) : Option (Memory × Option Nat) :=
  flipLoop fuel memory none head

/-- `FlipList`, with the new head. It does not take a `NULL`. -/
def flipList : Nat → Memory → Nat → Option (Memory × Option Nat)
  | 0, _, _ => none
  | fuel + 1, memory, x => do
      let node ← memory x
      match node.next with
      | none => some (memory, some x)
      | some next => do
          let (memory, newHead) ← flipList fuel memory next
          let node ← memory x
          let behind ← node.next
          let _ ← memory behind
          some (setNext (setNext memory behind (some x)) x none, newHead)

/-! ## Links in memory -/

variable {memory : Memory} {xs ys : List Nat} {x y z : Nat} {head p q r : Option Nat} {fuel k m n : Nat}

/-- The link of a node. -/
def link (memory : Memory) (x : Nat) : Option Nat := (memory x).bind Node.next

/-- There are so many nodes only, and they lead to nodes. -/
structure Sound (memory : Memory) : Prop where
  closed : ∀ x y, link memory x = some y → memory y ≠ none
  finite : {x | memory x ≠ none}.Finite

/-- The pointer is `NULL`, or to a node. -/
def Valid (memory : Memory) (p : Option Nat) : Prop := ∀ x, p = some x → memory x ≠ none

theorem Sound.valid_link (h : Sound memory) (x : Nat) : Valid memory (link memory x) := fun y hy => h.closed x y hy

theorem Sound.valid_follow (h : Sound memory) (hhead : Valid memory head) (n : Nat) :
    Valid memory (follow (link memory) n head) := by
  induction n generalizing head with
  | zero => exact hhead
  | succ n ih =>
      refine ih fun y hy => ?_
      obtain ⟨x, -, hx⟩ := Option.bind_eq_some_iff.mp hy
      exact h.closed x y hx

theorem Valid.exists_node (h : Valid memory p) (hp : p ≠ none) : ∃ x node, p = some x ∧ memory x = some node := by
  obtain ⟨x, rfl⟩ := Option.ne_none_iff_exists'.mp hp
  obtain ⟨node, hnode⟩ := Option.ne_none_iff_exists'.mp (h x rfl)
  exact ⟨x, node, rfl, hnode⟩

theorem link_eq {node : Node} (h : memory x = some node) : link memory x = node.next := by
  rw [link, h]
  rfl

/-- A list up to its end, or a list with a loop. -/
theorem Sound.path_or_lasso (h : Sound memory) (hhead : Valid memory head) :
    (∃ xs, Path (link memory) head xs none) ∨ ∃ xs x ys, Lasso (link memory) head xs x ys :=
  Workbench.path_or_lasso h.finite (fun x _ => h.closed x) hhead

/-- Three nodes, the last of which leads to the second. -/
def sampleMemory : Memory := fun y =>
  if y = 0 then some ⟨7, some 1⟩ else if y = 1 then some ⟨8, some 2⟩ else if y = 2 then some ⟨9, some 1⟩ else none

theorem sampleMemory_sound : Sound sampleMemory := by
  have hnodes : ∀ y, sampleMemory y ≠ none ↔ y = 0 ∨ y = 1 ∨ y = 2 := by
    intro y
    unfold sampleMemory
    split_ifs <;> simp_all
  refine ⟨fun x y hy => (hnodes y).mpr ?_, ?_⟩
  · unfold link sampleMemory at hy
    split_ifs at hy <;> cases hy <;> decide
  · refine (Set.toFinite {0, 1, 2}).subset fun y hy => ?_
    exact (hnodes y).mp hy

theorem sampleMemory_valid : Valid sampleMemory (some 0) := by
  rintro y ⟨⟩
  nofun

/-! ## `HasLoop` -/

/-- **One turn.** -/
theorem hasLoopLoop_turn (h : Sound memory) (hhead : Valid memory head)
    (hfast : follow (link memory) (2 * k + 1) head ≠ none) :
    hasLoopLoop memory (fuel + 1) (follow (link memory) k head) (follow (link memory) (2 * k + 1) head) =
      if follow (link memory) k head = follow (link memory) (2 * k + 1) head then some 1
      else if follow (link memory) (2 * (k + 1) + 1) head = none then some 0
      else hasLoopLoop memory fuel (follow (link memory) (k + 1) head)
        (follow (link memory) (2 * (k + 1) + 1) head) := by
  have hslow : follow (link memory) k head ≠ none := fun hnone => hfast (follow_eq_none_of_le hnone (by omega))
  obtain ⟨s, slow, hs, hslow⟩ := (h.valid_follow hhead k).exists_node hslow
  obtain ⟨u, usain, hu, husain⟩ := (h.valid_follow hhead (2 * k + 1)).exists_node hfast
  have hnext : follow (link memory) (2 * k + 2) head = usain.next := by
    rw [follow_succ, hu, Option.bind_some, link_eq husain]
  have hslowNext : follow (link memory) (k + 1) head = slow.next := by
    rw [follow_succ, hs, Option.bind_some, link_eq hslow]
  have hbehind : follow (link memory) (2 * (k + 1) + 1) head = usain.next.bind (link memory) := by
    rw [← hnext]
    exact follow_succ (2 * k + 2) head
  rw [hbehind, hslowNext, hs, hu, hasLoopLoop]
  split
  · rfl
  · rw [Option.bind_eq_bind, Option.bind_some, Option.bind_eq_bind, husain, Option.bind_some]
    cases hlink : usain.next with
    | none => rfl
    | some v =>
        obtain ⟨nextNode, hnextNode⟩ := Option.ne_none_iff_exists'.mp
          (h.closed u v ((link_eq husain).trans hlink))
        rw [Option.bind_some, link_eq hnextNode]
        simp only [hnextNode, Option.bind_some]
        cases nextNode.next with
        | none => rfl
        | some w =>
            rw [if_neg nofun]
            simp only [hslow, Option.bind_some]

/-- The runners meet. -/
theorem hasLoopLoop_meets (h : Sound memory) (hhead : Valid memory head) (hloops : Loops (link memory) head)
    (hmeet : follow (link memory) n head = follow (link memory) (2 * n + 1) head) (hk : k ≤ n) (hfuel : n < k + fuel) :
    hasLoopLoop memory fuel (follow (link memory) k head) (follow (link memory) (2 * k + 1) head) = some 1 := by
  induction fuel generalizing k with
  | zero => omega
  | succ fuel ih =>
      rw [hasLoopLoop_turn h hhead (hloops _)]
      by_cases hsame : follow (link memory) k head = follow (link memory) (2 * k + 1) head
      · rw [if_pos hsame]
      · rw [if_neg hsame, if_neg (hloops _)]
        have hne : k ≠ n := fun heq => hsame (heq ▸ hmeet)
        exact ih (by omega) (by omega)

/-- The fast runner gets to the end. -/
theorem hasLoopLoop_ends (h : Sound memory) (hhead : Valid memory head) (hend : follow (link memory) m head = none)
    (hfast : follow (link memory) (2 * k + 1) head ≠ none) (hfuel : m < k + fuel) :
    hasLoopLoop memory fuel (follow (link memory) k head) (follow (link memory) (2 * k + 1) head) = some 0 := by
  induction fuel generalizing k with
  | zero => exact absurd (follow_eq_none_of_le hend (by omega)) hfast
  | succ fuel ih =>
      rw [hasLoopLoop_turn h hhead hfast, if_neg (walkers_apart hend hfast)]
      split
      · rfl
      · next hnext => exact ih hnext (by omega)

/-- `HasLoop` returns 1 if there is a loop, and 0 if there is none. -/
def Answers (memory : Memory) (head : Option Nat) : Prop :=
  ∃ res least, (∀ fuel, least ≤ fuel → hasLoop fuel memory head = some res) ∧
    (res = 1 ∧ Loops (link memory) head ∨ res = 0 ∧ ¬ Loops (link memory) head)

/-- **`HasLoop`** gives the right answer, unless the list has one node only. -/
theorem hasLoop_iff (h : Sound memory) {node : Node} (hnode : memory x = some node) :
    Answers memory (some x) ↔ node.next ≠ none := by
  have hhead : Valid memory (some x) := by
    rintro y ⟨⟩
    rw [hnode]
    nofun
  have hstart : ∀ fuel, hasLoop fuel memory (some x) =
      hasLoopLoop memory fuel (follow (link memory) 0 (some x)) (follow (link memory) (2 * 0 + 1) (some x)) := by
    intro fuel
    have hone : follow (link memory) (2 * 0 + 1) (some x) = node.next := link_eq hnode
    rw [hone, hasLoop]
    simp only [Option.bind_eq_bind, Option.bind_some, hnode, follow_zero]
  have hfirst : follow (link memory) (2 * 0 + 1) (some x) = node.next := link_eq hnode
  constructor
  · rintro ⟨res, least, hres, -⟩ hnone
    -- the second runner starts at `NULL`
    have hret := hres (least + 1) (Nat.le_succ least)
    rw [hstart, hfirst, hnone, hasLoopLoop, if_neg nofun] at hret
    cases hret
  · intro hnext
    by_cases hloops : Loops (link memory) (some x)
    · have hin : ∀ n, follow (link memory) n (some x) ∈ insert none (some '' {y | memory y ≠ none}) := by
        intro n
        cases hn : follow (link memory) n (some x) with
        | none => exact Set.mem_insert _ _
        | some y => exact Set.mem_insert_of_mem _ ⟨y, h.valid_follow hhead n y hn, rfl⟩
      obtain ⟨n, hmeet⟩ := walkers_meet ((h.finite.image some).insert none) hin
      refine ⟨1, n + 1, fun fuel hfuel => ?_, .inl ⟨rfl, hloops⟩⟩
      rw [hstart]
      exact hasLoopLoop_meets h hhead hloops hmeet (Nat.zero_le n) (by omega)
    · obtain ⟨m, hend⟩ : ∃ m, follow (link memory) m (some x) = none := by
        by_contra hno
        exact hloops fun m hm => hno ⟨m, hm⟩
      refine ⟨0, m + 1, fun fuel hfuel => ?_, .inr ⟨rfl, hloops⟩⟩
      rw [hstart]
      exact hasLoopLoop_ends h hhead hend (hfirst ▸ hnext) (by omega)

theorem hasLoop_sample : Answers sampleMemory (some 0) :=
  (hasLoop_iff sampleMemory_sound (show sampleMemory 0 = some ⟨7, some 1⟩ from rfl)).mpr nofun

/-! ## `Flip` -/

@[simp] theorem setNext_self (memory : Memory) (x : Nat) (q : Option Nat) :
    setNext memory x q x = (memory x).map fun node => { node with next := q } := Function.update_self ..

theorem setNext_of_ne (h : y ≠ x) (memory : Memory) (q : Option Nat) : setNext memory x q y = memory y :=
  Function.update_of_ne h ..

/-- What the links of the nodes are set to: the first one to `q`, and each other one to the one in front of it. -/
def linkBack (xs : List Nat) (q : Option Nat) (y : Nat) : Option Nat :=
  match xs with
  | [] => none
  | x :: xs => if y = x then q else linkBack xs (some x) y

/-- The last of the nodes. -/
def lastOr : List Nat → Option Nat → Option Nat
  | [], q => q
  | x :: xs, _ => lastOr xs (some x)

/-- The memory with the nodes turned around. -/
def turned (memory : Memory) (q : Option Nat) (xs : List Nat) : Memory := fun y =>
  (memory y).map fun node => if y ∈ xs then { node with next := linkBack xs q y } else node

theorem turned_of_notMem (h : y ∉ xs) (memory : Memory) (q : Option Nat) : turned memory q xs y = memory y := by
  rw [turned]
  cases memory y with
  | none => rfl
  | some node => rw [Option.map_some, if_neg h]

/-- One node, and then the others. -/
theorem turned_cons (hx : x ∉ xs) (memory : Memory) (q : Option Nat) :
    turned (setNext memory x q) (some x) xs = turned memory q (x :: xs) := by
  funext y
  by_cases hy : y = x
  · rw [hy, turned_of_notMem hx, setNext_self, turned]
    simp only [List.mem_cons_self, if_true, linkBack]
  · rw [turned, turned, setNext_of_ne hy]
    simp only [List.mem_cons, hy, false_or, linkBack, if_false]

theorem link_turned_of_notMem (h : y ∉ xs) (memory : Memory) (q : Option Nat) :
    link (turned memory q xs) y = link memory y := by
  rw [link, turned_of_notMem h, link]

theorem link_setNext_self (hx : memory x ≠ none) (q : Option Nat) : link (setNext memory x q) x = q := by
  obtain ⟨node, hnode⟩ := Option.ne_none_iff_exists'.mp hx
  rw [link, setNext_self, hnode]
  rfl

theorem link_setNext_of_ne (h : y ≠ x) (memory : Memory) (q : Option Nat) :
    link (setNext memory x q) y = link memory y := by
  rw [link, setNext_of_ne h, link]

theorem setNext_ne_none (memory : Memory) (x : Nat) (q : Option Nat) (y : Nat) :
    setNext memory x q y ≠ none ↔ memory y ≠ none := by
  by_cases hy : y = x
  · rw [hy, setNext_self, Ne, Option.map_eq_none_iff]
  · rw [setNext_of_ne hy]

theorem turned_ne_none (memory : Memory) (q : Option Nat) (xs : List Nat) (y : Nat) :
    turned memory q xs y ≠ none ↔ memory y ≠ none := by
  rw [turned, Ne, Option.map_eq_none_iff]

/-- Nodes that are turned around are a path, the other way. -/
theorem path_turned (hpath : Path (link memory) p xs r) (hnodup : xs.Nodup) (hnodes : ∀ x ∈ xs, memory x ≠ none) :
    Path (link (turned memory q xs)) (lastOr xs q) xs.reverse q := by
  induction xs generalizing memory p q with
  | nil => exact path_nil.mpr rfl
  | cons x xs ih =>
      obtain ⟨hx, hrest⟩ := List.nodup_cons.mp hnodup
      have hsame : ∀ y ∈ xs, link (setNext memory x q) y = link memory y := fun y hy =>
        link_setNext_of_ne (ne_of_mem_of_not_mem hy hx) memory q
      have hback := ih (q := some x) (hpath.2.congr hsame) hrest fun y hy =>
        (setNext_ne_none memory x q y).mpr (hnodes y (List.mem_cons_of_mem x hy))
      rw [List.reverse_cons]
      rw [turned_cons hx] at hback
      refine path_append.mpr ⟨some x, hback, path_cons.mpr ⟨rfl, path_nil.mpr ?_⟩⟩
      rw [← turned_cons hx, link_turned_of_notMem hx]
      exact link_setNext_self (hnodes x List.mem_cons_self) q

/-- **The loop turns around** the nodes of a path. -/
theorem flipLoop_path (hpath : Path (link memory) p xs r) (hnodup : xs.Nodup) (hnodes : ∀ x ∈ xs, memory x ≠ none)
    (fuel : Nat) :
    flipLoop (fuel + xs.length) memory q p = flipLoop fuel (turned memory q xs) (lastOr xs q) r := by
  induction xs generalizing memory p q with
  | nil =>
      obtain rfl := path_nil.mp hpath
      have hsame : turned memory q [] = memory := funext fun y => turned_of_notMem List.not_mem_nil memory q
      rw [hsame]
      rfl
  | cons x xs ih =>
      obtain ⟨rfl, hbehind⟩ := hpath
      obtain ⟨hx, hrest⟩ := List.nodup_cons.mp hnodup
      obtain ⟨node, hnode⟩ := Option.ne_none_iff_exists'.mp (hnodes x List.mem_cons_self)
      have hsame : ∀ y ∈ xs, link (setNext memory x q) y = link memory y := fun y hy =>
        link_setNext_of_ne (ne_of_mem_of_not_mem hy hx) memory q
      rw [List.length_cons, ← Nat.add_assoc, flipLoop, hnode, Option.bind_eq_bind, Option.bind_some,
        ← link_eq hnode, ih (hbehind.congr hsame) hrest, turned_cons hx]
      · rfl
      · exact fun y hy => (setNext_ne_none memory x q y).mpr (hnodes y (List.mem_cons_of_mem x hy))

/-- The nodes of a path are nodes. -/
theorem Sound.nodes (h : Sound memory) (hhead : Valid memory p) (hpath : Path (link memory) p xs r) :
    ∀ x ∈ xs, memory x ≠ none := by
  induction xs generalizing p with
  | nil => nofun
  | cons x xs ih =>
      intro y hy
      rcases List.mem_cons.mp hy with rfl | hy
      · exact hhead y hpath.1
      · exact ih (h.valid_link x) hpath.2 y hy

/-- The nodes have the data that they had. -/
def SameData (memory memory' : Memory) : Prop := ∀ y, (memory' y).map Node.data = (memory y).map Node.data

theorem sameData_turned (memory : Memory) (q : Option Nat) (xs : List Nat) : SameData memory (turned memory q xs) := by
  intro y
  rw [turned]
  cases memory y with
  | none => rfl
  | some node =>
      rw [Option.map_some, Option.map_some, Option.map_some]
      split <;> rfl

/-- **A list is reversed.** -/
theorem flip_list (h : Sound memory) (hhead : Valid memory head) (hpath : Path (link memory) head xs none)
    (hfuel : xs.length < fuel) :
    flip fuel memory head = some (turned memory none xs, lastOr xs none) ∧
      Path (link (turned memory none xs)) (lastOr xs none) xs.reverse none := by
  have hnodes := h.nodes hhead hpath
  refine ⟨?_, path_turned hpath hpath.nodup hnodes⟩
  obtain ⟨rest, rfl⟩ := Nat.exists_eq_add_of_lt hfuel
  rw [flip, show xs.length + rest + 1 = rest + 1 + xs.length by omega, flipLoop_path hpath hpath.nodup hnodes, flipLoop]

/-- **A loop is reversed**, and the way up to it is turned around twice. -/
theorem flip_lasso (h : Sound memory) (hhead : Valid memory head) (hlasso : Lasso (link memory) head xs x ys) :
    ∃ memory', SameData memory memory' ∧ Lasso (link memory') head xs x ys.reverse ∧
      ∀ fuel, 2 * xs.length + ys.length + 3 ≤ fuel → flip fuel memory head = some (memory', head) := by
  obtain ⟨hup, haround, hnodup⟩ := hlasso
  obtain ⟨hxs, hround, hdisjoint⟩ := List.nodup_append.mp hnodup
  have hupNodes := h.nodes hhead hup
  have hx : Valid memory (some x) := by
    have hvalid := h.valid_follow hhead xs.length
    rwa [hup.follow_length] at hvalid
  have haroundNodes := h.nodes hx haround
  -- the way up
  set one := turned memory none xs with hone
  have honeNodes (y : Nat) : one y ≠ none ↔ memory y ≠ none := turned_ne_none memory none xs y
  have honeUp : Path (link one) (lastOr xs none) xs.reverse none := path_turned hup hxs hupNodes
  have honeAround : Path (link one) (some x) (x :: ys) (some x) := haround.congr fun y hy =>
    link_turned_of_notMem (fun hmem => hdisjoint y hmem y hy rfl) memory none
  -- once around
  set two := turned one (lastOr xs none) (x :: ys) with htwo
  have htwoAround : Path (link two) (lastOr ys (some x)) (x :: ys).reverse (lastOr xs none) :=
    path_turned honeAround hround fun y hy => (honeNodes y).mpr (haroundNodes y hy)
  have htwoUp : Path (link two) (lastOr xs none) xs.reverse none := honeUp.congr fun y hy =>
    link_turned_of_notMem (fun hmem => hdisjoint y (List.mem_reverse.mp hy) y hmem rfl) one _
  rw [List.reverse_cons] at htwoAround
  obtain ⟨_, hys, rfl, hlinkx⟩ := path_append.mp htwoAround
  -- and back, from the node where the loop starts
  have hback : Path (link two) (some x) (x :: xs.reverse) none := by
    refine ⟨rfl, ?_⟩
    rw [path_nil.mp hlinkx]
    exact htwoUp
  set three := turned two (lastOr ys (some x)) (x :: xs.reverse) with hthree
  have hbackNodes : ∀ y ∈ x :: xs.reverse, two y ≠ none := by
    intro y hy
    refine (turned_ne_none one _ _ y).mpr ((honeNodes y).mpr ?_)
    rcases List.mem_cons.mp hy with rfl | hy
    · exact hx y rfl
    · exact hupNodes y (List.mem_reverse.mp hy)
  have hthreeUp := path_turned (q := lastOr ys (some x)) hback hback.nodup hbackNodes
  rw [List.reverse_cons, List.reverse_reverse] at hthreeUp
  obtain ⟨_, hups, rfl, hlink⟩ := path_append.mp hthreeUp
  have hthreeAround : Path (link three) (lastOr ys (some x)) ys.reverse (some x) := hys.congr fun y hy => by
    refine link_turned_of_notMem (fun hmem => ?_) two _
    rcases List.mem_cons.mp hmem with rfl | hmem
    · exact (List.nodup_cons.mp hround).1 (List.mem_reverse.mp hy)
    · exact hdisjoint y (List.mem_reverse.mp hmem) y (List.mem_cons_of_mem x (List.mem_reverse.mp hy)) rfl
  have hstart := hup.start_eq hups
  refine ⟨three, ?_, ⟨hstart ▸ hups, ⟨rfl, ?_⟩, ?_⟩, fun fuel hfuel => ?_⟩
  · exact fun y => (sameData_turned two _ _ y).trans ((sameData_turned one _ _ y).trans (sameData_turned memory _ _ y))
  · rw [path_nil.mp hlink]
    exact hthreeAround
  · exact ((ys.reverse_perm.cons x).append_left xs).nodup_iff.mpr hnodup
  · have hlength : (x :: xs.reverse).length = xs.length + 1 := by rw [List.length_cons, List.length_reverse]
    obtain ⟨rest, rfl⟩ := Nat.exists_eq_add_of_le hfuel
    have hsplit : 2 * xs.length + ys.length + 3 + rest =
        rest + 1 + (x :: xs.reverse).length + (x :: ys).length + xs.length := by
      rw [hlength, List.length_cons]
      omega
    rw [flip, hsplit, flipLoop_path hup hxs hupNodes, ← hone,
      flipLoop_path honeAround hround fun y hy => (honeNodes y).mpr (haroundNodes y hy), ← htwo]
    exact (flipLoop_path hback hback.nodup hbackNodes _).trans (congrArg (fun p => some (three, p)) hstart)

/-- **`Flip`** reverses a list that ends. One that goes around keeps its way up to the loop, and the loop is
    reversed. -/
theorem flip_reverses (h : Sound memory) (hhead : Valid memory head) :
    ∃ memory' head' least, (∀ fuel, least ≤ fuel → flip fuel memory head = some (memory', head')) ∧
      SameData memory memory' ∧
      ((∃ xs, Path (link memory) head xs none ∧ Path (link memory') head' xs.reverse none) ∨
        ∃ xs x ys, head' = head ∧ Lasso (link memory) head xs x ys ∧ Lasso (link memory') head xs x ys.reverse) := by
  rcases h.path_or_lasso hhead with ⟨xs, hpath⟩ | ⟨xs, x, ys, hlasso⟩
  · refine ⟨turned memory none xs, lastOr xs none, xs.length + 1, fun fuel hfuel => (flip_list h hhead hpath hfuel).1,
      sameData_turned memory none xs, .inl ⟨xs, hpath, ?_⟩⟩
    exact (flip_list h hhead hpath (Nat.lt_succ_self _)).2
  · obtain ⟨memory', hdata, hlasso', hflip⟩ := flip_lasso h hhead hlasso
    exact ⟨memory', head, _, hflip, hdata, .inr ⟨xs, x, ys, rfl, hlasso, hlasso'⟩⟩

theorem flip_sample : ∃ memory' head' least,
    (∀ fuel, least ≤ fuel → flip fuel sampleMemory (some 0) = some (memory', head')) ∧
      SameData sampleMemory memory' := by
  obtain ⟨memory', head', least, hflip, hdata, -⟩ := flip_reverses sampleMemory_sound sampleMemory_valid
  exact ⟨memory', head', least, hflip, hdata⟩

/-! ## `FlipList` -/

/-- The first node of the nodes that are turned around. -/
theorem setNext_turned (memory : Memory) (q r : Option Nat) :
    setNext (turned memory q (x :: xs)) x r = turned memory r (x :: xs) := by
  funext y
  by_cases hy : y = x
  · rw [hy, setNext_self, turned, turned, Option.map_map]
    refine congrArg (Option.map · (memory x)) (funext fun node => ?_)
    simp only [Function.comp_apply, List.mem_cons_self, if_true, linkBack]
  · rw [setNext_of_ne hy, turned, turned]
    simp only [linkBack, hy, if_false]

/-- The recursion turns around the other nodes first. -/
theorem flipList_path (hpath : Path (link memory) (some x) (x :: xs) none) (hnodup : (x :: xs).Nodup)
    (hnodes : ∀ y ∈ x :: xs, memory y ≠ none) (hfuel : xs.length < fuel) :
    flipList fuel memory x = some (turned memory none (x :: xs), lastOr xs (some x)) := by
  induction xs generalizing x fuel with
  | nil =>
      obtain ⟨fuel, rfl⟩ := Nat.exists_eq_add_of_lt hfuel
      obtain ⟨node, hnode⟩ := Option.ne_none_iff_exists'.mp (hnodes x List.mem_cons_self)
      have hend : node.next = none := (link_eq hnode).symm.trans hpath.2
      have hsame : turned memory none [x] = memory := by
        rw [← turned_cons List.not_mem_nil]
        funext y
        rw [turned_of_notMem List.not_mem_nil]
        by_cases hy : y = x
        · rw [hy, setNext_self, hnode, Option.map_some, ← hend]
        · rw [setNext_of_ne hy]
      rw [flipList, hnode, Option.bind_eq_bind, Option.bind_some, hend, hsame]
      rfl
  | cons y ys ih =>
      obtain ⟨fuel, rfl⟩ : ∃ n, fuel = n + 1 := ⟨fuel - 1, by omega⟩
      obtain ⟨hx, hrest⟩ := List.nodup_cons.mp hnodup
      obtain ⟨node, hnode⟩ := Option.ne_none_iff_exists'.mp (hnodes x List.mem_cons_self)
      have hnext : node.next = some y := (link_eq hnode).symm.trans hpath.2.1
      have hnodes' : ∀ z ∈ y :: ys, memory z ≠ none := fun z hz => hnodes z (List.mem_cons_of_mem x hz)
      obtain ⟨behind, hbehind⟩ := Option.ne_none_iff_exists'.mp
        ((turned_ne_none memory none (y :: ys) y).mpr (hnodes' y List.mem_cons_self))
      have hsame : turned memory none (y :: ys) x = some node := (turned_of_notMem hx memory none).trans hnode
      rw [flipList, hnode, Option.bind_eq_bind, Option.bind_some, hnext]
      simp only [ih ⟨rfl, hpath.2.2⟩ hrest hnodes' (Nat.lt_of_succ_lt_succ hfuel), Option.bind_eq_bind,
        Option.bind_some, hsame, hnext, hbehind]
      -- the two assignments, in the order of `Flip`
      rw [setNext_turned, ← turned_cons hx memory none]
      refine congrArg (fun memory => some (memory, _)) (funext fun z => ?_)
      by_cases hz : z = x
      · rw [hz, setNext_self, turned_of_notMem hx, turned_of_notMem hx, setNext_self]
      · rw [setNext_of_ne hz, turned, turned, setNext_of_ne hz]

/-- In a loop, there is no last node to come back from. -/
theorem flipList_loops (hloops : Loops (link memory) (some x)) : flipList fuel memory x = none := by
  induction fuel generalizing x with
  | zero => rfl
  | succ fuel ih =>
      rw [flipList]
      cases hnode : memory x with
      | none => rfl
      | some node =>
          rw [Option.bind_eq_bind, Option.bind_some]
          have hone : follow (link memory) 1 (some x) = node.next := link_eq hnode
          cases hnext : node.next with
          | none => exact absurd (hone.trans hnext) (hloops 1)
          | some y =>
              have hbehind : Loops (link memory) (some y) := by
                rw [← hnext, ← hone]
                exact hloops.follow 1
              simp only [ih hbehind, Option.bind_eq_bind, Option.bind_none]

/-- **`FlipList` does what `Flip` does**, unless there is a loop. -/
theorem flipList_agrees_iff (h : Sound memory) (hx : memory x ≠ none) :
    (∃ least, ∀ fuel, least ≤ fuel → ∃ result, flipList fuel memory x = some result ∧
      flip fuel memory (some x) = some result) ↔ ¬ Loops (link memory) (some x) := by
  have hhead : Valid memory (some x) := by
    rintro y ⟨⟩
    exact hx
  constructor
  · rintro ⟨least, hagree⟩ hloops
    obtain ⟨result, hlist, -⟩ := hagree least (Nat.le_refl _)
    rw [flipList_loops hloops] at hlist
    cases hlist
  · intro hends
    rcases h.path_or_lasso hhead with ⟨xs, hpath⟩ | ⟨xs, y, ys, hlasso⟩
    · cases xs with
      | nil => exact absurd (path_nil.mp hpath) nofun
      | cons y ys =>
          obtain rfl := Option.some.inj hpath.1
          refine ⟨ys.length + 2, fun fuel hfuel => ⟨_, ?_, (flip_list h hhead hpath ?_).1⟩⟩
          · exact flipList_path hpath hpath.nodup (h.nodes hhead hpath) (by omega)
          · rw [List.length_cons]
            omega
    · exact absurd hlasso.loops hends

/-- The sample goes around. -/
theorem flipList_sample : ¬ ∃ least, ∀ fuel, least ≤ fuel → ∃ result, flipList fuel sampleMemory 0 = some result ∧
    flip fuel sampleMemory (some 0) = some result := by
  rw [flipList_agrees_iff sampleMemory_sound (show sampleMemory 0 ≠ none from nofun), not_not]
  have hlasso : Lasso (link sampleMemory) (some 0) [0] 1 [2] := ⟨⟨rfl, rfl⟩, ⟨rfl, rfl, rfl⟩, by decide⟩
  exact hlasso.loops

end Workbench.NodeLists
