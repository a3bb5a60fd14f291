import Mathlib.Data.List.Basic
import Mathlib.Data.List.TakeWhile
import Mathlib.Logic.Function.Basic

/-!
# `Linked.Intersection` — `FindIntersection`

The nodes of the first list are marked in their data, but for the last one. The second loop stops at a mark, or at the
last node, and returns where it stops. A `NULL` that is dereferenced is no result, and the loops have fuel.

## Contents
* `findIntersection` — the function;
* `Chain` — a list in memory, and what two lists share;
* `markLoop_eq`, `searchLoop_eq` — what the loops do;
* `findIntersection_iff` — when the result is the first shared node.
-/

namespace Workbench.Intersection

/-! ## The function -/

/-- `node_t`. The data are a pointer. -/
structure Node where
  data : BitVec 64
  next : Option Nat

/-- The nodes by their addresses. -/
abbrev Memory := Nat → Option Node

/-- `(void*)(-1)`. -/
def marker : BitVec 64 := -1

/-- The first loop, on `head_1`. -/
def markLoop : Nat → Memory → Nat → Option Memory
  | 0, _, _ => none
  | fuel + 1, memory, head1 => do
      let node ← memory head1
      match node.next with
      | some next => markLoop fuel (Function.update memory head1 (some { node with data := marker })) next
      | none => return memory

/-- The second loop, on `head_2`. -/
def searchLoop (memory : Memory) : Nat → Nat → Option Nat
  | 0, _ => none
  | fuel + 1, head2 => do
      let node ← memory head2
      match node.next with
      | some next => if node.data ≠ marker then searchLoop memory fuel next else return head2
      | none => return head2

/-- What is returned is a pointer. -/
def findIntersection (fuel : Nat) (memory : Memory) (head1 head2 : Nat) : Option (Memory × Option Nat) := do
  let memory ← markLoop fuel memory head1
  let head2 ← searchLoop memory fuel head2
  return (memory, some head2)

/-! ## Lists in memory -/

variable {memory : Memory} {xs ys : List Nat} {p x y : Nat} {head : Option Nat} {fuel : Nat} {node : Node}

/-- The nodes of a list up to its `NULL`. -/
def Chain (memory : Memory) : Option Nat → List Nat → Prop
  | head, [] => head = none
  | head, x :: xs => head = some x ∧ ∃ node, memory x = some node ∧ Chain memory node.next xs

/-- The memory determines the nodes. -/
theorem Chain.unique (hxs : Chain memory head xs) (hys : Chain memory head ys) : xs = ys := by
  induction xs generalizing head ys with
  | nil =>
      obtain rfl := hxs
      cases ys with
      | nil => rfl
      | cons y ys => cases hys.1
  | cons x xs ih =>
      obtain ⟨rfl, node, hnode, hrest⟩ := hxs
      cases ys with
      | nil => cases hys
      | cons y ys =>
          obtain ⟨hy, node', hnode', hrest'⟩ := hys
          obtain rfl := Option.some.inj hy
          obtain rfl := Option.some.inj (hnode.symm.trans hnode')
          rw [ih hrest hrest']

/-- From one of its nodes on. -/
theorem Chain.suffix (h : Chain memory head xs) (hy : y ∈ xs) :
    ∃ before after, xs = before ++ y :: after ∧ Chain memory (some y) (y :: after) := by
  induction xs generalizing head with
  | nil => cases hy
  | cons x xs ih =>
      obtain ⟨-, node, hnode, hrest⟩ := h
      by_cases hxy : y = x
      · exact ⟨[], xs, by rw [hxy]; rfl, rfl, node, by rw [hxy, hnode], hrest⟩
      · obtain ⟨before, after, rfl, hafter⟩ := ih hrest ((List.mem_cons.mp hy).resolve_left hxy)
        exact ⟨x :: before, after, rfl, hafter⟩

/-- **Two lists that share a node** share all after it. -/
theorem Chain.shared {head' : Option Nat} (hxs : Chain memory head xs) (hys : Chain memory head' (y :: ys))
    (hy : y ∈ xs) : ∃ before, xs = before ++ y :: ys := by
  obtain ⟨before, after, hsplit, hafter⟩ := hxs.suffix hy
  obtain ⟨-, node, hnode, hrest⟩ := hys
  have hsame := hafter.unique (show Chain memory (some y) (y :: ys) from ⟨rfl, node, hnode, hrest⟩)
  exact ⟨before, by rw [hsplit, hsame]⟩

/-! ## The first loop -/

/-- The memory after some nodes were marked. -/
def marked (memory : Memory) (xs : List Nat) : Memory := fun p =>
  (memory p).map fun node => if p ∈ xs then { node with data := marker } else node

theorem marked_nil (memory : Memory) : marked memory [] = memory := by
  funext p
  rw [marked]
  cases memory p with
  | none => rfl
  | some node => exact congrArg some (if_neg List.not_mem_nil)

theorem marked_cons (hx : memory x = some node) :
    marked (Function.update memory x (some { node with data := marker })) xs = marked memory (x :: xs) := by
  funext p
  rw [marked, marked]
  by_cases hp : p = x
  · rw [hp, Function.update_self, hx, Option.map_some, Option.map_some, if_pos List.mem_cons_self]
    split <;> rfl
  · have hmem : p ∈ x :: xs ↔ p ∈ xs := by rw [List.mem_cons, or_iff_right hp]
    rw [Function.update_of_ne hp]
    cases memory p with
    | none => rfl
    | some node => exact congrArg some (if_congr hmem.symm rfl rfl)

/-- The links are the same. -/
theorem Chain.marked (h : Chain memory head ys) (xs : List Nat) : Chain (marked memory xs) head ys := by
  induction ys generalizing head with
  | nil => exact h
  | cons y ys ih =>
      obtain ⟨hhead, node, hnode, hrest⟩ := h
      refine ⟨hhead, if y ∈ xs then { node with data := marker } else node, ?_, ?_⟩
      · rw [Intersection.marked, hnode]
        rfl
      · have hnext : (if y ∈ xs then { node with data := marker } else node).next = node.next := by split <;> rfl
        rw [hnext]
        exact ih hrest

theorem markLoop_eq (h : Chain memory (some x) xs) (hfuel : xs.length < fuel) :
    markLoop fuel memory x = some (marked memory xs.dropLast) := by
  induction fuel generalizing memory x xs with
  | zero => exact absurd hfuel (Nat.not_lt_zero _)
  | succ fuel ih =>
      cases xs with
      | nil => cases h
      | cons x' rest =>
          obtain ⟨hx', ⟨data, link⟩, hnode, hrest⟩ := h
          obtain rfl := Option.some.inj hx'
          rw [markLoop, hnode, Option.bind_eq_bind, Option.bind_some]
          cases rest with
          | nil =>
              obtain rfl : link = none := hrest
              exact congrArg some (marked_nil memory).symm
          | cons next rest =>
              obtain rfl : link = some next := hrest.1
              have hmarked := hrest.marked [x]
              rw [← marked_cons hnode, marked_nil] at hmarked
              rw [List.dropLast_cons_cons, ← marked_cons hnode]
              exact ih hmarked (Nat.lt_of_succ_lt_succ hfuel)

/-! ## The second loop -/

/-- The data of a node are the marker. -/
def Marked (memory : Memory) (p : Nat) : Prop := (memory p).map Node.data = some marker

instance (memory : Memory) (p : Nat) : Decidable (Marked memory p) :=
  inferInstanceAs (Decidable ((memory p).map Node.data = some marker))

/-- The first node with the marker, or the last one. -/
def searched (memory : Memory) : List Nat → Option Nat
  | [] => none
  | [y] => some y
  | y :: ys => if Marked memory y then some y else searched memory ys

theorem searchLoop_eq (h : Chain memory (some y) ys) (hfuel : ys.length < fuel) :
    searchLoop memory fuel y = searched memory ys := by
  induction fuel generalizing y ys with
  | zero => exact absurd hfuel (Nat.not_lt_zero _)
  | succ fuel ih =>
      cases ys with
      | nil => cases h
      | cons y' rest =>
          obtain ⟨hy', ⟨data, link⟩, hnode, hrest⟩ := h
          obtain rfl := Option.some.inj hy'
          rw [searchLoop, hnode, Option.bind_eq_bind, Option.bind_some]
          cases rest with
          | nil =>
              obtain rfl : link = none := hrest
              rfl
          | cons next rest =>
              obtain rfl : link = some next := hrest.1
              have hmark : Marked memory y ↔ data = marker := by
                rw [Marked, hnode, Option.map_some, Option.some.injEq]
              rw [searched, if_congr hmark rfl rfl]
              · by_cases hdata : data = marker
                · rw [if_pos hdata]
                  exact if_neg (not_not_intro hdata)
                · rw [if_neg hdata, ← ih hrest (Nat.lt_of_succ_lt_succ hfuel)]
                  exact if_pos hdata
              · exact List.cons_ne_nil next rest

/-! ## The result -/

theorem marked_iff : Marked (marked memory xs) y ↔ (∃ node, memory y = some node) ∧ (y ∈ xs ∨ Marked memory y) := by
  rw [Marked, Marked, marked]
  cases hnode : memory y with
  | none => simp
  | some node =>
      by_cases hy : y ∈ xs
      · simp [hy]
      · simp [hy]

/-- A shared node has a mark, or is the last one of both lists. -/
theorem searched_shared (hxs : Chain memory head xs) {head' : Option Nat} {y : Nat} (hys : Chain memory head' (y :: ys))
    (hy : y ∈ xs) : searched (marked memory xs.dropLast) (y :: ys) = some y := by
  cases ys with
  | nil => rfl
  | cons next rest =>
      obtain ⟨before, hsplit⟩ := hxs.shared hys hy
      obtain ⟨-, node, hnode, -⟩ := hys
      have hmem : y ∈ xs.dropLast := by
        rw [hsplit, List.dropLast_append_of_ne_nil (List.cons_ne_nil _ _), List.dropLast_cons_cons]
        exact List.mem_append_right _ List.mem_cons_self
      rw [searched, if_pos (marked_iff.mpr ⟨⟨node, hnode⟩, .inl hmem⟩)]
      exact List.cons_ne_nil next rest

/-- The nodes before the first shared one have no marker. -/
theorem searched_iff (hxs : Chain memory head xs) {head' : Option Nat} (hys : Chain memory head' ys) (hne : ys ≠ []) :
    searched (marked memory xs.dropLast) ys = ys.find? (· ∈ xs) ↔
      (∃ y ∈ ys, y ∈ xs) ∧ ∀ y ∈ ys.takeWhile (· ∉ xs), ¬ Marked memory y := by
  induction ys generalizing head' with
  | nil => exact absurd rfl hne
  | cons y ys ih =>
      by_cases hy : y ∈ xs
      · rw [searched_shared hxs hys hy, List.find?_cons_of_pos (by simpa using hy)]
        refine iff_of_true rfl ⟨⟨y, List.mem_cons_self, hy⟩, ?_⟩
        rw [List.takeWhile_cons_of_neg (by simpa using hy)]
        exact fun z hz => absurd hz List.not_mem_nil
      · obtain ⟨-, node, hnode, hrest⟩ := hys
        have hnot : ys.find? (· ∈ xs) ≠ some y := fun hfind => hy (by simpa using List.find?_some hfind)
        have hdrop : y ∉ xs.dropLast := fun h => hy ((List.dropLast_sublist xs).subset h)
        rw [List.find?_cons_of_neg (by simpa using hy), List.takeWhile_cons_of_pos (by simpa using hy),
          List.exists_mem_cons_iff, or_iff_right hy, List.forall_mem_cons]
        cases ys with
        | nil =>
            refine iff_of_false (fun h => hnot h.symm) ?_
            rintro ⟨⟨z, hz, -⟩, -⟩
            exact absurd hz List.not_mem_nil
        | cons next rest =>
            rw [searched]
            · by_cases hdata : Marked memory y
              · rw [if_pos (marked_iff.mpr ⟨⟨node, hnode⟩, .inr hdata⟩)]
                exact iff_of_false (fun h => hnot h.symm) fun h => h.2.1 hdata
              · rw [if_neg fun h => (marked_iff.mp h).2.elim hdrop hdata, ih hrest (List.cons_ne_nil next rest),
                  and_iff_right hdata]
            · exact List.cons_ne_nil next rest

theorem findIntersection_eq {head1 head2 : Nat} (hxs : Chain memory (some head1) xs)
    (hys : Chain memory (some head2) ys) (hfuel : xs.length < fuel) (hfuel' : ys.length < fuel) :
    findIntersection fuel memory head1 head2 =
      (searched (marked memory xs.dropLast) ys).map fun p => (marked memory xs.dropLast, some p) := by
  rw [findIntersection, markLoop_eq hxs hfuel, Option.bind_eq_bind, Option.bind_some,
    searchLoop_eq (hys.marked xs.dropLast) hfuel']
  cases searched (marked memory xs.dropLast) ys with
  | none => rfl
  | some p => rfl

/-- It returns the first node of the second list that is one of the first list, or `NULL`. -/
def Finds (result : Option (Memory × Option Nat)) (xs ys : List Nat) : Prop :=
  ∃ memory', result = some (memory', ys.find? (· ∈ xs))

theorem searched_isSome (memory : Memory) (hne : ys ≠ []) : ∃ p, searched memory ys = some p := by
  induction ys with
  | nil => exact absurd rfl hne
  | cons y ys ih =>
      cases ys with
      | nil => exact ⟨y, rfl⟩
      | cons next rest =>
          rw [searched]
          · by_cases hdata : Marked memory y
            · exact ⟨y, if_pos hdata⟩
            · rw [if_neg hdata]
              exact ih (List.cons_ne_nil next rest)
          · exact List.cons_ne_nil next rest

/-- **The result is right** if and only if the lists share a node, and no node of the second list before it has the
    marker as its data. -/
theorem findIntersection_iff (memory : Memory) (head1 head2 : Nat) (xs ys : List Nat) (fuel : Nat)
    (hxs : Chain memory (some head1) xs) (hys : Chain memory (some head2) ys) (hfuel : xs.length < fuel)
    (hfuel' : ys.length < fuel) :
    Finds (findIntersection fuel memory head1 head2) xs ys ↔
      (∃ y ∈ ys, y ∈ xs) ∧ ∀ y ∈ ys.takeWhile (· ∉ xs), ¬ Marked memory y := by
  have hne : ys ≠ [] := by
    rintro rfl
    cases hys
  obtain ⟨p, hp⟩ := searched_isSome (marked memory xs.dropLast) hne
  rw [← searched_iff hxs hys hne, findIntersection_eq hxs hys hfuel hfuel', hp]
  constructor
  · rintro ⟨memory', hresult⟩
    exact (Prod.mk.inj (Option.some.inj hresult)).2
  · exact fun hfind => ⟨marked memory xs.dropLast, congrArg (fun found => some (_, found)) hfind⟩

/-- The memory with some nodes. -/
def memoryOf (nodes : List (Nat × Node)) : Memory := fun p => nodes.lookup p

theorem findIntersection_iff_node3 :
    Finds (findIntersection 4 (memoryOf [(1, ⟨1, some 3⟩), (2, ⟨2, some 3⟩), (3, ⟨3, none⟩)]) 1 2) [1, 3] [2, 3] ↔
      (∃ y ∈ [2, 3], y ∈ [1, 3]) ∧ ∀ y ∈ [2, 3].takeWhile (· ∉ [1, 3]),
        ¬ Marked (memoryOf [(1, ⟨1, some 3⟩), (2, ⟨2, some 3⟩), (3, ⟨3, none⟩)]) y :=
  findIntersection_iff _ 1 2 [1, 3] [2, 3] 4 ⟨rfl, _, rfl, rfl, _, rfl, rfl⟩ ⟨rfl, _, rfl, rfl, _, rfl, rfl⟩ (by decide)
    (by decide)

/-- Two lists that share no node. -/
def apart : Memory := memoryOf [(1, ⟨1, none⟩), (2, ⟨2, none⟩)]

/-- Two lists that share a node, behind one with the marker. -/
def behindMarker : Memory := memoryOf [(1, ⟨1, some 3⟩), (2, ⟨-1, some 3⟩), (3, ⟨3, none⟩)]

theorem findIntersection_wrong :
    (Chain apart (some 1) [1] ∧ Chain apart (some 2) [2] ∧ ¬ Finds (findIntersection 4 apart 1 2) [1] [2]) ∧
      Chain behindMarker (some 1) [1, 3] ∧ Chain behindMarker (some 2) [2, 3] ∧
        ¬ Finds (findIntersection 4 behindMarker 1 2) [1, 3] [2, 3] := by
  have hapart : (findIntersection 4 apart 1 2).map Prod.snd = some (some 2) := by decide
  have hbehind : (findIntersection 4 behindMarker 1 2).map Prod.snd = some (some 2) := by decide
  refine ⟨⟨⟨rfl, _, rfl, rfl⟩, ⟨rfl, _, rfl, rfl⟩, ?_⟩, ⟨rfl, _, rfl, rfl, _, rfl, rfl⟩,
    ⟨rfl, _, rfl, rfl, _, rfl, rfl⟩, ?_⟩
  · rintro ⟨memory', hresult⟩
    rw [hresult] at hapart
    cases hapart
  · rintro ⟨memory', hresult⟩
    rw [hresult] at hbehind
    cases hbehind

end Workbench.Intersection
