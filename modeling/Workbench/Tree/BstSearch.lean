import Workbench.Tree.BstRuns

/-!
# `Tree.BstSearch` — the search compares with other params than the insertion

`BSTInsert` compares with the params that were given to `BSTCreate`, and `BSTSearch` with `NULL`. The search goes from
the first node to the end, and the first node of a new tree is `NULL`.

## Main results
* `Holds.searchLoop` — where the search ends;
* `bstSearch_finds_iff` — when that is an element equal to the key, or rightly the end.
-/

namespace Workbench.Bst

open SearchTree

variable {α P : Type} {tree : Tree α} {t : BinaryTree (Nat × α)} {xs ys : List (Nat × α)}
  {s : State α} {key : α}

/-- **The comparator of a tree** and the params that were given to `BSTCreate`, with which it is a total preorder. -/
structure ParamsComparator (α P : Type) where
  compare : α → α → Option P → Int
  params : Option P
  swap (x y : α) : 0 < compare x y params ↔ compare y x params < 0
  trans (x y z : α) : 0 ≤ compare x y params → 0 ≤ compare y z params → 0 ≤ compare x z params

/-- The comparisons of the insertions. -/
def ParamsComparator.order (cmp : ParamsComparator α P) : Comparator α :=
  ⟨fun x y => cmp.compare x y cmp.params, cmp.swap, cmp.trans⟩

variable {cmp : ParamsComparator α P}

/-- The comparator gets `NULL` for the params. -/
def bstSearchLoop (compare : α → α → Option P → Int) (tree : Tree α) (dataToMatch : α) : Nat → Iter → Option Iter
  | 0, _ => none
  | turns + 1, runner =>
      if bstEnd ≠ runner then do
        let data ← bstGetData tree runner
        if compare data dataToMatch none = 0 then
          return runner
        else
          let next ← bstIterNext tree runner
          bstSearchLoop compare tree dataToMatch turns next
      else
        some runner

def bstSearch (compare : α → α → Option P → Int) (tree : Tree α) (dataToMatch : α) : Option Iter := do
  let runner ← bstBegin tree
  bstSearchLoop compare tree dataToMatch tree.memory.length runner

/-- **What `BSTSearch` is to return**: an element that is equal to the key with the params of the tree, and the end if
    and only if there is none. -/
def Finds (cmp : ParamsComparator α P) (live : List (Iter × α)) (key : α) (result : Option Iter) : Prop :=
  ∃ iter, result = some iter ∧
    (iter ≠ bstEnd → ∃ data, (iter, data) ∈ live ∧ cmp.compare data key cmp.params = 0) ∧
    (iter = bstEnd ↔ ∀ e ∈ live, cmp.compare e.2 key cmp.params ≠ 0)

/-- The first of the elements that is equal to the key with `NULL` is equal to it with the params of the tree, and
    without such an element none is equal to it. -/
def FirstAgrees (cmp : ParamsComparator α P) (key : α) (xs : List (Iter × α)) : Prop :=
  (∀ as e bs, xs = as ++ e :: bs → (∀ a ∈ as, cmp.compare a.2 key none ≠ 0) → cmp.compare e.2 key none = 0 →
    cmp.compare e.2 key cmp.params = 0) ∧
  ((∀ e ∈ xs, cmp.compare e.2 key none ≠ 0) → ∀ e ∈ xs, cmp.compare e.2 key cmp.params ≠ 0)

/-- The tree is built by insertions. -/
def Inserts (_ : State α) : Call α → Prop
  | .insert _ _ => True
  | .remove _ => False

/-- The search ends at an element after others that are not equal, or after all. -/
theorem Holds.searchLoop (h : Holds tree t) (compare : α → α → Option P → Int) (key : α)
    (hsplit : inorder t = xs ++ ys) {turns : Nat} (hturns : ys.length < turns) :
    (∃ as e bs, ys = as ++ e :: bs ∧ (∀ a ∈ as, compare a.2 key none ≠ 0) ∧ compare e.2 key none = 0 ∧
        bstSearchLoop compare tree key turns (first ys) = some (.node e.1)) ∨
      (∀ e ∈ ys, compare e.2 key none ≠ 0) ∧ bstSearchLoop compare tree key turns (first ys) = some bstEnd := by
  induction ys generalizing xs turns with
  | nil =>
      cases turns with
      | zero => omega
      | succ turns => exact .inr ⟨fun e he => absurd he List.not_mem_nil, rfl⟩
  | cons e ys ih =>
      cases turns with
      | zero => omega
      | succ turns =>
          obtain ⟨hnext, hdata⟩ := h.next_of_split hsplit
          have hne : bstEnd ≠ first (e :: ys) := fun heq => Iter.noConfusion heq
          unfold bstSearchLoop
          rw [if_pos hne]
          simp only [first_cons, hdata, hnext, bind, Option.bind_some]
          by_cases hequal : compare e.2 key none = 0
          · rw [if_pos hequal]
            exact .inl ⟨[], e, ys, rfl, fun a ha => absurd ha List.not_mem_nil, hequal, rfl⟩
          · rw [if_neg hequal]
            have hsplit' : inorder t = (xs ++ [e]) ++ ys := by
              rw [hsplit, List.append_assoc]
              rfl
            rcases ih hsplit' (Nat.lt_of_succ_lt_succ hturns) with ⟨as, u, bs, rfl, has, hu, hloop⟩ | ⟨hnone, hloop⟩
            · exact .inl ⟨e :: as, u, bs, rfl, List.forall_mem_cons.mpr ⟨hequal, has⟩, hu, hloop⟩
            · exact .inr ⟨List.forall_mem_cons.mpr ⟨hequal, hnone⟩, hloop⟩

/-- There is one first element of a kind. -/
theorem first_unique {β : Type} {p : β → Prop} [DecidablePred p] {as bs as' bs' : List β} {e e' : β}
    (hsplit : as ++ e :: bs = as' ++ e' :: bs') (has : ∀ a ∈ as, ¬ p a) (he : p e) (has' : ∀ a ∈ as', ¬ p a)
    (he' : p e') : e = e' := by
  have hfind : ∀ {as bs : List β} {e : β}, (∀ a ∈ as, ¬ p a) → p e → (as ++ e :: bs).find? (p ·) = some e := by
    intro as bs e has he
    refine List.find?_eq_some_iff_append.mpr ⟨decide_eq_true he, as, bs, rfl, fun a ha => ?_⟩
    rw [decide_eq_false (has a ha)]
    rfl
  exact Option.some.inj ((hfind has he).symm.trans (hsplit ▸ hfind has' he'))

/-- The end of the search is right. -/
theorem finds_end_iff (live : List (Iter × α)) :
    Finds cmp live key (some bstEnd) ↔ ∀ e ∈ live, cmp.compare e.2 key cmp.params ≠ 0 := by
  constructor
  · rintro ⟨iter, hiter, -, hend⟩
    exact hend.mp (Option.some.inj hiter).symm
  · exact fun hnone => ⟨bstEnd, rfl, fun hne => absurd rfl hne, fun _ => hnone, fun _ => rfl⟩

/-- An element that the search returns is right. -/
theorem finds_node_iff {live : List (Iter × α)} (hnodup : (live.map Prod.fst).Nodup) {x : Nat} {data : α}
    (hmem : (.node x, data) ∈ live) : Finds cmp live key (some (.node x)) ↔ cmp.compare data key cmp.params = 0 := by
  have hne : Iter.node x ≠ bstEnd := fun heq => Iter.noConfusion heq
  constructor
  · rintro ⟨iter, hiter, helement, -⟩
    obtain rfl := Option.some.inj hiter
    obtain ⟨data', hmem', hequal⟩ := helement hne
    have hsame := List.inj_on_of_nodup_map hnodup hmem' hmem rfl
    rwa [(Prod.mk.inj hsame).2] at hequal
  · intro hequal
    refine ⟨_, rfl, fun _ => ⟨data, hmem, hequal⟩, fun heq => absurd heq hne, fun hnone => ?_⟩
    exact absurd hequal (hnone _ hmem)

/-- The first node of a tree without elements is `NULL`, or freed. -/
theorem Stale.search (h : Stale tree) (compare : α → α → Option P → Int) (key : α) :
    bstSearch compare tree key = none := by
  unfold bstSearch bstBegin
  cases hfirst : tree.firstNode with
  | none => rfl
  | some iter =>
      obtain ⟨hne, hfree⟩ := h iter hfirst
      simp only [bind, Option.bind_some]
      cases tree.memory.length with
      | zero => rfl
      | succ turns =>
          unfold bstSearchLoop bstGetData
          rw [if_pos hne.symm, hfree]
          rfl

/-- **When `BSTSearch` finds what it is to find**, in every tree that insertions have built. -/
theorem bstSearch_finds_iff (h : (bstSystem cmp.order).Reachable Inserts s) (key : α) :
    Finds cmp s.live key (bstSearch cmp.compare s.tree key) ↔
      s.live ≠ [] ∧ ∀ xs, walk s.tree = some xs → FirstAgrees cmp key xs := by
  have hkeeps : (bstSystem cmp.order).Reachable (KeepsFirst cmp.order) s := by
    refine h.mono fun s call hinserts => ?_
    cases call with
    | insert data address => trivial
    | remove iter => exact hinserts.elim
  obtain ⟨t, hstored, hempty, hfirst⟩ := reachable_cached hkeeps
  by_cases hlive : s.live = []
  · constructor
    · rintro ⟨iter, hiter, -⟩
      rw [(hempty ((live_eq_nil_iff hstored).mp hlive)).search] at hiter
      cases hiter
    · rintro ⟨hne, -⟩
      exact absurd hlive hne
  · have hfirst := hfirst fun hnil => hlive ((live_eq_nil_iff hstored).mpr hnil)
    obtain ⟨hwalk, -⟩ := hstored.holds.walk hfirst
    obtain ⟨xs, hxs, hperm, hnodup, -⟩ := hstored.enumerates hfirst
    obtain rfl := Option.some.inj (hwalk.symm.trans hxs)
    have hnodup : (s.live.map Prod.fst).Nodup := (hperm.map Prod.fst).nodup_iff.mp hnodup
    have hsearch : bstSearch cmp.compare s.tree key =
        bstSearchLoop cmp.compare s.tree key s.tree.memory.length (first (inorder t)) := by
      unfold bstSearch bstBegin
      rw [hfirst]
      rfl
    have hwalks : (∀ xs, walk s.tree = some xs → FirstAgrees cmp key xs) ↔
        FirstAgrees cmp key ((inorder t).map visit) := by
      rw [hwalk]
      exact ⟨fun hall => hall _ rfl, fun hagrees xs hxs => Option.some.inj hxs ▸ hagrees⟩
    rw [hsearch, hwalks, and_iff_right hlive]
    rcases hstored.holds.searchLoop cmp.compare key (List.nil_append _).symm hstored.holds.length_lt with
      ⟨as, e, bs, hsplit, has, he, hloop⟩ | ⟨hnone, hloop⟩
    · have hmem : visit e ∈ s.live := by
        refine hperm.mem_iff.mp (List.mem_map_of_mem ?_)
        rw [hsplit]
        exact List.mem_append_right _ List.mem_cons_self
      have has : ∀ a ∈ as.map visit, cmp.compare a.2 key none ≠ 0 := List.forall_mem_map.mpr has
      rw [hloop, finds_node_iff hnodup hmem, hsplit, List.map_append, List.map_cons]
      constructor
      · intro hequal
        refine ⟨fun as' e' bs' hsplit' has' he' => ?_, fun hnone => ?_⟩
        · have hfirst' : visit e = e' :=
            first_unique (p := fun a : Iter × α => cmp.compare a.2 key none = 0) hsplit' has he has' he'
          rwa [← hfirst']
        · exact absurd he (hnone (visit e) (by simp))
      · exact fun hagrees => hagrees.1 (as.map visit) (visit e) (bs.map visit) rfl has he
    · have hnone : ∀ a ∈ (inorder t).map visit, cmp.compare a.2 key none ≠ 0 := by
        intro a ha
        obtain ⟨u, hu, rfl⟩ := List.mem_map.mp ha
        exact hnone u hu
      rw [hloop, finds_end_iff]
      constructor
      · intro hend
        refine ⟨fun as e bs hsplit _ he => ?_, fun _ e he => hend e (hperm.mem_iff.mp he)⟩
        refine absurd he (hnone e ?_)
        rw [hsplit]
        exact List.mem_append_right _ List.mem_cons_self
      · intro hagrees e he
        exact hagrees.2 hnone e (hperm.mem_iff.mpr he)

/-- Numbers are compared by their halves with params, and by themselves with `NULL`. -/
def byHalves : ParamsComparator Int Unit where
  compare x y params := if params.isSome then x / 2 - y / 2 else x - y
  params := some ()
  swap x y := by
    show 0 < x / 2 - y / 2 ↔ y / 2 - x / 2 < 0
    omega
  trans x y z hxy hyz := by
    have hxy : 0 ≤ x / 2 - y / 2 := hxy
    have hyz : 0 ≤ y / 2 - z / 2 := hyz
    show 0 ≤ x / 2 - z / 2
    omega

/-- 4 is inserted into a new tree. -/
def inserted : State Int := ⟨⟨byHalves.order.compare, some (.node 1),
  [(.dummyRoot, ⟨none, none, some (.node 1), none⟩), (.node 1, ⟨some 4, some .dummyRoot, none, none⟩)]⟩, [(.node 1, 4)]⟩

theorem reachable_inserted : (bstSystem byHalves.order).Reachable Inserts inserted := by
  have hcreated : (bstSystem byHalves.order).Reachable Inserts ⟨bstCreate byHalves.order.compare, []⟩ := .init rfl
  exact hcreated.step (a := Call.insert 4 1) trivial ⟨rfl, rfl⟩

/-- 5 is equal to 4 by halves and is not found, and in a new tree the search dereferences `NULL`. -/
theorem bstSearch_misses :
    ((bstSystem byHalves.order).Reachable Inserts inserted ∧
      ¬ Finds byHalves inserted.live 5 (bstSearch byHalves.compare inserted.tree 5)) ∧
    ((bstSystem byHalves.order).Reachable Inserts ⟨bstCreate byHalves.order.compare, []⟩ ∧
      ¬ Finds byHalves [] 5 (bstSearch byHalves.compare (bstCreate byHalves.order.compare) 5)) := by
  refine ⟨⟨reachable_inserted, ?_⟩, .init rfl, ?_⟩
  · have hend : bstSearch byHalves.compare inserted.tree 5 = some bstEnd := rfl
    rw [hend]
    rintro ⟨iter, hiter, -, hnone⟩
    exact hnone.mp (Option.some.inj hiter).symm (.node 1, 4) List.mem_cons_self rfl
  · have hcrash : bstSearch byHalves.compare (bstCreate byHalves.order.compare) 5 = none := rfl
    rw [hcrash]
    rintro ⟨iter, hiter, -⟩
    cases hiter

/-- 4 itself. -/
theorem bstSearch_finds_iff_inserted : Finds byHalves inserted.live 4 (bstSearch byHalves.compare inserted.tree 4) ↔
    inserted.live ≠ [] ∧ ∀ xs, walk inserted.tree = some xs → FirstAgrees byHalves 4 xs :=
  bstSearch_finds_iff reachable_inserted 4

end Workbench.Bst
