import Workbench.Lib.Comparator
import Workbench.Lib.Served
import Workbench.Lib.System
import Workbench.Tree.BstChanges

/-!
# `Tree.BstRuns` — the elements in order

The tree keeps its first node apart from the others. An insertion compares the new element with it. A removal does not
look at it, so it is a freed node when the first element is removed, and in a new tree it is `NULL`.

## Main results
* `elements_in_order` — when a walk over the tree enumerates the elements in order;
* `walk_stale` — the first of two elements is removed.
-/

namespace Workbench.Bst

open SearchTree

/-- A tree with its elements, in the order in which they were inserted. -/
structure State (α : Type) where
  tree : Tree α
  live : List (Iter × α)

variable {α : Type} {order : Comparator α} {s s' : State α} {t : BinaryTree (Nat × α)} {iter : Iter}

/-- An insertion has the address that `malloc` returns. -/
inductive Call (α : Type)
  | insert (data : α) (address : Nat)
  | remove (iter : Iter)

/-- `malloc` returns an address that is free, and what is removed is an element of the tree. -/
def Enabled (s : State α) : Call α → Prop
  | .insert _ address => deref s.tree (.node address) = none
  | .remove iter => ∃ data, (iter, data) ∈ s.live

def exec (s : State α) : Call α → Option (State α)
  | .insert data address => do
      let (tree, iter) ← bstInsert s.tree data (some address)
      return ⟨tree, s.live ++ [(iter, data)]⟩
  | .remove iter => do
      let (tree, _) ← bstRemove s.tree iter
      return ⟨tree, s.live.filter fun e => e.1 ≠ iter⟩

def bstSystem (order : Comparator α) : System (State α) (Call α) where
  init s := s = ⟨bstCreate order.compare, []⟩
  step s call s' := Enabled s call ∧ exec s call = some s'

/-- **A walk enumerates the elements**, each one once, in order, and those that compare equal in the order in which
    they were inserted. -/
def Enumerates (order : Comparator α) (s : State α) : Prop :=
  ∃ xs, walk s.tree = some xs ∧ xs.Perm s.live ∧ (xs.map Prod.fst).Nodup ∧
    xs.Pairwise (fun a b => order.compare a.2 b.2 ≤ 0) ∧
    (∀ data, xs.filter (fun a => order.compare a.2 data = 0) = s.live.filter (fun a => order.compare a.2 data = 0)) ∧
    bstSize s.tree = some s.live.length ∧ (s.live = [] → bstBegin s.tree = some bstEnd)

/-- The first element in order: smaller than what was inserted before it, and not greater than what was inserted
    after it. -/
def IsFirst (order : Comparator α) (live : List (Iter × α)) (iter : Iter) : Prop :=
  ∃ data before after, live = before ++ (iter, data) :: after ∧ (∀ a ∈ before, 0 < order.compare a.2 data) ∧
    ∀ a ∈ after, 0 ≤ order.compare a.2 data

/-- The first element is not removed, unless it is the only one. -/
def KeepsFirst (order : Comparator α) (s : State α) : Call α → Prop
  | .insert _ _ => True
  | .remove iter => s.live.length = 1 ∨ ¬ IsFirst order s.live iter

/-! ## What a state has in memory -/

/-- The elements are in the tree, in order. -/
structure Stored (order : Comparator α) (s : State α) (t : BinaryTree (Nat × α)) : Prop where
  holds : Holds s.tree t
  compare : s.tree.compare = order.compare
  served : Served (fun e => order.rank e.2) s.live ((inorder t).map visit)

/-- The first node is nowhere in memory. -/
def Stale (tree : Tree α) : Prop := ∀ iter, tree.firstNode = some iter → iter ≠ bstEnd ∧ deref tree iter = none

theorem Stored.perm (h : Stored order s t) : ((inorder t).map visit).Perm s.live := by
  classical
  exact h.served.perm

theorem Stored.enumerates (h : Stored order s t) (hfirst : s.tree.firstNode = some (first (inorder t))) :
    Enumerates order s := by
  obtain ⟨hwalk, hsize⟩ := h.holds.walk hfirst
  refine ⟨_, hwalk, h.perm, ?_, ?_, fun data => ?_, ?_, fun hempty => ?_⟩
  · rw [List.map_map]
    have hnodup : ((inorder t).map fun e => e.1).Nodup := h.holds.nodup
    have hmap : (inorder t).map (Prod.fst ∘ visit) = ((inorder t).map fun e => e.1).map Iter.node := by
      rw [List.map_map]
      rfl
    rw [hmap]
    exact hnodup.map fun a b heq => Iter.node.inj heq
  · exact h.served.sorted.imp fun hle => order.rank_le_rank.mp hle
  · have hstable := h.served.stable (order.rank data)
    simpa only [order.rank_eq_rank] using hstable
  · rw [hsize, ← h.perm.length_eq, List.length_map]
  · have hnil : inorder t = [] := List.map_eq_nil_iff.mp (List.perm_nil.mp (hempty ▸ h.perm))
    rw [bstBegin, hfirst, hnil]
    rfl

theorem Stale.not_enumerates (h : Stale s.tree) : ¬ Enumerates order s := by
  rintro ⟨xs, hwalk, -⟩
  rw [walk_eq_none h] at hwalk
  cases hwalk

/-- The first element in order is what is served next. -/
theorem isFirst_iff {a : Iter × α} (h : Served (fun e => order.rank e.2) s.live (a :: xs)) :
    IsFirst order s.live iter ↔ iter = a.1 := by
  obtain ⟨before, after, hlive, hbefore, hafter⟩ := h.head_split
  constructor
  · rintro ⟨data, before', after', hlive', hbefore', hafter'⟩
    have heq : (iter, data) = a := by
      refine head_unique (fun e : Iter × α => order.rank e.2) (hlive'.symm.trans hlive) ?_ ?_ hbefore hafter
      · exact fun b hb => order.rank_lt_rank.mpr (hbefore' b hb)
      · exact fun b hb => order.rank_le_rank.mpr (order.nonpos_iff.mpr (hafter' b hb))
    rw [← heq]
  · rintro rfl
    refine ⟨a.2, before, after, hlive, fun b hb => ?_, fun b hb => ?_⟩
    · exact order.rank_lt_rank.mp (hbefore b hb)
    · exact order.nonpos_iff.mp (order.rank_le_rank.mp (hafter b hb))

/-! ## One call -/

/-- **An insertion** stores the element, and the first node is right after it. -/
theorem Stored.insert (h : Stored order s t) (data : α) {address : Nat}
    (hfirst : t ≠ .nil → s.tree.firstNode = some (first (inorder t))) (hfree : deref s.tree (.node address) = none) :
    ∃ s' t', exec s (.insert data address) = some s' ∧ Stored order s' t' ∧ t' ≠ .nil ∧
      s'.tree.firstNode = some (first (inorder t')) := by
  have hsorted : (inorder t).Pairwise fun a b =>
      goesLeft s.tree.compare data a = true → goesLeft s.tree.compare data b = true := by
    refine (List.pairwise_map.mp h.served.sorted).imp fun {a b} hle hleft => ?_
    simp only [goesLeft, h.compare, decide_eq_true_eq, ← order.rank_lt_rank] at hleft ⊢
    exact lt_of_lt_of_le hleft hle
  have hself : ¬ 0 < s.tree.compare data data := by
    rw [h.compare, order.self]
    omega
  obtain ⟨tree', hinsert, hcompare, hholds, hfirst'⟩ := h.holds.insert hfree hfirst hself hsorted
  generalize hplace : place (goesLeft s.tree.compare data) t .root = context at hholds hfirst'
  refine ⟨⟨tree', s.live ++ [(.node address, data)]⟩, _, ?_, ⟨hholds, hcompare.trans h.compare, ?_⟩, ?_, hfirst'⟩
  · simp only [exec, hinsert, bind, Option.bind_some, pure]
  · -- the new node is where a walk past the elements that are not greater stops
    have hnone : ∀ b ∈ before .root, goesLeft s.tree.compare data b = false := fun b hb => absurd hb List.not_mem_nil
    obtain ⟨hbefore, hafter⟩ := place_split hsorted hnone fun b hb => absurd hb List.not_mem_nil
    have hparts : inorder t = before context ++ after context := by
      have hplug := congrArg inorder (plug_place (goesLeft s.tree.compare data) t .root)
      rw [hplace, inorder_plug] at hplug
      simpa [plug] using hplug.symm
    rw [hplace] at hbefore hafter
    have hnew : (inorder (plug context (.node (address, data) .nil .nil))).map visit =
        (before context).map visit ++ (.node address, data) :: (after context).map visit := by
      rw [inorder_plug, List.append_assoc, List.map_append]
      rfl
    have hserved := h.served
    rw [hparts, List.map_append] at hserved
    have hstops : StopsAt (fun e : Iter × α => order.rank e.2)
        (fun e => decide (order.compare e.2 data ≤ 0)) (.node address, data)
        ((before context).map visit ++ (after context).map visit) := by
      refine ⟨fun a _ hle => decide_eq_true (order.rank_le_rank.mp hle), fun a _ hlt _ => ?_⟩
      have hlt : 0 < order.compare a.2 data := order.rank_lt_rank.mp hlt
      exact decide_eq_false (by omega)
    obtain ⟨htake, hdrop⟩ : ((before context).map visit ++ (after context).map visit).takeWhile
          (fun e => decide (order.compare e.2 data ≤ 0)) = (before context).map visit ∧
        ((before context).map visit ++ (after context).map visit).dropWhile
          (fun e => decide (order.compare e.2 data ≤ 0)) = (after context).map visit := by
      refine walk_split (fun a ha => ?_) fun a l hl => ?_
      · obtain ⟨b, hb, rfl⟩ := List.mem_map.mp ha
        have hfalse := hbefore b hb
        simp only [goesLeft, h.compare, decide_eq_false_iff_not, Int.not_lt] at hfalse
        exact decide_eq_true hfalse
      · obtain ⟨b, hb, rfl⟩ := List.mem_map.mp (hl ▸ List.mem_cons_self : a ∈ (after context).map visit)
        have htrue := hafter b hb
        simp only [goesLeft, h.compare, decide_eq_true_eq] at htrue
        exact decide_eq_false (Int.not_le.mpr htrue)
    have hinserted := hserved.insert hstops
    rw [htake, hdrop] at hinserted
    rw [hnew]
    exact hinserted
  · intro hnil
    have hlength := congrArg (fun t => (inorder t).length) hnil
    simp [inorder_plug] at hlength

/-- **A removal** takes the element out, frees its node, and leaves the first node. -/
theorem Stored.remove (h : Stored order s t) (hlive : ∃ data, (iter, data) ∈ s.live) :
    ∃ s' t', exec s (.remove iter) = some s' ∧ Stored order s' t' ∧
      (inorder t').map visit = ((inorder t).map visit).filter (fun a => a.1 ≠ iter) ∧
      s'.tree.firstNode = s.tree.firstNode ∧ iter ≠ bstEnd ∧ deref s'.tree iter = none := by
  obtain ⟨data, hmem⟩ := hlive
  obtain ⟨e, he, heq⟩ := List.mem_map.mp (h.perm.mem_iff.mpr hmem)
  obtain ⟨rfl, rfl⟩ := Prod.mk.inj heq
  obtain ⟨xs, ys, hsplit⟩ := List.append_of_mem he
  obtain ⟨context, l, r, hplug, hbefore, hafter⟩ := exists_context hsplit .root
  have hplug : t = plug context (.node e l r) := hplug
  obtain ⟨tree', hremove, hcompare, hfirst, hholds, hfree⟩ := (hplug ▸ h.holds).remove
  -- no other element has the address
  have happart : ∀ u ∈ xs ++ ys, Iter.node u.1 ≠ .node e.1 := fun u hu =>
    apart (hsplit ▸ h.holds.nodup) hu
  have hleft : (inorder (plug context (hang l r))).map visit =
      ((inorder t).map visit).filter (fun a => a.1 ≠ .node e.1) := by
    have hparts : inorder (plug context (hang l r)) = xs ++ ys := by
      rw [inorder_plug, inorder_hang, ← List.append_assoc, hbefore, List.append_assoc, hafter]
      simp [before, after]
    rw [hparts, hsplit, List.map_append, List.map_append, List.filter_append, List.map_cons,
      List.filter_cons_of_neg (by simp [visit])]
    have hkept : ∀ zs : List (Nat × α), (∀ u ∈ zs, u ∈ xs ++ ys) →
        (zs.map visit).filter (fun a => decide (a.1 ≠ .node e.1)) = zs.map visit := by
      intro zs hzs
      refine List.filter_eq_self.mpr fun a ha => ?_
      obtain ⟨u, hu, rfl⟩ := List.mem_map.mp ha
      exact decide_eq_true (happart u (hzs u hu))
    rw [hkept xs fun u hu => List.mem_append_left _ hu, hkept ys fun u hu => List.mem_append_right _ hu]
  refine ⟨⟨tree', s.live.filter fun a => a.1 ≠ .node e.1⟩, _, ?_, ⟨hholds, hcompare.trans h.compare, ?_⟩, hleft, hfirst,
    fun heq => Iter.noConfusion heq, hfree⟩
  · simp only [exec, hremove, bind, Option.bind_some, pure]
  · rw [hleft]
    exact h.served.filter _

/-! ## Runs -/

/-- The first node is right in a tree with elements, and in the empty tree it is nowhere in memory. -/
def Cached (order : Comparator α) (s : State α) : Prop :=
  ∃ t, Stored order s t ∧ (t = .nil → Stale s.tree) ∧ (t ≠ .nil → s.tree.firstNode = some (first (inorder t)))

theorem inorder_eq_nil_iff : inorder t = [] ↔ t = .nil := by
  cases t with
  | nil => exact ⟨fun _ => rfl, fun _ => rfl⟩
  | node e l r => exact ⟨fun hnil => by simp at hnil, fun hnil => by cases hnil⟩

theorem live_eq_nil_iff (h : Stored order s t) : s.live = [] ↔ t = .nil := by
  constructor
  · intro hempty
    exact inorder_eq_nil_iff.mp (List.map_eq_nil_iff.mp (List.perm_nil.mp (hempty ▸ h.perm)))
  · rintro rfl
    exact List.perm_nil.mp h.perm.symm

theorem Cached.enumerates (h : Cached order s) : Enumerates order s ↔ s.live ≠ [] := by
  obtain ⟨t, hstored, hempty, hfirst⟩ := h
  constructor
  · intro henumerates hnil
    exact (hempty ((live_eq_nil_iff hstored).mp hnil)).not_enumerates henumerates
  · intro hne
    exact hstored.enumerates (hfirst fun hnil => hne ((live_eq_nil_iff hstored).mpr hnil))

/-- **One call**: it returns, and the first node is right after it, or a freed one. -/
theorem Cached.step (h : Cached order s) {call : Call α} (henabled : Enabled s call) :
    ∃ s', exec s call = some s' ∧ (KeepsFirst order s call → Cached order s') ∧
      (¬ KeepsFirst order s call → Stale s'.tree) := by
  obtain ⟨t, hstored, hempty, hfirst⟩ := h
  cases call with
  | insert data address =>
      obtain ⟨s', t', hexec, hstored', hne, hfirst'⟩ := hstored.insert data hfirst henabled
      refine ⟨s', hexec, fun _ => ⟨t', hstored', fun hnil => absurd hnil hne, fun _ => hfirst'⟩, ?_⟩
      exact fun hno => absurd trivial hno
  | remove iter =>
      obtain ⟨s', t', hexec, hstored', hleft, hfirst', hend, hfree⟩ := hstored.remove henabled
      have hne : t ≠ .nil := by
        rintro rfl
        obtain ⟨data, hmem⟩ := henabled
        rw [(live_eq_nil_iff hstored).mpr rfl] at hmem
        cases hmem
      obtain ⟨a, as, hsplit⟩ : ∃ a as, inorder t = a :: as := List.exists_cons_of_ne_nil fun hnil =>
        hne (inorder_eq_nil_iff.mp hnil)
      have hfirst := hfirst hne
      have hserved := hstored.served
      have hlength : s.live.length = as.length + 1 := by
        rw [← hstored.perm.length_eq, hsplit, List.length_map, List.length_cons]
      rw [hsplit, first_cons] at hfirst
      rw [hsplit, List.map_cons] at hleft hserved
      have hisFirst : IsFirst order s.live iter ↔ iter = .node a.1 := isFirst_iff hserved
      refine ⟨s', hexec, ?_⟩
      by_cases hiter : iter = .node a.1
      · -- the first node is the one that is freed
        have hstale : Stale s'.tree := by
          intro iter' hcached
          rw [hfirst', hfirst, ← hiter] at hcached
          obtain rfl := Option.some.inj hcached
          exact ⟨hend, hfree⟩
        refine ⟨fun hkeeps => ⟨t', hstored', fun _ => hstale, fun hne' => absurd ?_ hne'⟩, fun _ => hstale⟩
        have hone : s.live.length = 1 := hkeeps.resolve_right (not_not.mpr (hisFirst.mpr hiter))
        have has : as = [] := List.eq_nil_of_length_eq_zero (by omega)
        rw [has, List.map_nil, List.filter_cons_of_neg (by simp [visit, hiter]), List.filter_nil] at hleft
        exact inorder_eq_nil_iff.mp (List.map_eq_nil_iff.mp hleft)
      · refine ⟨fun _ => ?_, fun hno => absurd (.inr fun hisfirst => hiter (hisFirst.mp hisfirst)) hno⟩
        rw [List.filter_cons_of_pos (by exact decide_eq_true (Ne.symm hiter))] at hleft
        obtain ⟨b, bs, hsplit', hb, -⟩ := List.map_eq_cons_iff.mp hleft
        have hab : b.1 = a.1 := Iter.node.inj (congrArg Prod.fst hb)
        refine ⟨t', hstored', fun hnil => ?_, fun _ => ?_⟩
        · rw [inorder_eq_nil_iff.mpr hnil] at hsplit'
          cases hsplit'
        · rw [hfirst', hfirst, hsplit', first_cons, hab]

theorem reachable_cached (h : (bstSystem order).Reachable (KeepsFirst order) s) : Cached order s := by
  refine System.invariant ?_ ?_ h
  · rintro s rfl
    refine ⟨.nil, ⟨⟨⟨rfl, trivial⟩, List.nodup_nil⟩, rfl, .nil⟩, fun _ iter hfirst => ?_, fun hne => absurd rfl hne⟩
    cases hfirst
  · rintro s call s' hcached hkeeps ⟨henabled, hexec⟩
    obtain ⟨s'', hexec', hkept, -⟩ := hcached.step henabled
    obtain rfl := Option.some.inj (hexec.symm.trans hexec')
    exact hkept hkeeps

/-- **The elements in order**, in every run in which the first of several elements is never removed:

    * a walk enumerates them, unless there are none;
    * the next call returns;
    * the next call leaves a tree that a walk enumerates, or leaves no elements, unless it removes the first of
      several. -/
theorem elements_in_order (h : (bstSystem order).Reachable (KeepsFirst order) s) :
    (Enumerates order s ↔ s.live ≠ []) ∧
    (∀ call, Enabled s call → (exec s call).isSome) ∧
    ∀ call s', (bstSystem order).step s call s' → s'.live ≠ [] → (Enumerates order s' ↔ KeepsFirst order s call) := by
  have hcached := reachable_cached h
  refine ⟨hcached.enumerates, fun call henabled => ?_, ?_⟩
  · obtain ⟨s', hexec, -⟩ := hcached.step henabled
    rw [hexec]
    rfl
  · rintro call s' ⟨henabled, hexec⟩ hne
    obtain ⟨s'', hexec', hkept, hlost⟩ := hcached.step henabled
    obtain rfl := Option.some.inj (hexec.symm.trans hexec')
    constructor
    · intro henumerates
      by_contra hno
      exact (hlost hno).not_enumerates henumerates
    · exact fun hkeeps => (hkept hkeeps).enumerates.mpr hne

/-- 5 is inserted into a new tree, and then 3. -/
theorem reachable_sample : ∃ s : State Int, (bstSystem .byDifference).Reachable (KeepsFirst .byDifference) s ∧
    s.live = [(.node 1, 5), (.node 2, 3)] ∧ bstBegin s.tree = some (.node 2) ∧
    (exec s (.remove (.node 2))).map (fun s => (s.live, bstBegin s.tree, (walk s.tree).isSome)) =
      some ([(.node 1, 5)], some (.node 2), false) := by
  have h₀ : (bstSystem .byDifference).Reachable (KeepsFirst .byDifference)
      ⟨bstCreate Comparator.byDifference.compare, []⟩ := .init rfl
  have h₁ := h₀.step (a := Call.insert 5 1) trivial ⟨rfl, rfl⟩
  have h₂ := h₁.step (a := Call.insert 3 2) trivial ⟨rfl, rfl⟩
  exact ⟨_, h₂, rfl, rfl, rfl⟩

/-- A walk enumerates 3 and 5. -/
theorem enumerates_sample : ∃ s : State Int, s.live = [(.node 1, 5), (.node 2, 3)] ∧
    Enumerates .byDifference s := by
  obtain ⟨s, h, hlive, -⟩ := reachable_sample
  obtain ⟨henumerates, -⟩ := elements_in_order h
  refine ⟨s, hlive, henumerates.mpr ?_⟩
  rw [hlive]
  exact List.cons_ne_nil _ _

/-- 5 and 3 are inserted, and 3 is removed: the first node is the one that was freed. -/
theorem walk_stale : ∃ s : State Int, (bstSystem .byDifference).Reachable System.Any s ∧
    s.live = [(.node 1, 5)] ∧ bstBegin s.tree = some (.node 2) ∧ ¬ Enumerates .byDifference s := by
  obtain ⟨s, h, hlive, -, hremove⟩ := reachable_sample
  obtain ⟨s', hexec, hs'⟩ := Option.map_eq_some_iff.mp hremove
  obtain ⟨hlive', hfirst, hwalk⟩ : s'.live = [(.node 1, 5)] ∧ bstBegin s'.tree = some (.node 2) ∧
      (walk s'.tree).isSome = false := by
    simpa only [Prod.mk.injEq] using hs'
  have henabled : Enabled s (.remove (.node 2)) := ⟨3, hlive ▸ by simp⟩
  refine ⟨s', (h.mono fun _ _ _ => trivial).step trivial ⟨henabled, hexec⟩, hlive', hfirst, ?_⟩
  rintro ⟨xs, hxs, -⟩
  rw [hxs] at hwalk
  cases hwalk

end Workbench.Bst
