import Workbench.Tree.BstWalk

/-!
# `Tree.BstChanges` — insertion and removal in memory

An insertion fills the hole to which the search leads. A removal leaves the two sons of the node, the left one hung in
front of the first node of the right one.

## Main results
* `Holds.insert` — the new node is in its place, and the first node may change;
* `Holds.remove` — the node is gone and freed, and the first node stays what it was.
-/

namespace Workbench.Bst

open SearchTree

variable {α : Type} {tree tree' : Tree α} {t l r : BinaryTree (Nat × α)} {context : Context (Nat × α)}
  {e el er u v : Nat × α} {xs ys : List (Nat × α)} {parent iter : Iter} {x : Nat} {node : Node α} {son : Option Iter}
  {M : Memory α}

/-! ## Assignments -/

/-- The tree with another node in memory. -/
def Tree.store (tree : Tree α) (iter : Iter) (node : Node α) : Tree α :=
  { tree with memory := Dict.put tree.memory iter node }

@[simp] theorem Tree.store_compare (tree : Tree α) (iter : Iter) (node : Node α) :
    (tree.store iter node).compare = tree.compare := rfl

@[simp] theorem Tree.store_firstNode (tree : Tree α) (iter : Iter) (node : Node α) :
    (tree.store iter node).firstNode = tree.firstNode := rfl

theorem assign_eq (h : lookup tree iter = some node) (f : Node α → Node α) :
    assign tree iter f = some (tree.store iter (f node)) := by
  have h : deref tree iter = some node := h
  simp only [assign, h, bind, Option.bind_some, pure]
  rfl

theorem lookup_store (tree : Tree α) (iter : Iter) (node : Node α) :
    lookup (tree.store iter node) = Function.update (lookup tree) iter (some node) := by
  funext i
  by_cases hi : i = iter
  · subst hi
    rw [Function.update_self]
    exact Dict.get?_put_self _ _ _
  · rw [Function.update_of_ne hi]
    exact Dict.get?_put_ne (Ne.symm hi) _ _

theorem lookup_free (tree : Tree α) (iter : Iter) :
    lookup (free tree iter) = Function.update (lookup tree) iter none := by
  funext i
  by_cases hi : i = iter
  · subst hi
    rw [Function.update_self]
    exact Dict.get?_erase_self _ _
  · rw [Function.update_of_ne hi]
    exact Dict.get?_erase_ne (Ne.symm hi) _

/-! ## Addresses -/

theorem apart_of_append (h : (addresses (xs ++ ys)).Nodup) (hu : u ∈ xs) (hv : v ∈ ys) :
    Iter.node u.1 ≠ .node v.1 := by
  unfold addresses at h
  rw [List.map_append] at h
  intro heq
  have hdisjoint := (List.nodup_append.mp h).2.2
  exact hdisjoint u.1 (List.mem_map_of_mem hu) v.1 (List.mem_map_of_mem hv) (Iter.node.inj heq)

theorem Holds.nodup_split (h : Holds tree (plug context t)) :
    (addresses (before context ++ after context ++ inorder t)).Nodup := by
  refine (List.Perm.nodup_iff (List.Perm.map _ ?_)).mp h.nodup_parts
  rw [List.append_assoc, List.append_assoc]
  exact List.Perm.append_left _ List.perm_append_comm

theorem ne_dummyRoot (e : Nat × α) : Iter.dummyRoot ≠ .node e.1 := fun h => Iter.noConfusion h

/-- A hole is around a node that is in memory. -/
theorem Around.holder_node (h : Around M context son) : ∃ node, M (holder context) = some node ∧
    (context = .root ∨ holder context ∈ (before context ++ after context).map fun e => Iter.node e.1) := by
  cases context with
  | root => exact ⟨_, h, .inl rfl⟩
  | left e r above => exact ⟨_, h.1, .inr (List.mem_map_of_mem (by simp [after]))⟩
  | right e l above => exact ⟨_, h.1, .inr (List.mem_map_of_mem (by simp [before]))⟩

/-- What is in the hole is not what has it. -/
theorem holder_ne (h : (addresses (before context ++ after context ++ xs)).Nodup) (hu : u ∈ xs) :
    Iter.node u.1 ≠ holder context := by
  cases context with
  | root => exact (ne_dummyRoot u).symm
  | left e r above => exact (apart_of_append h (by simp [after]) hu).symm
  | right e l above => exact (apart_of_append h (by simp [before]) hu).symm

/-! ## The hole gets another son -/

/-- Both ways to write the son ask whether the node is the son on one side, and it is the son in the hole. -/
theorem setSon_eq (h : Around (lookup tree) context (some (.node x))) (hx : deref tree (.node x) = some node)
    (hparent : node.parent = some (holder context)) (hnew : x ∉ addresses (before context ++ after context))
    (son : Option Iter) : ∃ parentNode, lookup tree (holder context) = some parentNode ∧
      setSonLeft tree (.node x) son = some (tree.store (holder context) (withSon context parentNode son)) ∧
      setSonRight tree (.node x) son = some (tree.store (holder context) (withSon context parentNode son)) := by
  have hroot : ∀ {s : BinaryTree (Nat × α)}, (∀ u ∈ inorder s, u ∈ before context ++ after context) →
      ¬ some (Iter.node x) = rootOf s := by
    intro s hs heq
    obtain ⟨u, hu, hux⟩ := rootOf_mem heq.symm
    exact hnew (List.mem_map.mpr ⟨u, hs u hu, (Iter.node.inj hux).symm⟩)
  cases context with
  | root =>
      have hdummy : lookup tree .dummyRoot = some ⟨none, none, some (.node x), none⟩ := h
      have hderef : deref tree .dummyRoot = _ := hdummy
      refine ⟨_, hdummy, ?_, ?_⟩
      · simp only [setSonLeft, hx, hparent, holder, hderef, bind, Option.bind_some, if_true, assign_eq hdummy]
        rfl
      · simp only [setSonRight, hx, hparent, holder, hderef, bind, Option.bind_some, reduceCtorEq, if_false,
          assign_eq hdummy]
        rfl
  | left e r above =>
      have hnode : lookup tree (.node e.1) = _ := h.1
      have hderef : deref tree (.node e.1) = _ := hnode
      have hright : ¬ some (Iter.node x) = rootOf r := hroot fun u hu => by simp [after, hu]
      refine ⟨_, hnode, ?_, ?_⟩
      · simp only [setSonLeft, hx, hparent, holder, hderef, bind, Option.bind_some, if_true, assign_eq hnode]
        rfl
      · simp only [setSonRight, hx, hparent, holder, hderef, bind, Option.bind_some, if_neg hright, assign_eq hnode]
        rfl
  | right e l above =>
      have hnode : lookup tree (.node e.1) = _ := h.1
      have hderef : deref tree (.node e.1) = _ := hnode
      have hleft : ¬ some (Iter.node x) = rootOf l := hroot fun u hu => by simp [before, hu]
      refine ⟨_, hnode, ?_, ?_⟩
      · simp only [setSonLeft, hx, hparent, holder, hderef, bind, Option.bind_some, if_neg hleft, assign_eq hnode]
        rfl
      · simp only [setSonRight, hx, hparent, holder, hderef, bind, Option.bind_some, if_true, assign_eq hnode]
        rfl

/-! ## Insertion -/

/-- Where `FindWhereToInsert` is, when the runner is at the hole. -/
def foundAt : Context (Nat × α) → Option Iter × Direction
  | .root => (none, .none)
  | .left e _ _ => (some (.node e.1), .left)
  | .right e _ _ => (some (.node e.1), .right)

theorem findLoop_eq {data : α} (context : Context (Nat × α)) (h : Rep (lookup tree) parent t) {turns : Nat}
    (hturns : (inorder t).length < turns) :
    findLoop tree data turns (rootOf t) (foundAt context).1 (foundAt context).2 =
      some (foundAt (place (fun e => decide (0 < tree.compare e.2 data)) t context)) := by
  induction t generalizing parent context turns with
  | nil =>
      cases turns with
      | zero => omega
      | succ turns => rfl
  | node e l r ihl ihr =>
      cases turns with
      | zero => omega
      | succ turns =>
          obtain ⟨hnode, hl, hr⟩ := h
          have hnode : deref tree (.node e.1) = _ := hnode
          simp only [inorder, keys_node, List.length_append, List.length_cons] at hturns
          simp only [rootOf, findLoop, hnode, bind, Option.bind_some, place, decide_eq_true_eq]
          by_cases hcmp : 0 < tree.compare e.2 data
          · rw [if_pos hcmp, if_pos hcmp]
            exact ihl (.left e r context) hl (by unfold inorder; omega)
          · rw [if_neg hcmp, if_neg hcmp]
            exact ihr (.right e l context) hr (by unfold inorder; omega)

/-- Without a node before the runner, the new node becomes the first one. -/
def newFirst : Context (Nat × α) → Iter → Option Iter → Option Iter
  | .root, new, _ => some new
  | _, _, old => old

theorem insertByDirection_eq (h : Around (lookup tree) context son) (hnew : lookup tree iter = some node)
    (hne : iter ≠ holder context) : ∃ parentNode, lookup tree (holder context) = some parentNode ∧
      insertByDirection tree (foundAt context).2 iter (foundAt context).1 =
        some { (tree.store (holder context) (withSon context parentNode (some iter))).store iter
            { node with parent := some (holder context) } with
          firstNode := newFirst context iter tree.firstNode } := by
  have hsecond : ∀ parentNode, lookup (tree.store (holder context) parentNode) iter = some node := by
    intro parentNode
    rw [lookup_store, Function.update_of_ne hne, hnew]
  cases context with
  | root =>
      refine ⟨_, h, ?_⟩
      have hdummy : lookup tree .dummyRoot = _ := h
      have hsecond : ∀ parentNode, lookup (tree.store .dummyRoot parentNode) iter = some node := hsecond
      simp only [insertByDirection, foundAt, assign_eq hdummy, bind, Option.bind_some, assign_eq (hsecond _), pure]
      rfl
  | left e r above =>
      refine ⟨_, h.1, ?_⟩
      have hsecond : ∀ parentNode, lookup (tree.store (.node e.1) parentNode) iter = some node := hsecond
      simp only [insertByDirection, foundAt, bind, Option.bind_some, assign_eq h.1, assign_eq (hsecond _)]
      rfl
  | right e l above =>
      refine ⟨_, h.1, ?_⟩
      have hsecond : ∀ parentNode, lookup (tree.store (.node e.1) parentNode) iter = some node := hsecond
      simp only [insertByDirection, foundAt, bind, Option.bind_some, assign_eq h.1, assign_eq (hsecond _)]
      rfl

/-- A free address is not one of the tree. -/
theorem Holds.ne_free (h : Holds tree t) (hfree : deref tree (.node x) = none) (hu : u ∈ inorder t) :
    Iter.node u.1 ≠ .node x := by
  intro heq
  have hsome := deref_isSome_of_mem h.shape.2 hu
  rw [heq, hfree] at hsome
  cases hsome

/-- A free address can be written to. -/
theorem Holds.store_free (h : Holds tree t) (hfree : deref tree (.node x) = none) (node : Node α) :
    Holds (tree.store (.node x) node) t := by
  refine ⟨⟨?_, ?_⟩, h.nodup⟩
  · rw [lookup_store]
    exact h.shape.1.update (fun h => Iter.noConfusion h) (fun u hu => absurd hu List.not_mem_nil) _
  · rw [lookup_store]
    exact h.shape.2.update (fun u hu => h.ne_free hfree hu) _

/-- **The hole is filled** with a new node. -/
theorem Holds.fill (h : Holds tree (plug context .nil)) (hfree : deref tree (.node x) = none) (data : α) :
    ∃ tree', insertByDirection (tree.store (.node x) ⟨some data, none, none, none⟩) (foundAt context).2 (.node x)
        (foundAt context).1 = some tree' ∧ tree'.compare = tree.compare ∧
      tree'.firstNode = newFirst context (.node x) tree.firstNode ∧
      Holds tree' (plug context (.node (x, data) .nil .nil)) := by
  have hstored := h.store_free hfree ⟨some data, none, none, none⟩
  obtain ⟨haround, -⟩ := shape_plug.mp hstored.shape
  have hnew : lookup (tree.store (.node x) ⟨some data, none, none, none⟩) (.node x) =
      some ⟨some data, none, none, none⟩ := by
    rw [lookup_store, Function.update_self]
  have hne : ∀ u ∈ before context ++ after context, Iter.node u.1 ≠ .node x := by
    intro u hu
    refine h.ne_free hfree ?_
    rw [inorder_plug]
    rcases List.mem_append.mp hu with hu | hu <;> simp [hu]
  have hholder : Iter.node x ≠ holder context := by
    obtain ⟨_, -, rfl | hmem⟩ := haround.holder_node
    · exact fun h => Iter.noConfusion h
    · obtain ⟨u, hu, heq⟩ := List.mem_map.mp hmem
      rw [← heq]
      exact (hne u hu).symm
  obtain ⟨parentNode, hparent, hinsert⟩ := insertByDirection_eq haround hnew hholder
  refine ⟨_, hinsert, rfl, rfl, ?_, ?_⟩
  · refine shape_plug.mpr ⟨?_, ?_⟩
    · -- the parent leads to the new node
      have hset := haround.setSon hstored.nodup_around hparent (some (.node x))
      rw [← lookup_store] at hset
      show Around (lookup (Tree.store _ _ _)) context _
      rw [lookup_store]
      exact hset.update (fun h => Iter.noConfusion h) hne _
    · show Rep (lookup (Tree.store _ _ _)) (holder context) _
      rw [lookup_store]
      exact ⟨Function.update_self _ _ _, trivial, trivial⟩
  · rw [inorder_plug]
    have hnodup := h.nodup_around
    have hnil : inorder (.node (x, data) .nil .nil) = [(x, data)] := rfl
    rw [hnil]
    unfold addresses at hnodup ⊢
    rw [List.append_assoc, List.singleton_append, List.map_append, List.map_cons, List.nodup_middle, List.nodup_cons,
      ← List.map_append]
    refine ⟨fun hmem => ?_, hnodup⟩
    obtain ⟨u, hu, heq⟩ := List.mem_map.mp hmem
    exact hne u hu (congrArg Iter.node heq)

/-- `BSTInsert` goes left at the nodes that compare greater. -/
def goesLeft (compare : α → α → Int) (data : α) (e : Nat × α) : Bool := decide (0 < compare e.2 data)

theorem Holds.findWhereToInsert {data : α} (h : Holds tree t) :
    findWhereToInsert tree data = some (foundAt (place (goesLeft tree.compare data) t .root)) := by
  have hdummy : deref tree .dummyRoot = _ := h.shape.1
  unfold Bst.findWhereToInsert
  rw [hdummy]
  exact findLoop_eq .root h.shape.2 h.length_lt

theorem place_eq_root {goesLeft : Nat × α → Bool} {context : Context (Nat × α)} (h : place goesLeft t context = .root) :
    t = .nil := by
  cases t with
  | nil => rfl
  | node e l r =>
      -- the way down ends below the node
      have hsize := congrArg (fun c => (inorder (plug c .nil)).length) h
      simp only [plug_place, inorder_plug, plug, inorder, keys_node, keys_nil, List.length_append, List.length_cons,
        List.length_nil] at hsize
      omega

/-- The first node after an insertion: the new one, if the walk goes left at the first node. -/
theorem first_place (new : Nat × α) {goesLeft : Nat × α → Bool}
    (hsorted : (inorder t).Pairwise fun a b => goesLeft a = true → goesLeft b = true)
    (hsplit : inorder t = e :: ys) :
    first (inorder (plug (place goesLeft t .root) (.node new .nil .nil))) =
      if goesLeft e = true then .node new.1 else .node e.1 := by
  have hnone : ∀ b ∈ before .root, goesLeft b = false := fun b hb => absurd hb List.not_mem_nil
  obtain ⟨hbefore, hafter⟩ := place_split hsorted hnone fun b hb => absurd hb List.not_mem_nil
  have hparts : before (place goesLeft t .root) ++ after (place goesLeft t .root) = e :: ys := by
    have hplug := congrArg inorder (plug_place goesLeft t .root)
    rw [inorder_plug] at hplug
    simpa [plug, hsplit] using hplug
  have hnew : inorder (plug (place goesLeft t .root) (.node new .nil .nil)) =
      before (place goesLeft t .root) ++ new :: after (place goesLeft t .root) := by
    rw [inorder_plug, List.append_assoc]
    rfl
  rw [hnew]
  cases hfront : before (place goesLeft t .root) with
  | nil =>
      rw [hfront, List.nil_append] at hparts
      rw [if_pos (hafter e (hparts ▸ List.mem_cons_self))]
      rfl
  | cons b bs =>
      rw [hfront, List.cons_append] at hparts
      obtain ⟨rfl, -⟩ := List.cons.inj hparts
      have hfalse := hbefore b (hfront ▸ List.mem_cons_self)
      rw [if_neg (by rw [hfalse]; exact Bool.false_ne_true)]
      rfl

/-- **An insertion** puts the new node into its place, and keeps the first node. -/
theorem Holds.insert {data : α} (h : Holds tree t) (hfree : deref tree (.node x) = none)
    (hfirst : t ≠ .nil → tree.firstNode = some (first (inorder t))) (hself : ¬ 0 < tree.compare data data)
    (hsorted : (inorder t).Pairwise fun a b =>
      goesLeft tree.compare data a = true → goesLeft tree.compare data b = true) :
    ∃ tree', bstInsert tree data (some x) = some (tree', .node x) ∧ tree'.compare = tree.compare ∧
      Holds tree' (plug (place (goesLeft tree.compare data) t .root) (.node (x, data) .nil .nil)) ∧
      tree'.firstNode =
        some (first (inorder (plug (place (goesLeft tree.compare data) t .root) (.node (x, data) .nil .nil)))) := by
  have hplug : plug (place (goesLeft tree.compare data) t .root) .nil = t := plug_place _ _ _
  have hstored := h.store_free hfree ⟨some data, none, none, none⟩
  have hfind : Bst.findWhereToInsert (tree.store (.node x) ⟨some data, none, none, none⟩) data = _ :=
    hstored.findWhereToInsert
  have hhole : Holds tree (plug (place (goesLeft tree.compare data) t .root) .nil) := hplug.symm ▸ h
  obtain ⟨filled, hinsert, hcompare, hfilledFirst, hfilled⟩ := hhole.fill hfree data
  have hrun : bstInsert tree data (some x) =
      (updateBeginByData filled data (.node x)).map fun tree => (tree, .node x) := by
    have hstore : ({ tree with memory := Dict.put tree.memory (.node x) ⟨some data, none, none, none⟩ } : Tree α) =
        tree.store (.node x) ⟨some data, none, none, none⟩ := rfl
    simp only [bstInsert, hstore, hfind, bind, Option.bind_some, Tree.store_compare, hinsert]
    rw [Option.map_eq_bind]
    rfl
  cases t with
  | nil =>
      have hfirstNode : filled.firstNode = some (.node x) := hfilledFirst
      have hone : inorder (plug (place (goesLeft tree.compare data) .nil .root) (.node (x, data) .nil .nil)) =
          [] ++ (x, data) :: [] := rfl
      obtain ⟨-, hdata⟩ := hfilled.next_of_split hone
      have hupdate : updateBeginByData filled data (.node x) = some filled := by
        simp only [updateBeginByData, hfirstNode, hdata, bind, Option.bind_some, pure, hcompare, if_neg hself]
      refine ⟨filled, ?_, hcompare, hfilled, hfirstNode⟩
      rw [hrun, hupdate]
      rfl
  | node e₀ l₀ r₀ =>
      obtain ⟨e, ys, hsplit⟩ : ∃ e ys, inorder (.node e₀ l₀ r₀) = e :: ys :=
        List.exists_cons_of_ne_nil (by simp)
      have hroot : place (goesLeft tree.compare data) (.node e₀ l₀ r₀) .root ≠ .root := fun heq =>
        node_ne_nil _ _ _ (place_eq_root heq)
      have hfirstNode : filled.firstNode = some (.node e.1) := by
        rw [hfilledFirst, ← first_cons e ys, ← hsplit, ← hfirst (node_ne_nil _ _ _)]
        cases hplace : place (goesLeft tree.compare data) (.node e₀ l₀ r₀) .root with
        | root => exact absurd hplace hroot
        | left _ _ _ => rfl
        | right _ _ _ => rfl
      -- the first node is still in memory
      have hmem : e ∈ inorder (plug (place (goesLeft tree.compare data) (.node e₀ l₀ r₀) .root)
          (.node (x, data) .nil .nil)) := by
        have hold := congrArg inorder hplug
        rw [inorder_plug, hsplit] at hold
        have he : e ∈ before _ ++ inorder .nil ++ after _ := hold.symm ▸ List.mem_cons_self
        rw [inorder_plug]
        simp only [inorder, keys_nil, List.append_nil, List.mem_append] at he
        rcases he with he | he <;> simp [he]
      obtain ⟨xs, zs, hxs⟩ := List.append_of_mem hmem
      obtain ⟨-, hdata⟩ := hfilled.next_of_split hxs
      have hplace := first_place (x, data) hsorted hsplit
      by_cases hcmp : 0 < tree.compare e.2 data
      · have hupdate : updateBeginByData filled data (.node x) = some { filled with firstNode := some (.node x) } := by
          simp only [updateBeginByData, hfirstNode, hdata, bind, Option.bind_some, pure, hcompare, if_pos hcmp]
        refine ⟨{ filled with firstNode := some (.node x) }, ?_, hcompare, ⟨hfilled.shape, hfilled.nodup⟩, ?_⟩
        · rw [hrun, hupdate]
          rfl
        · have hleft : goesLeft tree.compare data e = true := decide_eq_true hcmp
          rw [hplace, if_pos hleft]
      · have hupdate : updateBeginByData filled data (.node x) = some filled := by
          simp only [updateBeginByData, hfirstNode, hdata, bind, Option.bind_some, pure, hcompare, if_neg hcmp]
        refine ⟨filled, ?_, hcompare, hfilled, ?_⟩
        · rw [hrun, hupdate]
          rfl
        · rw [hplace, if_neg (by simpa [goesLeft] using hcmp), hfirstNode]

/-! ## Removal -/

/-- What a removal leaves is in the nodes without the one that is removed. -/
theorem Holds.nodup_without (h : Holds tree (plug context (.node e l r))) :
    (addresses (inorder (plug context (hang l r)))).Nodup := by
  have hnodup := h.nodup_parts
  rw [inorder_plug, inorder_hang]
  refine hnodup.sublist (List.Sublist.map _ ?_)
  refine ((List.Sublist.refl _).append ?_).append (List.Sublist.refl _)
  rw [inorder, inorder, inorder, keys_node]
  exact (List.Sublist.refl _).append (List.sublist_cons_self _ _)

/-- **The node is unlinked**: a son is in its place already, with the right parent, and only the pointer to it and the
    node itself are left. -/
theorem unlink_shape (h : Around (lookup tree) context (some (.node x))) (hrep : Rep (lookup tree) (holder context) t)
    (hnodup : (addresses (before context ++ after context)).Nodup)
    (happart : (addresses (before context ++ after context ++ inorder t)).Nodup)
    (hx : x ∉ addresses (before context ++ after context ++ inorder t)) {parentNode : Node α}
    (hparent : lookup tree (holder context) = some parentNode) :
    Shape (lookup (free (tree.store (holder context) (withSon context parentNode (rootOf t))) (.node x)))
      (plug context t) ∧
      deref (free (tree.store (holder context) (withSon context parentNode (rootOf t))) (.node x)) (.node x) =
        none := by
  have hne : ∀ u ∈ before context ++ after context ++ inorder t, Iter.node u.1 ≠ .node x := by
    intro u hu heq
    exact hx (List.mem_map.mpr ⟨u, hu, Iter.node.inj heq⟩)
  rw [shape_plug, lookup_free, lookup_store]
  refine ⟨⟨?_, ?_⟩, Dict.get?_erase_self _ _⟩
  · refine (h.setSon hnodup hparent (rootOf t)).update (fun h => Iter.noConfusion h) (fun u hu => ?_) _
    exact hne u (List.mem_append_left _ hu)
  · refine (hrep.update (fun u hu => holder_ne happart hu) _).update (fun u hu => ?_) _
    exact hne u (List.mem_append_right _ hu)

/-- **The left son is hung** below the first node of the right one. -/
theorem Rep.hang {left right : BinaryTree (Nat × α)} {son : Iter} {f : Nat × α} {nf nl : Node α}
    (hright : Rep M parent right) (hfirst : inorder right = f :: ys) (hleft : Rep M son (.node el l r))
    (heq : left = .node el l r) (hnodup : (addresses (inorder left ++ inorder right)).Nodup)
    (hf : M (.node f.1) = some nf) (hl : M (.node el.1) = some nl) :
    Rep (Function.update (Function.update M (.node f.1) (some { nf with left := some (.node el.1) })) (.node el.1)
      (some { nl with parent := some (.node f.1) })) parent (SearchTree.hang left right) := by
  subst heq
  have hel : el ∈ inorder (.node el l r) := by simp
  induction right generalizing parent ys with
  | nil => cases hfirst
  | node e rl rr ihl ihr =>
      obtain ⟨hnode, hrl, hrr⟩ := hright
      have happart : ∀ u ∈ inorder (.node e rl rr), Iter.node u.1 ≠ .node el.1 := fun u hu =>
        (apart_of_append hnodup hel hu).symm
      have hnodup' : (addresses (inorder rl ++ e :: inorder rr)).Nodup :=
        hnodup.sublist (List.Sublist.map _ (List.sublist_append_right _ _))
      have hfmem : f ∈ inorder (.node e rl rr) := hfirst ▸ List.mem_cons_self
      have hrr' : ∀ u ∈ inorder rr, u ∈ inorder (.node e rl rr) := fun u hu => by simp [hu]
      cases rl with
      | nil =>
          -- the node is the first one
          have hfirst : e :: inorder rr = f :: ys := hfirst
          obtain ⟨rfl, -⟩ := List.cons.inj hfirst
          obtain rfl := Option.some.inj (hf.symm.trans hnode)
          have hnodup' : (addresses ([] ++ e :: inorder rr)).Nodup := hnodup'
          have hne : Iter.node el.1 ≠ .node e.1 := (happart e hfmem).symm
          refine ⟨?_, ?_, ?_⟩
          · rw [Function.update_of_ne hne.symm, Function.update_self]
            rfl
          · have hstays := hleft.update (fun u hu => apart_of_append hnodup hu hfmem)
              (some ⟨some e.2, some parent, some (.node el.1), rootOf rr⟩)
            refine hstays.setParent (hnodup.sublist (List.Sublist.map _ (List.sublist_append_left _ _))) ?_ _
            rw [Function.update_of_ne hne, hl]
          · refine (hrr.update (fun u hu => ?_) _).update (fun u hu => happart u (hrr' u hu)) _
            exact apart hnodup' hu
      | node e' rl' rr' =>
          have hfl : ∃ zs, inorder (.node e' rl' rr') = f :: zs := by
            obtain ⟨g, zs, hg⟩ : ∃ g zs, inorder (.node e' rl' rr') = g :: zs :=
              List.exists_cons_of_ne_nil (by simp)
            have hall : inorder (.node e (.node e' rl' rr') rr) = inorder (.node e' rl' rr') ++ e :: inorder rr :=
              keys_node id e _ _
            rw [hall, hg, List.cons_append] at hfirst
            exact ⟨zs, (List.cons.inj hfirst).1 ▸ hg⟩
          obtain ⟨zs, hzs⟩ := hfl
          have hfrl : f ∈ inorder (.node e' rl' rr') := hzs ▸ List.mem_cons_self
          have hef : Iter.node e.1 ≠ .node f.1 := (apart hnodup' (List.mem_append_left _ hfrl)).symm
          refine ⟨?_, ihl hrl hzs ?_, ?_⟩
          · rw [Function.update_of_ne (happart e (by simp)), Function.update_of_ne hef, hnode]
            rfl
          · refine hnodup.sublist (List.Sublist.map _ ((List.Sublist.refl _).append ?_))
            exact List.sublist_append_left _ _
          · refine (hrr.update (fun u hu => ?_) _).update (fun u hu => happart u (hrr' u hu)) _
            have hsplit : (addresses (inorder (.node e' rl' rr') ++ inorder rr)).Nodup :=
              hnodup'.sublist (List.Sublist.map _ ((List.Sublist.refl _).append (List.sublist_cons_self _ _)))
            exact (apart_of_append hsplit hfrl hu).symm

/-- What is apart from what, when a node is removed. -/
structure Apart (context : Context (Nat × α)) (e : Nat × α) (l r : BinaryTree (Nat × α)) : Prop where
  around : (addresses (before context ++ after context)).Nodup
  around_left : (addresses (before context ++ after context ++ inorder l)).Nodup
  around_right : (addresses (before context ++ after context ++ inorder r)).Nodup
  around_node : ∀ u ∈ before context ++ after context, Iter.node u.1 ≠ .node e.1
  sons : (addresses (inorder l ++ inorder r)).Nodup
  left_node : ∀ u ∈ inorder l, Iter.node u.1 ≠ .node e.1
  right_node : ∀ u ∈ inorder r, Iter.node u.1 ≠ .node e.1

theorem Holds.apart (h : Holds tree (plug context (.node e l r))) : Apart context e l r := by
  have hsplit := h.nodup_split
  rw [inorder, keys_node] at hsplit
  have hsons : (addresses (inorder l ++ e :: inorder r)).Nodup :=
    hsplit.sublist (List.Sublist.map _ (List.sublist_append_right _ _))
  refine ⟨h.nodup_around, ?_, ?_, fun u hu => ?_, ?_, fun u hu => ?_, fun u hu => ?_⟩
  · refine hsplit.sublist (List.Sublist.map _ ((List.Sublist.refl _).append ?_))
    exact List.sublist_append_left _ _
  · refine hsplit.sublist (List.Sublist.map _ ((List.Sublist.refl _).append ?_))
    exact (List.sublist_cons_self _ _).trans (List.sublist_append_right _ _)
  · exact apart_of_append hsplit hu (List.mem_append_right _ List.mem_cons_self)
  · exact hsons.sublist (List.Sublist.map _ ((List.Sublist.refl _).append (List.sublist_cons_self _ _)))
  · exact Bst.apart hsons (List.mem_append_left _ hu)
  · exact Bst.apart hsons (List.mem_append_right _ hu)

/-- The address of the node is free in what is left. -/
theorem Apart.not_mem (h : Apart context e l r) (hmem : ∀ u ∈ inorder t, u ∈ inorder l ∨ u ∈ inorder r) :
    e.1 ∉ addresses (before context ++ after context ++ inorder t) := by
  intro hin
  obtain ⟨u, hu, heq⟩ := List.mem_map.mp hin
  rcases List.mem_append.mp hu with hu | hu
  · exact h.around_node u hu (congrArg Iter.node heq)
  · rcases hmem u hu with hu | hu
    · exact h.left_node u hu (congrArg Iter.node heq)
    · exact h.right_node u hu (congrArg Iter.node heq)

/-- A node with one son, the root of which has the parent of the node already, or with none. -/
theorem Apart.unlink (happart : Apart context e l r) (h : Around (lookup tree) context (some (.node e.1)))
    (hnode : deref tree (.node e.1) = some node) (hparent : node.parent = some (holder context))
    (hrep : Rep (lookup tree) (holder context) t) (hmem : ∀ u ∈ inorder t, u ∈ inorder l ∨ u ∈ inorder r)
    (hnodup : (addresses (before context ++ after context ++ inorder t)).Nodup) :
    ∃ tree', (setSonLeft tree (.node e.1) (rootOf t) = some tree' ∧
        setSonRight tree (.node e.1) (rootOf t) = some tree') ∧
      tree'.compare = tree.compare ∧ tree'.firstNode = tree.firstNode ∧
      Shape (lookup (free tree' (.node e.1))) (plug context t) ∧ deref (free tree' (.node e.1)) (.node e.1) = none := by
  have hnot := happart.not_mem hmem
  have hnot' : e.1 ∉ addresses (before context ++ after context) := by
    intro hin
    obtain ⟨u, hu, heq⟩ := List.mem_map.mp hin
    exact happart.around_node u hu (congrArg Iter.node heq)
  obtain ⟨parentNode, hparentNode, hleft, hright⟩ := setSon_eq h hnode hparent hnot' (rootOf t)
  obtain ⟨hshape, hfree⟩ := unlink_shape h hrep happart.around hnodup hnot hparentNode
  exact ⟨_, ⟨hleft, hright⟩, rfl, rfl, hshape, hfree⟩

/-- The parent of a son becomes the parent of the node. -/
theorem Apart.reparent (happart : Apart context e l r) (h : Around (lookup tree) context (some (.node e.1)))
    {s sl sr : BinaryTree (Nat × α)} {es : Nat × α} (hs : s = .node es sl sr) (hrep : Rep (lookup tree) parent s)
    (hmem : ∀ u ∈ inorder s, u ∈ inorder l ∨ u ∈ inorder r) (hnodup : (addresses (inorder s)).Nodup)
    (hnode : deref tree (.node e.1) = some node) :
    ∃ tree', assign tree (.node es.1) (fun son => { son with parent := some (holder context) }) = some tree' ∧
      tree'.compare = tree.compare ∧ tree'.firstNode = tree.firstNode ∧
      Around (lookup tree') context (some (.node e.1)) ∧ Rep (lookup tree') (holder context) s ∧
      deref tree' (.node e.1) = some node := by
  subst hs
  have hes : es ∈ inorder (.node es sl sr) := by simp
  have hnot := happart.not_mem hmem
  obtain ⟨ns, hns⟩ : ∃ ns, lookup tree (.node es.1) = some ns := ⟨_, hrep.1⟩
  refine ⟨_, assign_eq hns _, rfl, rfl, ?_, ?_, ?_⟩
  · rw [lookup_store]
    refine h.update (fun h => Iter.noConfusion h) (fun u hu => ?_) _
    rcases hmem es hes with hin | hin
    · exact apart_of_append happart.around_left hu hin
    · exact apart_of_append happart.around_right hu hin
  · rw [lookup_store]
    exact hrep.setParent hnodup hns _
  · have hne : Iter.node e.1 ≠ .node es.1 := by
      intro heq
      exact hnot (List.mem_map.mpr ⟨es, List.mem_append_right _ hes, (Iter.node.inj heq).symm⟩)
    have hkept := congrFun (lookup_store tree (.node es.1) { ns with parent := some (holder context) }) (.node e.1)
    rw [Function.update_of_ne hne] at hkept
    exact hkept.trans hnode

@[simp] theorem hang_nil (l : BinaryTree (Nat × α)) : SearchTree.hang l .nil = l := rfl

@[simp] theorem nil_hang (r : BinaryTree (Nat × α)) : SearchTree.hang .nil r = r := by
  induction r with
  | nil => rfl
  | node e rl rr ih => rw [SearchTree.hang, ih]

/-- What a removal does: the two sons take the place of the node, which is freed. -/
def Removes (tree : Tree α) (context : Context (Nat × α)) (e : Nat × α) (l r : BinaryTree (Nat × α))
    (result : Option (Tree α)) : Prop :=
  ∃ tree', result = some tree' ∧ tree'.compare = tree.compare ∧ tree'.firstNode = tree.firstNode ∧
    Shape (lookup tree') (plug context (SearchTree.hang l r)) ∧ deref tree' (.node e.1) = none

theorem Holds.removeWithNoSons (h : Holds tree (plug context (.node e .nil .nil))) :
    Removes tree context e .nil .nil (removeWithNoSons tree (.node e.1)) := by
  obtain ⟨haround, hnode, -, -⟩ := h.focus
  obtain ⟨tree', ⟨hset, -⟩, hcompare, hfirst, hshape, hfree⟩ :=
    h.apart.unlink (t := .nil) haround hnode rfl trivial (fun u hu => .inl hu) h.apart.around_left
  have hset : setSonLeft tree (.node e.1) none = some tree' := hset
  refine ⟨free tree' (.node e.1), ?_, hcompare, hfirst, hshape, hfree⟩
  simp only [Bst.removeWithNoSons, hset, bind, Option.bind_some, pure]

theorem Holds.removeWithLeftSon {ll lr : BinaryTree (Nat × α)}
    (h : Holds tree (plug context (.node e (.node el ll lr) .nil))) :
    Removes tree context e (.node el ll lr) .nil (removeWithLeftSon tree (.node e.1)) := by
  obtain ⟨haround, hnode, hl, -⟩ := h.focus
  have hnodup : (addresses (inorder (.node el ll lr))).Nodup :=
    h.apart.sons.sublist (List.Sublist.map _ (List.sublist_append_left _ _))
  obtain ⟨tree₁, hassign, hcompare₁, hfirst₁, haround₁, hrep₁, hnode₁⟩ :=
    h.apart.reparent haround rfl hl (fun u hu => .inl hu) hnodup hnode
  obtain ⟨tree₂, ⟨hset, -⟩, hcompare₂, hfirst₂, hshape, hfree⟩ :=
    h.apart.unlink haround₁ hnode₁ rfl hrep₁ (fun u hu => .inl hu) h.apart.around_left
  have hset : setSonLeft tree₁ (.node e.1) (some (.node el.1)) = some tree₂ := hset
  refine ⟨free tree₂ (.node e.1), ?_, hcompare₂.trans hcompare₁, hfirst₂.trans hfirst₁, hshape, hfree⟩
  simp only [Bst.removeWithLeftSon, hnode, rootOf, bind, Option.bind_some, hassign, hset, pure]

theorem Holds.removeWithRightSon {rl rr : BinaryTree (Nat × α)}
    (h : Holds tree (plug context (.node e .nil (.node er rl rr)))) :
    Removes tree context e .nil (.node er rl rr) (removeWithRightSon tree (.node e.1)) := by
  obtain ⟨haround, hnode, -, hr⟩ := h.focus
  have hnodup : (addresses (inorder (.node er rl rr))).Nodup :=
    h.apart.sons.sublist (List.Sublist.map _ (List.sublist_append_right _ _))
  obtain ⟨tree₁, hassign, hcompare₁, hfirst₁, haround₁, hrep₁, hnode₁⟩ :=
    h.apart.reparent haround rfl hr (fun u hu => .inr hu) hnodup hnode
  obtain ⟨tree₂, ⟨-, hset⟩, hcompare₂, hfirst₂, hshape, hfree⟩ :=
    h.apart.unlink haround₁ hnode₁ rfl hrep₁ (fun u hu => .inr hu) h.apart.around_right
  have hset : setSonRight tree₁ (.node e.1) (some (.node er.1)) = some tree₂ := hset
  refine ⟨free tree₂ (.node e.1), ?_, hcompare₂.trans hcompare₁, hfirst₂.trans hfirst₁, ?_, hfree⟩
  · simp only [Bst.removeWithRightSon, hnode, rootOf, bind, Option.bind_some, hassign, hset, pure]
  · rw [nil_hang]
    exact hshape

/-- **With two sons** the left one is hung below the next node before the right one takes the place of the node. -/
theorem Holds.removeWithTwoSons {ll lr rl rr : BinaryTree (Nat × α)}
    (h : Holds tree (plug context (.node e (.node el ll lr) (.node er rl rr)))) :
    Removes tree context e (.node el ll lr) (.node er rl rr) (removeWithTwoSons tree (.node e.1)) := by
  have hnext := h.next
  have happart := h.apart
  obtain ⟨haround, hnode, hl, hr⟩ := h.focus
  obtain ⟨f, zs, hsplit⟩ : ∃ f zs, inorder (.node er rl rr) = f :: zs := List.exists_cons_of_ne_nil (by simp)
  rw [first_append _ _ (by simp), hsplit, first_cons] at hnext
  have hf : f ∈ inorder (.node er rl rr) := hsplit ▸ List.mem_cons_self
  have hel : el ∈ inorder (.node el ll lr) := by simp
  -- the next node gets the left son
  obtain ⟨nf, hnf⟩ : ∃ nf, lookup tree (.node f.1) = some nf := Option.isSome_iff_exists.mp (deref_isSome_of_mem hr hf)
  have hassign₁ := assign_eq hnf fun next => { next with left := some (.node el.1) }
  generalize htree₁ : tree.store (.node f.1) { nf with left := some (.node el.1) } = tree₁ at hassign₁
  have hlookup₁ : lookup tree₁ = _ := htree₁ ▸ lookup_store _ _ _
  -- the left son gets the next node for its parent
  have hne₁ : Iter.node el.1 ≠ .node f.1 := apart_of_append happart.sons hel hf
  obtain ⟨nl, hnl⟩ : ∃ nl, lookup tree (.node el.1) = some nl := ⟨_, hl.1⟩
  have hnl₁ : lookup tree₁ (.node el.1) = some nl := by rw [hlookup₁, Function.update_of_ne hne₁, hnl]
  have hassign₂ := assign_eq hnl₁ fun son => { son with parent := some (.node f.1) }
  generalize htree₂ : tree₁.store (.node el.1) { nl with parent := some (.node f.1) } = tree₂ at hassign₂
  have hlookup₂ : lookup tree₂ = Function.update (lookup tree₁) _ _ := htree₂ ▸ lookup_store _ _ _
  have hhung := hr.hang hsplit hl rfl happart.sons hnf hnl
  rw [← hlookup₁, ← hlookup₂] at hhung
  have hnode₂ : lookup tree₂ (.node e.1) =
      some ⟨some e.2, some (holder context), some (.node el.1), some (.node er.1)⟩ := by
    rw [hlookup₂, Function.update_of_ne (happart.left_node el hel).symm, hlookup₁,
      Function.update_of_ne (happart.right_node f hf).symm]
    exact hnode
  have haround₂ : Around (lookup tree₂) context (some (.node e.1)) := by
    rw [hlookup₂, hlookup₁]
    refine (haround.update (ne_dummyRoot f) (fun u hu => ?_) _).update (ne_dummyRoot el) (fun u hu => ?_) _
    · exact apart_of_append happart.around_right hu hf
    · exact apart_of_append happart.around_left hu hel
  -- the node gives its left son away
  have hassign₃ := assign_eq hnode₂ fun node => { node with left := none }
  generalize htree₃ : tree₂.store (.node e.1) _ = tree₃ at hassign₃
  have hlookup₃ : lookup tree₃ = Function.update (lookup tree₂) _ _ := htree₃ ▸ lookup_store _ _ _
  have hnode₃ : deref tree₃ (.node e.1) = some ⟨some e.2, some (holder context), none, some (.node er.1)⟩ := by
    refine (congrFun hlookup₃ _).trans ?_
    rw [Function.update_self]
  have haround₃ : Around (lookup tree₃) context (some (.node e.1)) := by
    rw [hlookup₃]
    exact haround₂.update (ne_dummyRoot e) happart.around_node _
  have hmem : ∀ u ∈ inorder (SearchTree.hang (.node el ll lr) (.node er rl rr)),
      u ∈ inorder (.node el ll lr) ∨ u ∈ inorder (.node er rl rr) := by
    intro u hu
    rw [inorder_hang] at hu
    exact List.mem_append.mp hu
  have hhung₃ : Rep (lookup tree₃) (.node e.1) (SearchTree.hang (.node el ll lr) (.node er rl rr)) := by
    rw [hlookup₃]
    refine hhung.update (fun u hu => ?_) _
    rcases hmem u hu with hu | hu
    · exact happart.left_node u hu
    · exact happart.right_node u hu
  -- what is left is the removal of a node with a right son
  obtain ⟨tree₄, hassign₄, hcompare₄, hfirst₄, haround₄, hrep₄, hnode₄⟩ :=
    happart.reparent haround₃ (s := SearchTree.hang (.node el ll lr) (.node er rl rr)) rfl hhung₃ hmem
      (by rw [inorder_hang]; exact happart.sons) hnode₃
  have hwithout : (addresses (before context ++ after context ++
      inorder (SearchTree.hang (.node el ll lr) (.node er rl rr)))).Nodup := by
    refine (List.Perm.nodup_iff (List.Perm.map _ ?_)).mp h.nodup_without
    rw [inorder_plug, List.append_assoc, List.append_assoc]
    exact List.Perm.append_left _ List.perm_append_comm
  obtain ⟨tree₅, ⟨-, hset⟩, hcompare₅, hfirst₅, hshape, hfree⟩ :=
    happart.unlink haround₄ hnode₄ rfl hrep₄ hmem hwithout
  have hset : setSonRight tree₄ (.node e.1) (some (.node er.1)) = some tree₅ := hset
  have hnode₂ : deref tree₂ (.node e.1) = _ := hnode₂
  refine ⟨free tree₅ (.node e.1), ?_, ?_, ?_, hshape, hfree⟩
  · simp only [Bst.removeWithTwoSons, hnext, hnode, rootOf, bind, Option.bind_some, hassign₁, hassign₂, hassign₃,
      hnode₃, hassign₄, hset, pure]
  · refine (hcompare₅.trans hcompare₄).trans ?_
    rw [← htree₃, ← htree₂, ← htree₁]
    rfl
  · refine (hfirst₅.trans hfirst₄).trans ?_
    rw [← htree₃, ← htree₂, ← htree₁]
    rfl

/-- **A removal** leaves the two sons of the node, and frees it. The first node stays what it was. -/
theorem Holds.remove (h : Holds tree (plug context (.node e l r))) :
    ∃ tree', bstRemove tree (.node e.1) = some (tree', e.2) ∧ tree'.compare = tree.compare ∧
      tree'.firstNode = tree.firstNode ∧ Holds tree' (plug context (SearchTree.hang l r)) ∧
      deref tree' (.node e.1) = none := by
  have hparts : ∀ {result}, Removes tree context e l r result →
      ∃ tree', (result.bind fun tree => some (tree, e.2)) = some (tree', e.2) ∧ tree'.compare = tree.compare ∧
        tree'.firstNode = tree.firstNode ∧ Holds tree' (plug context (SearchTree.hang l r)) ∧
        deref tree' (.node e.1) = none := by
    rintro result ⟨tree', hrun, hcompare, hfirst, hshape, hfree⟩
    refine ⟨tree', ?_, hcompare, hfirst, ⟨hshape, h.nodup_without⟩, hfree⟩
    rw [hrun]
    rfl
  obtain ⟨-, hnode, -, -⟩ := h.focus
  simp only [bstRemove, hnode, bstGetData, bind, Option.bind_some, pure]
  cases l with
  | nil =>
      cases r with
      | nil => exact hparts h.removeWithNoSons
      | node er rl rr => exact hparts h.removeWithRightSon
  | node el ll lr =>
      cases r with
      | nil => exact hparts h.removeWithLeftSon
      | node er rl rr => exact hparts h.removeWithTwoSons

end Workbench.Bst
