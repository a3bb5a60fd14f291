import Mathlib.Tactic.Common
import Workbench.Lib.Splice

/-!
# `Linked.Splice` — ranges of doubly linked lists in one memory

A splice leads from the nodes of one list to those of another one, so the lists share a memory here; each of them has
its own dummies. An assertion that fails, and a `NULL` or a freed node that is dereferenced, are `none`.

## Main results
* `WellFormed` — the lists with these nodes and data are in memory;
* `Splices` — what is in the lists after a range of one of them was moved;
* `dlistSplice_wellFormed_iff` — when `DlistSplice` moves it.
-/

namespace Workbench.SharedDlist

/-- `Dlist_iter_t`. The lists are numbered. -/
inductive Iter
  | beginDummy (list : Nat)
  | endDummy (list : Nat)
  | node (address : Nat)
  deriving DecidableEq

/-- `dlist_node_t`. The data of a dummy is the list itself: it is `none`, and nothing reads it. -/
structure Node (α : Type) where
  data : Option α
  nextNode : Option Iter
  prevNode : Option Iter

/-- The nodes that were allocated and not freed, with the dummies. -/
abbrev Memory (α : Type) := Iter → Option (Node α)

variable {α : Type}

/-! ## The functions -/

/-- An assignment to a field of `*iter`. -/
def assign (M : Memory α) (iter : Iter) (f : Node α → Node α) : Option (Memory α) :=
  (M iter).map fun node => Function.update M iter (some (f node))

def dlistNext (M : Memory α) (iter : Iter) : Option Iter := (M iter).bind Node.nextNode

def dlistPrev (M : Memory α) (iter : Iter) : Option Iter := (M iter).bind Node.prevNode

def dlistBegin (M : Memory α) (list : Nat) : Option Iter := dlistNext M (.beginDummy list)

def dlistEnd (list : Nat) : Iter := .endDummy list

def dlistIsEmpty (M : Memory α) (list : Nat) : Option Bool := do
  let first ← dlistBegin M list
  return first = dlistEnd list

def dlistGetData (M : Memory α) (iter : Iter) : Option α := do
  let _ ← dlistNext M iter
  let _ ← dlistPrev M iter
  let node ← M iter
  node.data

/-- `iter->next_node = next` -/
def setNext (M : Memory α) (iter next : Iter) : Option (Memory α) :=
  assign M iter fun node => { node with nextNode := some next }

/-- `iter->prev_node = prev` -/
def setPrev (M : Memory α) (iter prev : Iter) : Option (Memory α) :=
  assign M iter fun node => { node with prevNode := some prev }

/-- A previous node that is `NULL` is dereferenced in one of the lines below the first one. -/
def dlistSplice (M : Memory α) (where_ srcFrom srcTo : Iter) : Option (Memory α × Iter) := do
  let srcFromPrev ← dlistPrev M srcFrom
  let M ← setNext M (← dlistPrev M srcTo) where_
  let M ← setNext M (← dlistPrev M where_) srcFrom
  let M ← setNext M (← dlistPrev M srcFrom) srcTo
  let M ← setPrev M srcFrom (← dlistPrev M where_)
  let M ← setPrev M where_ (← dlistPrev M srcTo)
  let M ← setPrev M srcTo srcFromPrev
  let last ← dlistPrev M where_
  return (M, last)

/-! ## What the assignments change -/

def dataOf (M : Memory α) (iter : Iter) : Option α := (M iter).bind Node.data

variable {M M' : Memory α} {iter p from_ to_ where_ x u v : Iter}

theorem assign_eq {node : Node α} (h : M iter = some node) (f : Node α → Node α) :
    assign M iter f = some (Function.update M iter (some (f node))) := by
  unfold assign
  rw [h]
  rfl

/-- What is read from all nodes changes at one of them. -/
theorem read_update {β : Type} (read : Option (Node α) → β) (M : Memory α) (iter : Iter) (node : Node α) :
    (fun p => read (Function.update M iter (some node) p)) =
      Function.update (fun p => read (M p)) iter (read (some node)) :=
  Function.comp_update read M iter (some node)

theorem read_update_self {β : Type} (read : Option (Node α) → β) {node node' : Node α} (h : M iter = some node)
    (hread : read (some node') = read (some node)) :
    (fun p => read (Function.update M iter (some node') p)) = fun p => read (M p) := by
  rw [read_update, hread, ← h]
  exact Function.update_eq_self iter fun p => read (M p)

theorem setNext_eq (h : (M iter).isSome) (next : Iter) : ∃ M', setNext M iter next = some M' ∧
    dlistNext M' = Function.update (dlistNext M) iter (some next) ∧ dlistPrev M' = dlistPrev M ∧
    dataOf M' = dataOf M ∧ ∀ p, (M' p).isSome = (M p).isSome := by
  obtain ⟨node, hnode⟩ := Option.isSome_iff_exists.mp h
  refine ⟨_, assign_eq hnode _, read_update (fun n => n.bind Node.nextNode) M iter _, ?_, ?_, ?_⟩
  · exact read_update_self (fun n => n.bind Node.prevNode) hnode rfl
  · exact read_update_self (fun n => n.bind Node.data) hnode rfl
  · exact congrFun (read_update_self Option.isSome hnode rfl)

theorem setPrev_eq (h : (M iter).isSome) (prev : Iter) : ∃ M', setPrev M iter prev = some M' ∧
    dlistNext M' = dlistNext M ∧ dlistPrev M' = Function.update (dlistPrev M) iter (some prev) ∧
    dataOf M' = dataOf M ∧ ∀ p, (M' p).isSome = (M p).isSome := by
  obtain ⟨node, hnode⟩ := Option.isSome_iff_exists.mp h
  refine ⟨_, assign_eq hnode _, ?_, read_update (fun n => n.bind Node.prevNode) M iter _, ?_, ?_⟩
  · exact read_update_self (fun n => n.bind Node.nextNode) hnode rfl
  · exact read_update_self (fun n => n.bind Node.data) hnode rfl
  · exact congrFun (read_update_self Option.isSome hnode rfl)

theorem isSome_of_next (h : dlistNext M p = some iter) : (M p).isSome := by
  obtain ⟨node, hnode, -⟩ := Option.bind_eq_some_iff.mp h
  rw [hnode]
  rfl

theorem isSome_of_prev (h : dlistPrev M p = some iter) : (M p).isSome := by
  obtain ⟨node, hnode, -⟩ := Option.bind_eq_some_iff.mp h
  rw [hnode]
  rfl

/-- **The six links**, wherever `where` is: the first three assignments read what was there before, and the fifth one
    what the fourth one has written if the range is empty. -/
theorem dlistSplice_eq (hx : dlistPrev M from_ = some x) (hu : dlistPrev M to_ = some u)
    (hv : dlistPrev M where_ = some v) (hxsome : (M x).isSome) (husome : (M u).isSome) (hvsome : (M v).isSome) :
    ∃ M' last, dlistSplice M where_ from_ to_ = some (M', last) ∧
      dlistNext M' = Function.update (Function.update (Function.update (dlistNext M) u (some where_)) v (some from_)) x
        (some to_) ∧
      dlistPrev M' = Function.update (Function.update (Function.update (dlistPrev M) from_ (some v)) where_
        (some (if to_ = from_ then v else u))) to_ (some x) ∧
      dataOf M' = dataOf M := by
  obtain ⟨M₁, h₁, hnext₁, hprev₁, hdata₁, hsome₁⟩ := setNext_eq husome where_
  obtain ⟨M₂, h₂, hnext₂, hprev₂, hdata₂, hsome₂⟩ := setNext_eq (M := M₁) (by rwa [hsome₁]) from_
  have hx₂some : (M₂ x).isSome := by rwa [hsome₂, hsome₁]
  obtain ⟨M₃, h₃, hnext₃, hprev₃, hdata₃, hsome₃⟩ := setNext_eq hx₂some to_
  have hprev₃' : dlistPrev M₃ = dlistPrev M := hprev₃.trans (hprev₂.trans hprev₁)
  have hsome₃' : ∀ p, (M₃ p).isSome = (M p).isSome := fun p => (hsome₃ p).trans ((hsome₂ p).trans (hsome₁ p))
  have hfromsome : (M₃ from_).isSome := by
    rw [hsome₃']
    exact isSome_of_prev hx
  obtain ⟨M₄, h₄, hnext₄, hprev₄, hdata₄, hsome₄⟩ := setPrev_eq hfromsome v
  have hlast : dlistPrev M₄ to_ = some (if to_ = from_ then v else u) := by
    rw [hprev₄, hprev₃']
    by_cases hempty : to_ = from_
    · rw [if_pos hempty, hempty, Function.update_self]
    · rw [if_neg hempty, Function.update_of_ne hempty, hu]
  have hwheresome : (M₄ where_).isSome := by
    rw [hsome₄, hsome₃']
    exact isSome_of_prev hv
  obtain ⟨M₅, h₅, hnext₅, hprev₅, hdata₅, hsome₅⟩ := setPrev_eq hwheresome (if to_ = from_ then v else u)
  have htosome : (M₅ to_).isSome := by
    rw [hsome₅, hsome₄, hsome₃']
    exact isSome_of_prev hu
  obtain ⟨M₆, h₆, hnext₆, hprev₆, hdata₆, hsome₆⟩ := setPrev_eq htosome x
  have hprev₆' : dlistPrev M₆ = Function.update (Function.update (Function.update (dlistPrev M) from_ (some v)) where_
      (some (if to_ = from_ then v else u))) to_ (some x) := by
    rw [hprev₆, hprev₅, hprev₄, hprev₃']
  obtain ⟨last, hresult⟩ : ∃ last, dlistPrev M₆ where_ = some last := by
    rw [hprev₆']
    by_cases hwhere : where_ = to_
    · exact ⟨x, by rw [hwhere, Function.update_self]⟩
    · exact ⟨_, by rw [Function.update_of_ne hwhere, Function.update_self]⟩
  refine ⟨M₆, last, ?_, ?_, hprev₆', ?_⟩
  · have hv₁ : dlistPrev M₁ where_ = some v := by rw [hprev₁, hv]
    have hx₂ : dlistPrev M₂ from_ = some x := by rw [hprev₂, hprev₁, hx]
    have hv₃ : dlistPrev M₃ where_ = some v := by rw [hprev₃', hv]
    simp only [dlistSplice, hx, hu, h₁, hv₁, h₂, hx₂, h₃, hv₃, h₄, hlast, h₅, h₆, hresult, bind, Option.bind_some, pure]
  · rw [hnext₆, hnext₅, hnext₄, hnext₃, hnext₂, hnext₁]
  · rw [hdata₆, hdata₅, hdata₄, hdata₃, hdata₂, hdata₁]

/-! ## What is in memory -/

/-- The nodes from the first dummy to the second one. -/
def nodes (list : Nat) (xs : List (Nat × α)) : List Iter :=
  .beginDummy list :: (xs.map (fun e => .node e.1) ++ [.endDummy list])

/-- The lists that were created, and their elements, with the addresses of the nodes. -/
abbrev Contents (α : Type) := Nat → Option (List (Nat × α))

def nodesOf (contents : Contents α) (list : Nat) : List Iter :=
  match contents list with
  | some xs => nodes list xs
  | none => []

/-- **The lists are in memory**: from the first dummy on, each node leads to the next one and back, no node is in two
    places, and the nodes have the data. -/
structure WellFormed (M : Memory α) (contents : Contents α) : Prop where
  linked : LinkedAll (dlistNext M) (dlistPrev M) (nodesOf contents)
  data (list : Nat) (xs : List (Nat × α)) : contents list = some xs → ∀ e ∈ xs, dataOf M (.node e.1) = some e.2

/-- The place in front of some elements: the first of them, or the second dummy. -/
def position (list : Nat) : List (Nat × α) → Iter
  | [] => .endDummy list
  | e :: _ => .node e.1

/-- **What a splice is to do**. The place is in front of an element that is not in the range, or at an end, and the
    range stands there afterwards; or the place is the first element of the range, and everything stays. -/
inductive Splices (contents : Contents α) : Iter → Iter → Iter → Contents α → Prop
  | move {s d : Nat} {as range bs ds es : List (Nat × α)} : contents s = some (as ++ range ++ bs) →
      Function.update contents s (some (as ++ bs)) d = some (ds ++ es) →
      Splices contents (position d es) (position s (range ++ bs)) (position s bs)
        (Function.update (Function.update contents s (some (as ++ bs))) d (some (ds ++ range ++ es)))
  | stay {s : Nat} {as range bs : List (Nat × α)} : contents s = some (as ++ range ++ bs) →
      Splices contents (position s (range ++ bs)) (position s (range ++ bs)) (position s bs) contents

variable {contents contents' : Contents α} {list s d : Nat} {xs ys as range bs ds es : List (Nat × α)} {e : Nat × α}

/-! ## Places -/

/-- What comes after a place. -/
def rest (list : Nat) : List (Nat × α) → List Iter
  | [] => []
  | _ :: ys => ys.map (fun e => .node e.1) ++ [.endDummy list]

theorem map_append_end (list : Nat) (ys : List (Nat × α)) :
    ys.map (fun e => Iter.node e.1) ++ [.endDummy list] = position list ys :: rest list ys := by
  cases ys with
  | nil => rfl
  | cons e ys => rfl

/-- The node in front of a place: the last of the elements there, or the first dummy. -/
def front (list : Nat) (xs : List (Nat × α)) : Iter := (xs.getLast?.map fun e => .node e.1).getD (.beginDummy list)

theorem nodes_split (list : Nat) (xs : List (Nat × α)) : ∃ l, ∀ mid ys, nodes list (xs ++ mid ++ ys) =
    l ++ front list xs :: (mid.map (fun e => .node e.1) ++ position list ys :: rest list ys) := by
  rcases List.eq_nil_or_concat xs with rfl | ⟨init, e, rfl⟩
  · refine ⟨[], fun mid ys => ?_⟩
    rw [← map_append_end, ← List.append_assoc, ← List.map_append]
    rfl
  · refine ⟨.beginDummy list :: init.map (fun e => .node e.1), fun mid ys => ?_⟩
    have hfront : front list (init.concat e) = .node e.1 := by
      rw [List.concat_eq_append, front, List.getLast?_concat]
      rfl
    rw [hfront, ← map_append_end, List.concat_eq_append]
    simp [nodes]

theorem nodesOf_eq (h : contents list = some xs) : nodesOf contents list = nodes list xs := by
  unfold nodesOf
  rw [h]

theorem nodesOf_update (contents : Contents α) (list : Nat) (xs : List (Nat × α)) :
    nodesOf (Function.update contents list (some xs)) = Function.update (nodesOf contents) list (nodes list xs) := by
  funext i
  by_cases hi : i = list
  · subst hi
    rw [Function.update_self, nodesOf_eq (Function.update_self _ _ _)]
  · unfold nodesOf
    rw [Function.update_of_ne hi, Function.update_of_ne hi]

/-- The first node of a range that is not empty. -/
theorem position_append (list : Nat) (e : Nat × α) (range bs : List (Nat × α)) :
    position list (e :: range ++ bs) = .node e.1 := rfl

/-- The two neighbours at a place. -/
theorem WellFormed.link (h : WellFormed M contents) (hlist : contents list = some (xs ++ ys)) :
    Link (dlistNext M) (dlistPrev M) (front list xs) (position list ys) := by
  obtain ⟨l, hsplit⟩ := nodes_split list xs
  refine h.linked.link_of_split (s := list) (l := l) (r := rest list ys) ?_
  have hsplit := hsplit [] ys
  rw [List.append_nil] at hsplit
  rw [nodesOf_eq hlist, hsplit]
  rfl

/-- Nothing else has the data. -/
theorem WellFormed.data_of_mem (h : WellFormed M contents) (hdata : dataOf M' = dataOf M)
    (hlinked : LinkedAll (dlistNext M') (dlistPrev M') (nodesOf contents'))
    (hmem : ∀ list xs e, contents' list = some xs → e ∈ xs → ∃ list ys, contents list = some ys ∧ e ∈ ys) :
    WellFormed M' contents' := by
  refine ⟨hlinked, fun list xs hlist e he => ?_⟩
  obtain ⟨list', ys, hlist', he'⟩ := hmem list xs e hlist he
  rw [hdata]
  exact h.data list' ys hlist' e he'

/-- What is in the lists after a range was moved was there before. -/
theorem mem_of_mem_moved (hs : contents s = some (as ++ range ++ bs))
    (hd : Function.update contents s (some (as ++ bs)) d = some (ds ++ es))
    (hlist : Function.update (Function.update contents s (some (as ++ bs))) d (some (ds ++ range ++ es)) list = some xs)
    (he : e ∈ xs) : ∃ list ys, contents list = some ys ∧ e ∈ ys := by
  have hcut : ∀ {list xs}, Function.update contents s (some (as ++ bs)) list = some xs → e ∈ xs →
      ∃ list ys, contents list = some ys ∧ e ∈ ys := by
    intro list xs hlist he
    by_cases hlists : list = s
    · subst hlists
      rw [Function.update_self] at hlist
      obtain rfl := Option.some.inj hlist
      refine ⟨_, _, hs, ?_⟩
      rcases List.mem_append.mp he with he | he <;> simp [he]
    · rw [Function.update_of_ne hlists] at hlist
      exact ⟨_, _, hlist, he⟩
  by_cases hlistd : list = d
  · subst hlistd
    rw [Function.update_self] at hlist
    obtain rfl := Option.some.inj hlist
    by_cases hrange : e ∈ range
    · exact ⟨_, _, hs, by simp [hrange]⟩
    · refine hcut hd ?_
      simpa [hrange] using he
  · rw [Function.update_of_ne hlistd] at hlist
    exact hcut hlist he

/-! ## The splice -/

/-- **A range is moved** to a place that is not the end of it. -/
theorem dlistSplice_move (h : WellFormed M contents) (hs : contents s = some (as ++ range ++ bs)) (hne : range ≠ [])
    (hd : Function.update contents s (some (as ++ bs)) d = some (ds ++ es)) (hto : position d es ≠ position s bs) :
    ∃ M' last, dlistSplice M (position d es) (position s (range ++ bs)) (position s bs) = some (M', last) ∧
      WellFormed M' (Function.update (Function.update contents s (some (as ++ bs))) d (some (ds ++ range ++ es))) := by
  obtain ⟨l, hsplit⟩ := nodes_split s as
  obtain ⟨l', hsplit'⟩ := nodes_split d ds
  have hnodes : nodesOf contents s =
      l ++ front s as :: (range.map (fun e => .node e.1) ++ position s bs :: rest s bs) := by
    rw [nodesOf_eq hs, hsplit]
  have hcut : nodes s (as ++ bs) = l ++ front s as :: position s bs :: rest s bs := by
    have hcut := hsplit [] bs
    rwa [List.append_nil] at hcut
  have hplace : Function.update (nodesOf contents) s (l ++ front s as :: position s bs :: rest s bs) d =
      l' ++ front d ds :: position d es :: rest d es := by
    rw [← hcut, ← nodesOf_update, nodesOf_eq hd]
    have hplace := hsplit' [] es
    rwa [List.append_nil] at hplace
  obtain ⟨f, range', rfl⟩ := List.exists_cons_of_ne_nil hne
  have hs₀ : contents s = some (as ++ (f :: range' ++ bs)) := by rw [hs, List.append_assoc]
  have hfirst := h.link hs₀
  have hlast := h.link hs
  obtain ⟨init, u, hu⟩ : ∃ init u, f :: range' = init ++ [u] :=
    ⟨_, _, (List.dropLast_concat_getLast (List.cons_ne_nil _ _)).symm⟩
  have hfront : front s (as ++ f :: range') = .node u.1 := by
    rw [front, hu, ← List.append_assoc, List.getLast?_concat]
    rfl
  rw [hfront] at hlast
  -- the place has the same node in front as before, because it is not the end of the range
  have hplaced := (h.linked.cut hnodes).1.link_of_split hplace
  have hprevw : dlistPrev M (position d es) = some (front d ds) := by
    have hprev := hplaced.2
    rwa [Function.update_of_ne hto] at hprev
  have hvsome : (M (front d ds)).isSome := by
    by_cases hsame : front d ds = front s as
    · rw [hsame]
      exact isSome_of_next hfirst.1
    · have hnext := hplaced.1
      rw [Function.update_of_ne hsame] at hnext
      exact isSome_of_next hnext
  have hspliced := h.linked.splice hnodes hplace rfl (b := .node u.1) (by rw [hu, List.map_append]; simp) hto
  have hempty : position s bs ≠ .node f.1 := by
    intro heq
    have hnodup := h.linked.nodup s
    rw [hnodes, heq] at hnodup
    exact (nodup_middle_parts hnodup).2.2 (.node f.1) List.mem_cons_self (by simp)
  obtain ⟨M', last, hsplice, hnext, hprev, hdata⟩ := dlistSplice_eq hfirst.2 hlast.2 hprevw (isSome_of_next hfirst.1)
    (isSome_of_next hlast.1) hvsome
  rw [position_append, if_neg hempty] at hprev
  refine ⟨M', last, hsplice, h.data_of_mem hdata ?_ fun list xs e => mem_of_mem_moved hs hd⟩
  rw [nodesOf_update, nodesOf_update, hcut, hsplit', hnext, hprev]
  exact hspliced

/-- If the place is an end of the range, the range comes off the list: in front of it is the node in front of its
    other end. -/
theorem dlistSplice_breaks (h : WellFormed M contents) (hs : contents s = some (as ++ range ++ bs))
    (hne : position s (range ++ bs) ≠ position s bs)
    (hwhere : where_ = position s (range ++ bs) ∨ where_ = position s bs) {last : Iter}
    (hsplice : dlistSplice M where_ (position s (range ++ bs)) (position s bs) = some (M', last))
    (h' : WellFormed M' contents') (hs' : contents' s = contents s) : False := by
  have hs₀ : contents s = some (as ++ (range ++ bs)) := by rw [hs, List.append_assoc]
  have hfirst := h.link hs₀
  have hlast := h.link hs
  obtain ⟨v, hv, hvsome⟩ : ∃ v, dlistPrev M where_ = some v ∧ (M v).isSome := by
    rcases hwhere with rfl | rfl
    · exact ⟨_, hfirst.2, isSome_of_next hfirst.1⟩
    · exact ⟨_, hlast.2, isSome_of_next hlast.1⟩
  obtain ⟨M'', last', hsplice', hnext, -, -⟩ := dlistSplice_eq hfirst.2 hlast.2 hv (isSome_of_next hfirst.1)
    (isSome_of_next hlast.1) hvsome
  obtain ⟨rfl, rfl⟩ := Prod.mk.inj (Option.some.inj (hsplice.symm.trans hsplice'))
  have hfirst' := (h'.link (hs'.trans hs₀)).1
  rw [hnext, Function.update_self] at hfirst'
  exact hne (Option.some.inj hfirst').symm

/-- An empty range breaks the list of the place: the node in front of it leads to the end of the range. -/
theorem dlistSplice_empty_breaks (h : WellFormed M contents) (hs : contents s = some (as ++ bs))
    (hd : contents d = some (ds ++ es)) (hne : position d es ≠ position s bs) {last : Iter}
    (hsplice : dlistSplice M (position d es) (position s bs) (position s bs) = some (M', last))
    (h' : WellFormed M' contents) : False := by
  have hrange := h.link hs
  have hplace := h.link hd
  obtain ⟨M'', last', hsplice', hnext, -, -⟩ := dlistSplice_eq hrange.2 hrange.2 hplace.2 (isSome_of_next hrange.1)
    (isSome_of_next hrange.1) (isSome_of_next hplace.1)
  obtain ⟨rfl, rfl⟩ := Prod.mk.inj (Option.some.inj (hsplice.symm.trans hsplice'))
  have hapart : front d ds ≠ front s as := by
    intro heq
    have hnext := hplace.1
    rw [heq, hrange.1] at hnext
    exact hne (Option.some.inj hnext).symm
  have hplace' := (h'.link hd).1
  rw [hnext, Function.update_of_ne hapart, Function.update_self] at hplace'
  exact hne (Option.some.inj hplace').symm

/-- An empty range stays where it is. -/
theorem dlistSplice_empty_stays (h : WellFormed M contents) (hs : contents s = some (as ++ bs)) :
    ∃ M' last, dlistSplice M (position s bs) (position s bs) (position s bs) = some (M', last) ∧
      WellFormed M' contents := by
  have hrange := h.link hs
  obtain ⟨M', last, hsplice, hnext, hprev, hdata⟩ := dlistSplice_eq hrange.2 hrange.2 hrange.2 (isSome_of_next hrange.1)
    (isSome_of_next hrange.1) (isSome_of_next hrange.1)
  refine ⟨M', last, hsplice, h.data_of_mem hdata (h.linked.congr ?_ ?_) fun list xs e hlist he => ⟨_, _, hlist, he⟩⟩
  · rw [hnext, Function.update_idem, Function.update_idem, ← hrange.1, Function.update_eq_self]
  · rw [hprev, if_pos rfl, Function.update_idem, Function.update_idem, ← hrange.2, Function.update_eq_self]

/-! ## When the range is moved -/

theorem position_mem (list : Nat) (xs ys : List (Nat × α)) : position list ys ∈ nodes list (xs ++ ys) := by
  obtain ⟨l, hsplit⟩ := nodes_split list xs
  have hsplit := hsplit [] ys
  rw [List.append_nil] at hsplit
  rw [hsplit]
  simp

/-- The lists without the range, and the nodes of the range. -/
theorem WellFormed.cut (h : WellFormed M contents) (hs : contents s = some (as ++ range ++ bs)) :
    (∀ i, (nodesOf (Function.update contents s (some (as ++ bs))) i).Nodup) ∧
    (∀ i j p, p ∈ nodesOf (Function.update contents s (some (as ++ bs))) i →
      p ∈ nodesOf (Function.update contents s (some (as ++ bs))) j → i = j) ∧
    ∀ i, ∀ e ∈ range, .node e.1 ∉ nodesOf (Function.update contents s (some (as ++ bs))) i := by
  obtain ⟨l, hsplit⟩ := nodes_split s as
  have hcut := hsplit [] bs
  rw [List.append_nil] at hcut
  obtain ⟨hlinked, -, -, hfresh⟩ := h.linked.cut ((nodesOf_eq hs).trans (hsplit range bs))
  have hupdate : nodesOf (Function.update contents s (some (as ++ bs))) =
      Function.update (nodesOf contents) s (l ++ front s as :: position s bs :: rest s bs) := by
    rw [nodesOf_update, hcut]
    rfl
  rw [hupdate]
  exact ⟨hlinked.nodup, hlinked.apart, fun i e he => hfresh i _ (List.mem_map_of_mem he)⟩

/-- The place is not in the range. -/
theorem WellFormed.position_ne (h : WellFormed M contents) (hs : contents s = some (as ++ range ++ bs))
    (hne : range ≠ []) (hd : Function.update contents s (some (as ++ bs)) d = some (ds ++ es)) :
    position d es ≠ position s (range ++ bs) := by
  obtain ⟨f, range', rfl⟩ := List.exists_cons_of_ne_nil hne
  obtain ⟨-, -, hfresh⟩ := h.cut hs
  intro heq
  refine hfresh d f List.mem_cons_self ?_
  rw [nodesOf_eq hd, ← position_append s f range' bs, ← heq]
  exact position_mem d ds es

/-- A place behind an element is not in front of it. -/
theorem position_ne_node (hnodup : (nodes list (as ++ e :: range ++ bs)).Nodup) : position list bs ≠ .node e.1 := by
  obtain ⟨l, hsplit⟩ := nodes_split list as
  rw [hsplit] at hnodup
  intro heq
  refine (nodup_middle_parts hnodup).2.2 (.node e.1) List.mem_cons_self ?_
  rw [← heq]
  simp

/-- Two places in front of the same node are one place. -/
theorem position_inj (hnodup : (nodes list (as ++ bs)).Nodup) (heq : as ++ bs = ds ++ es)
    (hposition : position list bs = position list es) : as = ds ∧ bs = es := by
  rcases List.append_eq_append_iff.mp heq with ⟨cs, rfl, rfl⟩ | ⟨cs, rfl, rfl⟩
  · cases cs with
    | nil => simp
    | cons c cs =>
        rw [← List.append_assoc] at hnodup
        exact absurd hposition.symm (position_ne_node hnodup)
  · cases cs with
    | nil => simp
    | cons c cs => exact absurd hposition (position_ne_node hnodup)

/-! ## Two lists -/

/-- 5 and 6 in the first list, and nothing in the second one. -/
def sample : Memory Int
  | .beginDummy 0 => some ⟨none, some (.node 1), none⟩
  | .node 1 => some ⟨some 5, some (.node 2), some (.beginDummy 0)⟩
  | .node 2 => some ⟨some 6, some (.endDummy 0), some (.node 1)⟩
  | .endDummy 0 => some ⟨none, none, some (.node 2)⟩
  | .beginDummy 1 => some ⟨none, some (.endDummy 1), none⟩
  | .endDummy 1 => some ⟨none, none, some (.beginDummy 1)⟩
  | _ => none

def sampleContents : Contents Int
  | 0 => some [(1, 5), (2, 6)]
  | 1 => some []
  | _ => none

theorem sample_wellFormed : WellFormed sample sampleContents := by
  refine ⟨⟨fun i => ?_, fun i => ?_, fun i j p hi hj => ?_⟩, fun list xs hlist e he => ?_⟩
  · rcases i with - | - | i
    · exact .cons_cons ⟨rfl, rfl⟩ (.cons_cons ⟨rfl, rfl⟩ (.cons_cons ⟨rfl, rfl⟩ (.singleton _)))
    · exact .cons_cons ⟨rfl, rfl⟩ (.singleton _)
    · exact .nil
  · rcases i with - | - | i
    · show [Iter.beginDummy 0, .node 1, .node 2, .endDummy 0].Nodup
      decide
    · show [Iter.beginDummy 1, .endDummy 1].Nodup
      decide
    · exact List.nodup_nil
  · have hfirst : ∀ p ∈ nodesOf sampleContents 0, p ∉ nodesOf sampleContents 1 := by decide
    rcases i with - | - | i <;> rcases j with - | - | j
    · rfl
    · exact absurd hj (hfirst p hi)
    · cases hj
    · exact absurd hi (hfirst p hj)
    · rfl
    · cases hj
    · cases hi
    · cases hi
    · cases hi
  · rcases list with - | - | list
    · obtain rfl := Option.some.inj hlist
      rcases List.mem_cons.mp he with rfl | he
      · rfl
      · obtain rfl := List.mem_singleton.mp he
        rfl
    · obtain rfl := Option.some.inj hlist
      cases he
    · cases hlist

/-- A place that is the end of the range: the lists are to be as they were. -/
theorem WellFormed.position_end (h : WellFormed M contents) (hs : contents s = some (as ++ range ++ bs))
    (hd : Function.update contents s (some (as ++ bs)) d = some (ds ++ es)) (hplace : position d es = position s bs) :
    d = s ∧ ds = as ∧ es = bs := by
  obtain ⟨hnodup, hapart, -⟩ := h.cut hs
  have hlist : d = s := by
    refine hapart d s (position d es) ?_ ?_
    · rw [nodesOf_eq hd]
      exact position_mem d ds es
    · rw [nodesOf_eq (Function.update_self _ _ _), hplace]
      exact position_mem s as bs
  subst hlist
  rw [Function.update_self] at hd
  have hnodup := hnodup d
  rw [nodesOf_eq (Function.update_self _ _ _)] at hnodup
  obtain ⟨has, hbs⟩ := position_inj hnodup (Option.some.inj hd) hplace.symm
  exact ⟨rfl, has.symm, hbs.symm⟩

/-- **When `DlistSplice` moves the range**: the range is not empty and the place is none of its ends, or the range is
    empty and the place is where it is. -/
theorem dlistSplice_wellFormed_iff (h : WellFormed M contents)
    (hsplices : Splices contents where_ from_ to_ contents') :
    (∃ M' last, dlistSplice M where_ from_ to_ = some (M', last) ∧ WellFormed M' contents') ↔
      (from_ ≠ to_ ∧ where_ ≠ from_ ∧ where_ ≠ to_) ∨ (from_ = to_ ∧ where_ = from_) := by
  have hnodup : ∀ {list xs}, contents list = some xs → (nodes list xs).Nodup := fun {list xs} hlist =>
    nodesOf_eq hlist ▸ h.linked.nodup list
  cases hsplices with
  | @move s d as range bs ds es hs hd =>
      cases range with
      | nil =>
          rw [List.append_nil] at hs
          have hsame : Function.update contents s (some (as ++ bs)) = contents := by
            rw [← hs, Function.update_eq_self]
          rw [hsame] at hd
          rw [hsame, List.append_nil, ← hd, Function.update_eq_self, List.nil_append]
          by_cases hplace : position d es = position s bs
          · rw [hplace]
            exact iff_of_true (dlistSplice_empty_stays h hs) (.inr ⟨rfl, rfl⟩)
          · refine iff_of_false ?_ ?_
            · rintro ⟨M', last, hsplice, h'⟩
              exact dlistSplice_empty_breaks h hs hd hplace hsplice h'
            · rintro (⟨hne, -⟩ | ⟨-, heq⟩)
              · exact hne rfl
              · exact hplace heq
      | cons f range =>
          have hends : position s (f :: range ++ bs) ≠ position s bs := (position_ne_node (hnodup hs)).symm
          have hin := h.position_ne hs (List.cons_ne_nil f range) hd
          by_cases hplace : position d es = position s bs
          · obtain ⟨rfl, rfl, rfl⟩ := h.position_end hs hd hplace
            refine iff_of_false ?_ ?_
            · rintro ⟨M', last, hsplice, h'⟩
              refine dlistSplice_breaks h hs hends (.inr rfl) hsplice h' ?_
              rw [Function.update_self, hs]
            · rintro (⟨-, -, hne⟩ | ⟨heq, -⟩)
              · exact hne rfl
              · exact hends heq
          · exact iff_of_true (dlistSplice_move h hs (List.cons_ne_nil f range) hd hplace) (.inl ⟨hends, hin, hplace⟩)
  | @stay s as range bs hs =>
      cases range with
      | nil =>
          rw [List.append_nil] at hs
          exact iff_of_true (dlistSplice_empty_stays h hs) (.inr ⟨rfl, rfl⟩)
      | cons f range =>
          have hends : position s (f :: range ++ bs) ≠ position s bs := (position_ne_node (hnodup hs)).symm
          refine iff_of_false ?_ ?_
          · rintro ⟨M', last, hsplice, h'⟩
            exact dlistSplice_breaks h hs hends (.inl rfl) hsplice h' rfl
          · rintro (⟨-, hne, -⟩ | ⟨heq, -⟩)
            · exact hne rfl
            · exact hends heq

/-- 5 is to stay in front of 6, and is its own next node; and nothing is to be moved to the end of the second list,
    whose first dummy then leads to 6. -/
theorem dlistSplice_ends :
    (Splices sampleContents (.node 1) (.node 1) (.node 2) sampleContents ∧
      ¬ ∃ M' last, dlistSplice sample (.node 1) (.node 1) (.node 2) = some (M', last) ∧ WellFormed M' sampleContents) ∧
    (Splices sampleContents (.endDummy 1) (.node 2) (.node 2) sampleContents ∧
      ¬ ∃ M' last, dlistSplice sample (.endDummy 1) (.node 2) (.node 2) = some (M', last) ∧
        WellFormed M' sampleContents) := by
  have hs : sampleContents 0 = some ([] ++ [(1, 5)] ++ [(2, 6)]) := rfl
  have hsplit : sampleContents 0 = some ([(1, 5)] ++ [(2, 6)]) := rfl
  have hd : sampleContents 1 = some ([] ++ []) := rfl
  refine ⟨⟨.stay hs, ?_⟩, ?_, ?_⟩
  · rintro ⟨M', last, hsplice, h'⟩
    exact dlistSplice_breaks sample_wellFormed hs (by decide) (.inl rfl) hsplice h' rfl
  · have hcontents : Function.update (Function.update sampleContents 0 (some ([(1, 5)] ++ [(2, 6)]))) 1
        (some ([] ++ [] ++ [])) = sampleContents := by
      rw [← hsplit, Function.update_eq_self]
      exact Function.update_eq_self 1 sampleContents
    have hmove := @Splices.move Int sampleContents 0 1 [(1, 5)] [] [(2, 6)] [] [] rfl rfl
    rwa [hcontents] at hmove
  · rintro ⟨M', last, hsplice, h'⟩
    exact dlistSplice_empty_breaks sample_wellFormed hsplit hd (by decide) hsplice h'

/-- 5 is moved to the second list. -/
theorem dlistSplice_wellFormed_iff_sample :
    ∃ M' last, dlistSplice sample (.endDummy 1) (.node 1) (.node 2) = some (M', last) ∧
      WellFormed M' (Function.update (Function.update sampleContents 0 (some [(2, 6)])) 1 (some [(1, 5)])) :=
  (dlistSplice_wellFormed_iff sample_wellFormed
    (@Splices.move Int sampleContents 0 1 [] [(1, 5)] [(2, 6)] [] [] rfl rfl)).mpr
    (.inl ⟨by decide, by decide, by decide⟩)

end Workbench.SharedDlist
