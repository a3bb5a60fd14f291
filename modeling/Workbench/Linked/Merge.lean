import Workbench.Lib.Comparator
import Workbench.Lib.Merge
import Workbench.Linked.Splice

/-!
# `Linked.Merge` — a sorted list is merged into another one

`SortedListMerge` moves the nodes of the source one by one, each in front of the first element of the destination that
does not come before it. The iterator into the destination never goes back.

## Main results
* `skipLoop_eq` — where a node goes;
* `mergeLoop_eq` — the loop from any of its turns on;
* `sortedListMerge_sorted` — the two lists afterwards.
-/

namespace Workbench.SharedDlist

variable {α : Type}

/-! ## The functions -/

/-- The inner loop of `SortedListMerge`; the first number bounds its turns. -/
def skipLoop (sortFunc : α → α → Int) (M : Memory α) (dest src : Nat) : Nat → Iter → Option Iter
  | 0, _ => none
  | turns + 1, destRunner =>
      if destRunner ≠ dlistEnd dest then do
        let data ← dlistGetData M destRunner
        let first ← dlistBegin M src
        let srcData ← dlistGetData M first
        if 0 < sortFunc data srcData then
          let next ← dlistNext M destRunner
          skipLoop sortFunc M dest src turns next
        else
          return destRunner
      else
        some destRunner

/-- The outer loop, with a bound for the turns of either. -/
def mergeLoop (sortFunc : α → α → Int) (dest src : Nat) : Nat → Memory α → Iter → Option (Memory α)
  | 0, _, _ => none
  | turns + 1, M, destRunner => do
      let isEmpty ← dlistIsEmpty M src
      if isEmpty then
        return M
      else
        let destRunner ← skipLoop sortFunc M dest src turns destRunner
        let first ← dlistBegin M src
        let next ← dlistNext M first
        let (M, _) ← dlistSplice M destRunner first next
        mergeLoop sortFunc dest src turns M destRunner

/-- The lists have the same sort function, which is asserted. -/
def sortedListMerge (sortFunc : α → α → Int) (M : Memory α) (dest src : Nat) (turns : Nat) : Option (Memory α) := do
  let destRunner ← dlistBegin M dest
  mergeLoop sortFunc dest src turns M destRunner

/-! ## What the iterators reach -/

variable {M M' : Memory α} {contents : Contents α} {list dest src : Nat} {xs ys done_ rest_ : List (Nat × α)}
  {e y : Nat × α} {order : Comparator α}

theorem front_concat (list : Nat) (xs : List (Nat × α)) (e : Nat × α) : front list (xs ++ [e]) = .node e.1 := by
  rw [front, List.getLast?_concat]
  rfl

theorem WellFormed.begin (h : WellFormed M contents) (hlist : contents list = some xs) :
    dlistBegin M list = some (position list xs) := by
  have hsplit : contents list = some ([] ++ xs) := hlist
  exact (h.link hsplit).1

theorem WellFormed.isEmpty (h : WellFormed M contents) (hlist : contents list = some xs) :
    dlistIsEmpty M list = some (decide (xs = [])) := by
  unfold dlistIsEmpty
  rw [h.begin hlist]
  cases xs with
  | nil => simp [position, dlistEnd]
  | cons e xs => simp [position, dlistEnd]

theorem WellFormed.next_node (h : WellFormed M contents) (hlist : contents list = some (xs ++ e :: ys)) :
    dlistNext M (.node e.1) = some (position list ys) := by
  have hsplit : contents list = some ((xs ++ [e]) ++ ys) := by
    rw [hlist, List.append_assoc]
    rfl
  have hnext := (h.link hsplit).1
  rwa [front_concat] at hnext

theorem WellFormed.getData (h : WellFormed M contents) (hlist : contents list = some (xs ++ e :: ys)) :
    dlistGetData M (.node e.1) = some e.2 := by
  have hprev : dlistPrev M (.node e.1) = some (front list xs) := (h.link hlist).2
  have hdata := h.data list _ hlist e (by simp)
  unfold dlistGetData
  rw [h.next_node hlist, hprev]
  exact hdata

/-- Places of different lists are different. -/
theorem WellFormed.position_ne_of_ne (h : WellFormed M contents) (hne : dest ≠ src)
    (hdest : contents dest = some (done_ ++ rest_)) (hsrc : contents src = some (xs ++ ys)) :
    position dest rest_ ≠ position src ys := by
  intro heq
  refine hne (h.linked.apart dest src (position dest rest_) ?_ ?_)
  · rw [nodesOf_eq hdest]
    exact position_mem dest done_ rest_
  · rw [nodesOf_eq hsrc, heq]
    exact position_mem src xs ys

/-! ## The loops -/

/-- The first element of the source goes in front of those of the destination that come after it, or are equal. -/
def goesFirst (order : Comparator α) (y x : Nat × α) : Bool := decide (0 ≤ order.compare y.2 x.2)

theorem goesFirst_iff (y x : Nat × α) : (!goesFirst order y x) = true ↔ 0 < order.compare x.2 y.2 := by
  rw [goesFirst, Bool.not_eq_true', decide_eq_false_iff_not, Int.not_le, order.swap]

/-- **The place** of the first element of the source. -/
theorem skipLoop_eq (order : Comparator α) (h : WellFormed M contents) (hdest : contents dest = some (done_ ++ rest_))
    (hsrc : contents src = some (y :: ys)) {turns : Nat} (hturns : rest_.length < turns) :
    skipLoop order.compare M dest src turns (position dest rest_) =
      some (position dest (rest_.dropWhile fun x => !goesFirst order y x)) := by
  induction rest_ generalizing done_ turns with
  | nil =>
      cases turns with
      | zero => omega
      | succ turns =>
          have hend : position dest ([] : List (Nat × α)) = dlistEnd dest := rfl
          unfold skipLoop
          rw [if_neg (not_not.mpr hend)]
          rfl
  | cons x rest_ ih =>
      cases turns with
      | zero => omega
      | succ turns =>
          have hend : Iter.node x.1 ≠ dlistEnd dest := fun heq => Iter.noConfusion heq
          have hbegin : dlistBegin M src = some (.node y.1) := h.begin hsrc
          have hnext : dlistNext M (.node x.1) = some (position dest rest_) := h.next_node hdest
          show skipLoop order.compare M dest src (turns + 1) (.node x.1) = _
          unfold skipLoop
          rw [if_pos hend]
          have hsplit : contents src = some ([] ++ y :: ys) := hsrc
          simp only [h.getData hdest, hbegin, h.getData hsplit, hnext, bind, Option.bind_some]
          by_cases hskip : 0 < order.compare x.2 y.2
          · have hdest' : contents dest = some ((done_ ++ [x]) ++ rest_) := by
              rw [hdest, List.append_assoc]
              rfl
            have hdrop := List.dropWhile_cons_of_pos (p := fun x => !goesFirst order y x) (l := rest_)
              ((goesFirst_iff y x).mpr hskip)
            rw [if_pos hskip, hdrop]
            exact ih hdest' (Nat.lt_of_succ_lt_succ hturns)
          · have hdrop := List.dropWhile_cons_of_neg (p := fun x => !goesFirst order y x) (l := rest_)
              fun hgoes => hskip ((goesFirst_iff y x).mp hgoes)
            rw [if_neg hskip, hdrop]
            rfl

/-- **The loop** from any of its turns on: what is in front of the iterator stays. -/
theorem mergeLoop_eq (order : Comparator α) (h : WellFormed M contents) (hne : dest ≠ src)
    (hdest : contents dest = some (done_ ++ rest_)) (hsrc : contents src = some ys) {turns : Nat}
    (hturns : rest_.length + ys.length < turns) :
    ∃ M', mergeLoop order.compare dest src turns M (position dest rest_) = some M' ∧
      WellFormed M' (Function.update (Function.update contents src (some []))
        dest (some (done_ ++ List.merge ys rest_ (goesFirst order)))) := by
  induction ys generalizing M contents done_ rest_ turns with
  | nil =>
      cases turns with
      | zero => omega
      | succ turns =>
          refine ⟨M, ?_, ?_⟩
          · unfold mergeLoop
            rw [h.isEmpty hsrc]
            rfl
          · rwa [List.nil_merge, ← hsrc, Function.update_eq_self, ← hdest, Function.update_eq_self]
  | cons y ys ih =>
      cases turns with
      | zero => omega
      | succ turns =>
          have hlength : (y :: ys).length = ys.length + 1 := rfl
          -- the elements that the iterator passes, and those from which on it stays
          generalize hskipped : rest_.takeWhile (fun x => !goesFirst order y x) = skipped
          generalize hrest' : rest_.dropWhile (fun x => !goesFirst order y x) = rest'
          have hparts : rest_ = skipped ++ rest' := by
            rw [← hskipped, ← hrest', List.takeWhile_append_dropWhile]
          have hrestlength : rest_.length = skipped.length + rest'.length := by
            rw [hparts, List.length_append]
          have hsrc' : contents src = some ([] ++ [y] ++ ys) := hsrc
          have hplace : Function.update contents src (some ([] ++ ys)) dest = some ((done_ ++ skipped) ++ rest') := by
            rw [Function.update_of_ne hne, hdest, hparts, List.append_assoc]
          have hplace' : contents dest = some ((done_ ++ skipped) ++ rest') := by
            rw [hdest, hparts, List.append_assoc]
          obtain ⟨M₁, last, hsplice, h₁⟩ := dlistSplice_move h hsrc' (List.cons_ne_nil y []) hplace
            (h.position_ne_of_ne hne hplace' hsrc')
          have hdest₁ : Function.update (Function.update contents src (some ([] ++ ys))) dest
              (some ((done_ ++ skipped) ++ [y] ++ rest')) dest = some ((done_ ++ skipped ++ [y]) ++ rest') :=
            Function.update_self _ _ _
          have hsrc₁ : Function.update (Function.update contents src (some ([] ++ ys))) dest
              (some ((done_ ++ skipped) ++ [y] ++ rest')) src = some ys := by
            rw [Function.update_of_ne hne.symm, Function.update_self, List.nil_append]
          have hleft : rest'.length + ys.length < turns := by omega
          obtain ⟨M', hloop, h'⟩ := ih h₁ hdest₁ hsrc₁ hleft
          refine ⟨M', ?_, ?_⟩
          · have hpass : rest_.length < turns := by omega
            have hskip := skipLoop_eq order h hdest hsrc hpass
            have hbegin : dlistBegin M src = some (.node y.1) := h.begin hsrc
            have hnext : dlistNext M (.node y.1) = some (position src ys) := by
              have hsplit : contents src = some ([] ++ y :: ys) := hsrc
              exact h.next_node hsplit
            rw [hrest'] at hskip
            unfold mergeLoop
            have hsplice : dlistSplice M (position dest rest') (.node y.1) (position src ys) = some (M₁, last) :=
              hsplice
            simp only [h.isEmpty hsrc, hskip, hbegin, hnext, hsplice, bind, Option.bind_some]
            exact hloop
          · have hcontents : Function.update (Function.update (Function.update (Function.update contents src
                (some ([] ++ ys))) dest (some ((done_ ++ skipped) ++ [y] ++ rest'))) src (some [])) dest
                (some ((done_ ++ skipped ++ [y]) ++ List.merge ys rest' (goesFirst order))) =
                Function.update (Function.update contents src (some [])) dest
                  (some (done_ ++ (skipped ++ y :: List.merge ys rest' (goesFirst order)))) := by
              rw [Function.update_comm hne.symm, Function.update_idem, Function.update_comm hne, Function.update_idem]
              simp only [List.append_assoc, List.singleton_append]
            rw [merge_cons_left, hskipped, hrest', ← hcontents]
            exact h'

/-! ## The lists afterwards -/

/-- The elements are in order: none comes after one behind it. -/
def SortedBy (order : Comparator α) (xs : List (Nat × α)) : Prop := xs.Pairwise fun a b => 0 ≤ order.compare a.2 b.2

/-- Backward, the links lead through the nodes in reverse. -/
theorem WellFormed.backward (h : WellFormed M contents) (hlist : contents list = some xs) :
    Links (dlistPrev M) (dlistNext M) (nodes list xs).reverse := by
  have hlinks := h.linked.links list
  rw [nodesOf_eq hlist] at hlinks
  exact hlinks.reverse

theorem goesFirst_trans (x y z : Nat × α) (hxy : goesFirst order x y = true) (hyz : goesFirst order y z = true) :
    goesFirst order x z = true :=
  decide_eq_true (order.trans _ _ _ (of_decide_eq_true hxy) (of_decide_eq_true hyz))

theorem goesFirst_total (x y : Nat × α) : (goesFirst order x y || goesFirst order y x) = true := by
  have hswap := order.swap y.2 x.2
  simp only [goesFirst, Bool.or_eq_true, decide_eq_true_eq]
  omega

/-- **`SortedListMerge`** of two sorted lists ends, and then

    * the destination is sorted and has the nodes of both lists, the nodes of each in their order;
    * a node of the source is in front of the nodes of the destination that are equal to it;
    * the source is empty, and both lists are linked forward and backward. -/
theorem sortedListMerge_sorted (h : WellFormed M contents) (hne : dest ≠ src) (hdest : contents dest = some xs)
    (hsrc : contents src = some ys) (hxs : SortedBy order xs) (hys : SortedBy order ys) {turns : Nat}
    (hturns : xs.length + ys.length < turns) :
    ∃ M' zs, sortedListMerge order.compare M dest src turns = some M' ∧
      WellFormed M' (Function.update (Function.update contents src (some [])) dest (some zs)) ∧
      SortedBy order zs ∧ zs.Perm (xs ++ ys) ∧ xs.Sublist zs ∧ ys.Sublist zs ∧
      (∀ x ∈ xs, ∀ y ∈ ys, order.compare y.2 x.2 = 0 → [y, x].Sublist zs) ∧
      Links (dlistPrev M') (dlistNext M') (nodes dest zs).reverse ∧
      Links (dlistPrev M') (dlistNext M') (nodes src ([] : List (Nat × α))).reverse := by
  have hsplit : contents dest = some ([] ++ xs) := hdest
  obtain ⟨M', hloop, h'⟩ := mergeLoop_eq order h hne hsplit hsrc hturns
  rw [List.nil_append] at h'
  have hsorted : ∀ {zs : List (Nat × α)}, SortedBy order zs ↔ zs.Pairwise fun a b => goesFirst order a b = true := by
    intro zs
    simp only [SortedBy, goesFirst, decide_eq_true_eq]
  refine ⟨M', List.merge ys xs (goesFirst order), ?_, h', ?_, ?_, sublist_merge_right ys xs, sublist_merge_left ys xs,
    ?_, h'.backward (Function.update_self _ _ _), h'.backward ?_⟩
  · unfold sortedListMerge
    rw [h.begin hdest]
    exact hloop
  · exact hsorted.mpr (List.pairwise_merge goesFirst_trans goesFirst_total ys xs (hsorted.mp hys) (hsorted.mp hxs))
  · exact (List.merge_perm_append (goesFirst order)).trans List.perm_append_comm
  · intro x hx y hy hequal
    exact pair_sublist_merge goesFirst_trans (hsorted.mp hys) hy hx (decide_eq_true (Int.le_of_eq hequal.symm))
  · rw [Function.update_of_ne hne.symm, Function.update_self]

/-- 5 and 6 are merged into the empty list, less numbers first. -/
theorem sortedListMerge_sorted_sample :
    ∃ M' zs, sortedListMerge Comparator.byDifference.reverse.compare sample 1 0 3 = some M' ∧
      WellFormed M' (Function.update (Function.update sampleContents 0 (some [])) 1 (some zs)) ∧
      zs.Perm [(1, 5), (2, 6)] := by
  have hsorted : SortedBy Comparator.byDifference.reverse [(1, 5), (2, 6)] := by
    refine List.pairwise_pair.mpr ?_
    show (0 : Int) ≤ 6 - 5
    decide
  have hempty : SortedBy Comparator.byDifference.reverse ([] : List (Nat × Int)) := List.Pairwise.nil
  have hne : 1 ≠ 0 := by decide
  have hturns : ([] : List (Nat × Int)).length + [((1 : Nat), (5 : Int)), (2, 6)].length < 3 := by decide
  obtain ⟨M', zs, hmerge, h', -, hperm, -⟩ :=
    sortedListMerge_sorted sample_wellFormed hne rfl rfl hempty hsorted hturns
  exact ⟨M', zs, hmerge, h', hperm⟩

end Workbench.SharedDlist
