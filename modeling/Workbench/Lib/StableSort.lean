import Mathlib.Data.List.Lex
import Mathlib.Order.Lattice
import Mathlib.Tactic.Common

/-!
# `Lib.StableSort` — sorting by a key, with the elements of one key as they were

An element goes behind all those with a smaller key, and behind those with its own key that were in front of it. Sorting
by one key after the other is sorting by both, the last one first.

## Main results
* `exists_stableSortBy` — there is such an order;
* `StableSortBy.place_between`, `StableSortBy.getElem?_place` — where an element of the list goes;
* `StableSortBy.trans` — one key after the other;
* `StableSortBy.pairwise_iff` — when the result is in another order too.
-/

namespace Workbench

section

variable {α : Type} {R : α → α → Prop} {p : α → Bool} {xs : List α} {x y : α} {i : Nat}

/-- A list in order is cut in two by what holds of a front part of it. -/
theorem filter_append_filter_not (h : xs.Pairwise R) (hp : ∀ x y, R x y → p y = true → p x = true) :
    xs.filter p ++ xs.filter (fun x => !p x) = xs := by
  induction xs with
  | nil => rfl
  | cons x xs ih =>
      obtain ⟨hx, hxs⟩ := List.pairwise_cons.mp h
      have hcut := ih hxs
      cases hpx : p x with
      | true => rw [List.filter_cons_of_pos hpx, List.filter_cons_of_neg (by simp [hpx]), List.cons_append, hcut]
      | false =>
          have hnone : xs.filter p = [] := by
            rw [List.filter_eq_nil_iff]
            intro y hy hpy
            rw [hp x y (hx y hy) hpy] at hpx
            cases hpx
          rw [hnone, List.nil_append] at hcut
          rw [List.filter_cons_of_neg (by simp [hpx]), List.filter_cons_of_pos (by simp [hpx]), hnone, hcut,
            List.nil_append]

/-- Where an element of the list is among those that the filter keeps. -/
theorem getElem?_filter_countP (hx : xs[i]? = some x) (hp : p x = true) :
    (xs.filter p)[(xs.take i).countP p]? = some x := by
  induction xs generalizing i with
  | nil => cases hx
  | cons y xs ih =>
      cases i with
      | zero =>
          obtain rfl := Option.some.inj hx
          rw [List.filter_cons_of_pos hp]
          rfl
      | succ i =>
          have hget := ih (show xs[i]? = some x from hx)
          rw [List.take_succ_cons]
          by_cases hpy : p y = true
          · rwa [List.filter_cons_of_pos hpy, List.countP_cons_of_pos hpy, List.getElem?_cons_succ]
          · rwa [List.filter_cons_of_neg hpy, List.countP_cons_of_neg hpy]

theorem countP_take_succ (hx : xs[i]? = some x) :
    (xs.take (i + 1)).countP p = (xs.take i).countP p + if p x then 1 else 0 := by
  rw [List.take_add_one, hx, Option.toList_some, List.countP_append, List.countP_singleton]

/-- Two elements are in one order or in the other one. -/
theorem pair_sublist_or (hx : x ∈ xs) (hy : y ∈ xs) (hne : x ≠ y) : [x, y].Sublist xs ∨ [y, x].Sublist xs := by
  induction xs with
  | nil => cases hx
  | cons z xs ih =>
      rcases List.mem_cons.mp hx with rfl | hx'
      · have hy' := (List.mem_cons.mp hy).resolve_left (Ne.symm hne)
        exact .inl ((List.singleton_sublist.mpr hy').cons_cons x)
      · rcases List.mem_cons.mp hy with rfl | hy'
        · exact .inr ((List.singleton_sublist.mpr hx').cons_cons y)
        · exact (ih hx' hy').imp (·.cons z) (·.cons z)

end

variable {α κ : Type} [LinearOrder κ] {key : α → κ} {xs ys zs : List α} {x y : α} {i j : Nat} {c : κ}

/-- **In the order of a key**, and the elements of one key in the order in which they were. -/
structure StableSortBy (key : α → κ) (xs ys : List α) : Prop where
  perm : ys.Perm xs
  sorted : ys.Pairwise fun x y => key x ≤ key y
  stable (c : κ) : ys.filter (fun x => decide (key x = c)) = xs.filter fun x => decide (key x = c)

/-- So many elements have a smaller key. -/
def below (key : α → κ) (c : κ) (xs : List α) : Nat := xs.countP fun x => decide (key x < c)

/-- So many elements have the key. -/
def having (key : α → κ) (c : κ) (xs : List α) : Nat := xs.countP fun x => decide (key x = c)

/-- **There is such an order.** -/
theorem exists_stableSortBy (key : α → κ) (xs : List α) : ∃ ys, StableSortBy key xs ys := by
  have htrans : ∀ x y z : α, decide (key x ≤ key y) = true → decide (key y ≤ key z) = true →
      decide (key x ≤ key z) = true := fun x y z hxy hyz =>
    decide_eq_true ((of_decide_eq_true hxy).trans (of_decide_eq_true hyz))
  have htotal : ∀ x y : α, (decide (key x ≤ key y) || decide (key y ≤ key x)) = true := fun x y => by
    rw [Bool.or_eq_true, decide_eq_true_iff, decide_eq_true_iff]
    exact le_total _ _
  have hperm := List.mergeSort_perm xs fun x y => decide (key x ≤ key y)
  refine ⟨_, hperm, (List.pairwise_mergeSort htrans htotal xs).imp of_decide_eq_true, fun c => ?_⟩
  -- the elements with the key are a part of both lists, in order, and of the same length
  have hpart : (xs.filter fun x => decide (key x = c)).Pairwise fun x y => decide (key x ≤ key y) = true := by
    refine List.pairwise_of_forall_mem_list fun x hx y hy => decide_eq_true (le_of_eq ?_)
    rw [of_decide_eq_true (List.mem_filter.mp hx).2, of_decide_eq_true (List.mem_filter.mp hy).2]
  have hsub := (List.sublist_mergeSort htrans htotal hpart List.filter_sublist).filter fun x => decide (key x = c)
  rw [List.filter_filter] at hsub
  simp only [Bool.and_self] at hsub
  exact (hsub.eq_of_length (hperm.filter _).length_eq.symm).symm

theorem StableSortBy.refl (h : xs.Pairwise fun x y => key x ≤ key y) : StableSortBy key xs xs :=
  ⟨List.Perm.refl xs, h, fun _ => rfl⟩

/-- The elements with smaller keys, those with the key, and the others. -/
theorem StableSortBy.cut (h : StableSortBy key xs ys) (c : κ) :
    ys.filter (fun x => decide (key x < c)) ++ ys.filter (fun x => decide (key x = c)) ++
      ys.filter (fun x => !decide (key x ≤ c)) = ys := by
  have hcut := filter_append_filter_not (p := fun x => decide (key x ≤ c)) h.sorted fun x y hxy hy =>
    decide_eq_true (hxy.trans (of_decide_eq_true hy))
  have hfront := filter_append_filter_not (p := fun x => decide (key x < c))
    (h.sorted.sublist (List.filter_sublist (p := fun x => decide (key x ≤ c)))) fun x y hxy hy =>
      decide_eq_true (lt_of_le_of_lt hxy (of_decide_eq_true hy))
  rw [List.filter_filter, List.filter_filter] at hfront
  have hlt : ys.filter (fun x => decide (key x < c) && decide (key x ≤ c)) = ys.filter fun x => decide (key x < c) :=
    List.filter_congr fun x _ => by
      rw [← Bool.decide_and, decide_eq_decide]
      exact and_iff_left_of_imp le_of_lt
  have heq : ys.filter (fun x => !decide (key x < c) && decide (key x ≤ c)) = ys.filter fun x => decide (key x = c) :=
    List.filter_congr fun x _ => by
      rw [← decide_not, ← Bool.decide_and, decide_eq_decide, not_lt, and_comm]
      exact le_antisymm_iff.symm
  rw [← hlt, ← heq, hfront, hcut]

theorem StableSortBy.length_lt (h : StableSortBy key xs ys) (c : κ) :
    (ys.filter fun x => decide (key x < c)).length = below key c xs := by
  rw [below, ← h.perm.countP_eq, List.countP_eq_length_filter]

theorem StableSortBy.length_eq (h : StableSortBy key xs ys) (c : κ) :
    (ys.filter fun x => decide (key x = c)).length = having key c xs := by
  rw [having, ← h.perm.countP_eq, List.countP_eq_length_filter]

/-- **The elements of a key are behind those with smaller keys**, and there are so many of them. -/
theorem StableSortBy.place_between (h : StableSortBy key xs ys) (hy : ys[j]? = some y) :
    below key (key y) xs ≤ j ∧ j < below key (key y) xs + having key (key y) xs := by
  have hlt := h.length_lt (key y)
  have heq := h.length_eq (key y)
  rw [← h.cut (key y)] at hy
  constructor
  · by_contra hfront
    rw [List.getElem?_append_left (by rw [List.length_append]; omega), List.getElem?_append_left (by omega)] at hy
    exact lt_irrefl _ (of_decide_eq_true (List.mem_filter.mp (List.mem_of_getElem? hy)).2)
  · by_contra hback
    rw [List.getElem?_append_right (by rw [List.length_append]; omega)] at hy
    have hgt := (List.mem_filter.mp (List.mem_of_getElem? hy)).2
    rw [decide_eq_true (le_refl (key y))] at hgt
    cases hgt

/-- **Where an element of the list goes.** -/
theorem StableSortBy.getElem?_place (h : StableSortBy key xs ys) (hx : xs[i]? = some x) :
    ys[below key (key x) xs + having key (key x) (xs.take i)]? = some x := by
  have hget : (ys.filter fun y => decide (key y = key x))[having key (key x) (xs.take i)]? = some x := by
    rw [h.stable]
    exact getElem?_filter_countP hx (decide_eq_true rfl)
  have hlt := (List.getElem?_eq_some_iff.mp hget).1
  have hbelow := h.length_lt (key x)
  rw [← h.cut (key x), List.getElem?_append_left (by rw [List.length_append]; omega),
    List.getElem?_append_right (by omega), hbelow, Nat.add_sub_cancel_left, hget]

/-! ## One key after the other -/

theorem filter_pair (heq : key x = key y) : [x, y].filter (fun z => decide (key z = key y)) = [x, y] := by
  simp [heq]

/-- Two elements of one key stay in their order. -/
theorem StableSortBy.pair_of_eq (h : StableSortBy key xs ys) (hpair : [x, y].Sublist ys) (heq : key x = key y) :
    [x, y].Sublist xs := by
  have hkeys := hpair.filter fun z => decide (key z = key y)
  rw [h.stable, filter_pair heq] at hkeys
  exact hkeys.trans List.filter_sublist

theorem StableSortBy.symm_pair_of_eq (h : StableSortBy key xs ys) (hpair : [x, y].Sublist xs) (heq : key x = key y) :
    [x, y].Sublist ys := by
  have hkeys := hpair.filter fun z => decide (key z = key y)
  rw [← h.stable, filter_pair heq] at hkeys
  exact hkeys.trans List.filter_sublist

theorem StableSortBy.pair_of_lt (h : StableSortBy key xs ys) (hx : x ∈ xs) (hy : y ∈ xs) (hlt : key x < key y) :
    [x, y].Sublist ys := by
  have hne : x ≠ y := fun heq => absurd (congrArg key heq) (ne_of_lt hlt)
  rcases pair_sublist_or (h.perm.mem_iff.mpr hx) (h.perm.mem_iff.mpr hy) hne with hpair | hpair
  · exact hpair
  · have hle := List.pairwise_iff_forall_sublist.mp h.sorted hpair
    exact absurd hlt (not_lt_of_ge hle)

/-- **Sorting by one key and then by another one** is sorting by the second one first. -/
theorem StableSortBy.trans {κ' κ'' : Type} [LinearOrder κ'] [LinearOrder κ''] {key' : α → κ'} {both : α → κ''}
    (h : StableSortBy key xs ys) (h' : StableSortBy key' ys zs)
    (hboth : ∀ x y, both x ≤ both y ↔ key' x < key' y ∨ key' x = key' y ∧ key x ≤ key y) :
    StableSortBy both xs zs := by
  have heq : ∀ x y, both x = both y ↔ key x = key y ∧ key' x = key' y := by
    intro x y
    rw [le_antisymm_iff, hboth, hboth]
    constructor
    · rintro ⟨hlt | ⟨heq, hle⟩, hlt' | ⟨heq', hle'⟩⟩
      · exact absurd hlt' (not_lt_of_gt hlt)
      · exact absurd heq'.symm (ne_of_lt hlt)
      · exact absurd heq.symm (ne_of_lt hlt')
      · exact ⟨le_antisymm hle hle', heq⟩
    · rintro ⟨hkey, hkey'⟩
      exact ⟨.inr ⟨hkey', le_of_eq hkey⟩, .inr ⟨hkey'.symm, le_of_eq hkey.symm⟩⟩
  refine ⟨h'.perm.trans h.perm, List.pairwise_iff_forall_sublist.mpr fun {x y} hpair => (hboth x y).mpr ?_, fun c => ?_⟩
  · rcases lt_or_eq_of_le (List.pairwise_iff_forall_sublist.mp h'.sorted hpair) with hlt | hkey'
    · exact .inl hlt
    · exact .inr ⟨hkey', List.pairwise_iff_forall_sublist.mp h.sorted (h'.pair_of_eq hpair hkey')⟩
  · by_cases hc : ∃ w, both w = c
    · obtain ⟨w, rfl⟩ := hc
      -- those with both keys are those with the one key among those with the other one
      have hsplit : ∀ vs : List α, vs.filter (fun x => decide (both x = both w)) =
          (vs.filter fun x => decide (key' x = key' w)).filter fun x => decide (key x = key w) := by
        intro vs
        rw [List.filter_filter]
        refine List.filter_congr fun x _ => ?_
        rw [← Bool.decide_and, decide_eq_decide, heq]
      rw [hsplit, hsplit, h'.stable, List.filter_filter, List.filter_filter]
      simp only [Bool.and_comm (decide (key _ = key w))]
      rw [← List.filter_filter, ← List.filter_filter, h.stable]
    · have hnone : ∀ vs : List α, vs.filter (fun x => decide (both x = c)) = [] := fun vs =>
        List.filter_eq_nil_iff.mpr fun x _ hx => hc ⟨x, of_decide_eq_true hx⟩
      rw [hnone, hnone]

/-- **When the result is in another order too**: two elements go where that order has them. -/
theorem StableSortBy.pairwise_iff {R : α → α → Prop} (h : StableSortBy key xs ys) :
    ys.Pairwise R ↔ xs.Pairwise fun x y => (key x ≤ key y → R x y) ∧ (key y < key x → R y x) := by
  rw [List.pairwise_iff_forall_sublist, List.pairwise_iff_forall_sublist]
  constructor
  · intro hR x y hpair
    have hx : x ∈ xs := hpair.subset List.mem_cons_self
    have hy : y ∈ xs := hpair.subset (List.mem_cons_of_mem x List.mem_cons_self)
    refine ⟨fun hle => hR ?_, fun hlt => hR (h.pair_of_lt hy hx hlt)⟩
    exact (lt_or_eq_of_le hle).elim (h.pair_of_lt hx hy) (h.symm_pair_of_eq hpair)
  · intro hR x y hpair
    rcases lt_or_eq_of_le (List.pairwise_iff_forall_sublist.mp h.sorted hpair) with hlt | heq
    · have hx : x ∈ xs := h.perm.mem_iff.mp (hpair.subset List.mem_cons_self)
      have hy : y ∈ xs := h.perm.mem_iff.mp (hpair.subset (List.mem_cons_of_mem x List.mem_cons_self))
      have hne : x ≠ y := fun heq => absurd (congrArg key heq) (ne_of_lt hlt)
      rcases pair_sublist_or hx hy hne with hpair | hpair
      · exact (hR hpair).1 (le_of_lt hlt)
      · exact (hR hpair).2 hlt
    · exact (hR (h.pair_of_eq hpair heq)).1 (le_of_eq heq)

end Workbench
