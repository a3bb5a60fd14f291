import Workbench.Lib.BinaryHeap

/-!
# `Lib.Sorting` — parts of a list in order

What a sort in place does to a list, by indices: a part of it is rearranged, is in order, or comes before another part.

## Main results
* `Rearranged` — the elements of a part trade places, and nothing else changes;
* `SortedOn.keep`, `Before.keep` — what a rearrangement leaves in order;
* `SortedOn.glue` — two parts in order, one before the other;
* `SortedOn.pairwise` — the whole list;
* `Rearranged.splice`, `SortedOn.splice` — a part is replaced.
-/

namespace Workbench

open BinaryHeap (Swapped)

variable {α : Type} {le : α → α → Prop} {xs ys zs : List α} {lo m hi i j : Nat} {x y : α}

/-! ## A part taken out -/

/-- The elements from `lo` up to `hi`. -/
def slice (xs : List α) (lo hi : Nat) : List α := (xs.drop lo).take (hi - lo)

theorem slice_length (h : hi ≤ xs.length) : (slice xs lo hi).length = hi - lo := by
  rw [slice, List.length_take, List.length_drop]
  omega

theorem getElem?_slice (h : lo + i < hi) : (slice xs lo hi)[i]? = xs[lo + i]? := by
  rw [slice, List.getElem?_take_of_lt (by omega), List.getElem?_drop]

/-- The elements of a part are some of the elements at its indices. -/
theorem mem_slice (hx : x ∈ slice xs lo hi) : ∃ i, lo ≤ i ∧ i < hi ∧ xs[i]? = some x := by
  obtain ⟨i, hi', hget⟩ := List.getElem_of_mem hx
  have hlt : i < hi - lo := lt_of_lt_of_le hi' (List.length_take_le _ _)
  refine ⟨lo + i, Nat.le_add_right lo i, by omega, ?_⟩
  rw [← getElem?_slice (show lo + i < hi by omega), List.getElem?_eq_getElem hi', hget]

theorem drop_drop_sub (h : lo ≤ m) (xs : List α) : (xs.drop lo).drop (m - lo) = xs.drop m := by
  rw [List.drop_drop]
  congr 1
  omega

theorem slice_append (hlo : lo ≤ m) (hhi : m ≤ hi) : slice xs lo m ++ slice xs m hi = slice xs lo hi := by
  rw [slice, slice, slice, ← drop_drop_sub hlo, show hi - lo = (m - lo) + (hi - m) by omega, List.take_add]

/-- What is in front of a part, the part and what is behind it. -/
theorem take_slice_drop (h : lo ≤ hi) (xs : List α) : xs.take lo ++ slice xs lo hi ++ xs.drop hi = xs := by
  rw [slice, ← drop_drop_sub h, List.append_assoc, List.take_append_drop, List.take_append_drop]

/-! ## Rearranged parts and parts in order -/

/-- **The elements from `lo` up to `hi` trade places.** -/
structure Rearranged (lo hi : Nat) (xs ys : List α) : Prop where
  perm : ys.Perm xs
  outside (i : Nat) : ¬ (lo ≤ i ∧ i < hi) → ys[i]? = xs[i]?

/-- **In order** from `lo` up to `hi`. -/
def SortedOn (le : α → α → Prop) (lo hi : Nat) (xs : List α) : Prop :=
  ∀ i j x y, lo ≤ i → i < j → j < hi → xs[i]? = some x → xs[j]? = some y → le x y

/-- What is from `lo` up to `m` comes before what is from `m` up to `hi`. -/
def Before (le : α → α → Prop) (lo m hi : Nat) (xs : List α) : Prop :=
  ∀ i j x y, lo ≤ i → i < m → m ≤ j → j < hi → xs[i]? = some x → xs[j]? = some y → le x y

namespace Rearranged

theorem refl (lo hi : Nat) (xs : List α) : Rearranged lo hi xs xs := ⟨List.Perm.refl xs, fun _ _ => rfl⟩

theorem symm (h : Rearranged lo hi xs ys) : Rearranged lo hi ys xs := ⟨h.perm.symm, fun i hi => (h.outside i hi).symm⟩

theorem trans (h : Rearranged lo hi xs ys) (h' : Rearranged lo hi ys zs) : Rearranged lo hi xs zs :=
  ⟨h'.perm.trans h.perm, fun i hi => (h'.outside i hi).trans (h.outside i hi)⟩

theorem length (h : Rearranged lo hi xs ys) : ys.length = xs.length := h.perm.length_eq

/-- A part of a part. -/
theorem mono (h : Rearranged i j xs ys) (hlo : lo ≤ i) (hhi : j ≤ hi) : Rearranged lo hi xs ys :=
  ⟨h.perm, fun k hk => h.outside k (by omega)⟩

/-- The part has the same elements. -/
theorem slice (h : Rearranged lo hi xs ys) (hle : lo ≤ hi) : (slice ys lo hi).Perm (slice xs lo hi) := by
  have htake : ys.take lo = xs.take lo := by
    refine List.ext_getElem? fun i => ?_
    rcases Nat.lt_or_ge i lo with hi | hi
    · rw [List.getElem?_take_of_lt hi, List.getElem?_take_of_lt hi, h.outside i (by omega)]
    · rw [List.getElem?_eq_none (by simp; omega), List.getElem?_eq_none (by simp; omega)]
  have hdrop : ys.drop hi = xs.drop hi := by
    refine List.ext_getElem? fun i => ?_
    rw [List.getElem?_drop, List.getElem?_drop, h.outside (hi + i) (by omega)]
  have hperm := h.perm
  rw [← take_slice_drop hle ys, ← take_slice_drop hle xs, htake, hdrop, List.perm_append_right_iff,
    List.perm_append_left_iff] at hperm
  exact hperm

/-- Where the elements of the part come from. -/
theorem inside (h : Rearranged lo hi xs ys) {k : Nat} (hlo : lo ≤ k) (hhi : k < hi) :
    ∃ j, lo ≤ j ∧ j < hi ∧ ys[k]? = xs[j]? := by
  cases hx : ys[k]? with
  | none =>
      refine ⟨k, hlo, hhi, (List.getElem?_eq_none ?_).symm⟩
      rw [← h.length]
      exact List.getElem?_eq_none_iff.mp hx
  | some x =>
      have hmem : x ∈ Workbench.slice ys lo hi := by
        refine List.mem_of_getElem? (i := k - lo) ?_
        rw [getElem?_slice (show lo + (k - lo) < hi by omega), Nat.add_sub_cancel' hlo, hx]
      obtain ⟨j, hjlo, hjhi, hj⟩ := mem_slice ((h.slice (by omega)).mem_iff.mp hmem)
      exact ⟨j, hjlo, hjhi, hj.symm⟩

/-- Where the elements of another part come from that holds the part, or has nothing of it. -/
theorem source (h : Rearranged i j xs ys) (hpart : lo ≤ i ∧ j ≤ hi ∨ j ≤ lo ∨ hi ≤ i) {k : Nat} (hk : lo ≤ k)
    (hk' : k < hi) : ∃ l, lo ≤ l ∧ l < hi ∧ ys[k]? = xs[l]? := by
  by_cases hin : i ≤ k ∧ k < j
  · obtain ⟨l, hllo, hlhi, hl⟩ := h.inside hin.1 hin.2
    exact ⟨l, by omega, by omega, hl⟩
  · exact ⟨k, hk, hk', h.outside k hin⟩

/-- Two elements of the part. -/
theorem of_swapped (h : Swapped xs i j ys) (hi' : lo ≤ i ∧ i < hi) (hj' : lo ≤ j ∧ j < hi) :
    Rearranged lo hi xs ys :=
  ⟨h.perm, fun k hk => h.others k (fun heq => hk (heq ▸ hi')) (fun heq => hk (heq ▸ hj'))⟩

end Rearranged

/-- Other elements are rearranged. -/
theorem SortedOn.keep (h : SortedOn le lo hi xs) (hrest : Rearranged i j xs ys) (hout : j ≤ lo ∨ hi ≤ i) :
    SortedOn le lo hi ys := by
  intro k l x y hk hkl hl hx hy
  rw [hrest.outside k (by omega)] at hx
  rw [hrest.outside l (by omega)] at hy
  exact h k l x y hk hkl hl hx hy

/-- Elements of one of the parts are rearranged, or others. -/
theorem Before.keep (h : Before le lo m hi xs) (hrest : Rearranged i j xs ys)
    (hleft : lo ≤ i ∧ j ≤ m ∨ j ≤ lo ∨ m ≤ i) (hright : m ≤ i ∧ j ≤ hi ∨ j ≤ m ∨ hi ≤ i) : Before le lo m hi ys := by
  intro k l x y hk hkm hml hl hx hy
  obtain ⟨k', hk', hkm', hk''⟩ := hrest.source hleft hk hkm
  obtain ⟨l', hml', hl', hl''⟩ := hrest.source hright hml hl
  exact h k' l' x y hk' hkm' hml' hl' (hk'' ▸ hx) (hl'' ▸ hy)

/-- **Two parts in order**, one before the other. -/
theorem SortedOn.glue (hleft : SortedOn le lo m xs) (hright : SortedOn le m hi xs) (h : Before le lo m hi xs) :
    SortedOn le lo hi xs := by
  intro i j x y hlo hij hhi hx hy
  rcases Nat.lt_or_ge j m with hj | hj
  · exact hleft i j x y hlo hij hj hx hy
  rcases Nat.lt_or_ge i m with hi' | hi'
  · exact h i j x y hlo hi' hj hhi hx hy
  · exact hright i j x y hi' hij hhi hx hy

/-- A part that has no two elements. -/
theorem sortedOn_of_le (h : hi ≤ lo + 1) : SortedOn le lo hi xs := fun i j _ _ hlo hij hhi => by omega

theorem SortedOn.pairwise (h : SortedOn le 0 xs.length xs) : xs.Pairwise le := by
  rw [List.pairwise_iff_getElem]
  intro i j hi hj hij
  exact h i j _ _ (Nat.zero_le i) hij hj (List.getElem?_eq_getElem hi) (List.getElem?_eq_getElem hj)

theorem SortedOn.of_pairwise (h : xs.Pairwise le) (lo hi : Nat) : SortedOn le lo hi xs := by
  intro i j x y _ hij _ hx hy
  obtain ⟨hil, rfl⟩ := List.getElem?_eq_some_iff.mp hx
  obtain ⟨hjl, rfl⟩ := List.getElem?_eq_some_iff.mp hy
  exact List.pairwise_iff_getElem.mp h i j hil hjl hij

/-! ## A part replaced -/

/-- Other elements from `lo` up to `hi`. -/
def splice (xs : List α) (lo hi : Nat) (ys : List α) : List α := xs.take lo ++ ys ++ xs.drop hi

theorem SortedOn.slice (h : SortedOn le lo hi xs) : (slice xs lo hi).Pairwise le := by
  rw [List.pairwise_iff_getElem]
  intro i j hi' hj hij
  have hlt : j < hi - lo := lt_of_lt_of_le hj (List.length_take_le _ _)
  refine h (lo + i) (lo + j) _ _ (by omega) (by omega) (by omega) ?_ ?_
  · rw [← getElem?_slice (show lo + i < hi by omega), List.getElem?_eq_getElem hi']
  · rw [← getElem?_slice (show lo + j < hi by omega), List.getElem?_eq_getElem hj]

theorem getElem?_splice (hlo : lo ≤ hi) (hhi : hi ≤ xs.length) (hys : ys.length = hi - lo) (k : Nat) :
    (splice xs lo hi ys)[k]? = if lo ≤ k ∧ k < hi then ys[k - lo]? else xs[k]? := by
  have htake : (xs.take lo).length = lo := List.length_take_of_le (hlo.trans hhi)
  have hboth : (xs.take lo ++ ys).length = hi := by
    rw [List.length_append, htake, hys]
    omega
  rcases Nat.lt_or_ge k lo with hk | hk
  · rw [splice, List.getElem?_append_left (by omega), List.getElem?_append_left (by omega), if_neg (by omega),
      List.getElem?_take_of_lt hk]
  rcases Nat.lt_or_ge k hi with hk' | hk'
  · rw [splice, List.getElem?_append_left (by omega), List.getElem?_append_right (by omega), if_pos ⟨hk, hk'⟩, htake]
  · rw [splice, List.getElem?_append_right (by omega), if_neg (by omega), List.getElem?_drop, hboth]
    congr 1
    omega

/-- **A part is replaced** by its elements in another order. -/
theorem Rearranged.splice (hlo : lo ≤ hi) (hhi : hi ≤ xs.length) (hperm : ys.Perm (Workbench.slice xs lo hi)) :
    Rearranged lo hi xs (Workbench.splice xs lo hi ys) := by
  have hys : ys.length = hi - lo := hperm.length_eq.trans (slice_length hhi)
  refine ⟨?_, fun k hk => ?_⟩
  · have hswap : (Workbench.splice xs lo hi ys).Perm (xs.take lo ++ Workbench.slice xs lo hi ++ xs.drop hi) :=
      (hperm.append_left _).append_right _
    rwa [take_slice_drop hlo] at hswap
  · rw [getElem?_splice hlo hhi hys, if_neg hk]

theorem SortedOn.splice (hlo : lo ≤ hi) (hhi : hi ≤ xs.length) (hys : ys.length = hi - lo) (h : ys.Pairwise le) :
    SortedOn le lo hi (splice xs lo hi ys) := by
  intro i j x y hi' hij hj hx hy
  rw [getElem?_splice hlo hhi hys, if_pos ⟨hi', by omega⟩] at hx
  rw [getElem?_splice hlo hhi hys, if_pos ⟨by omega, hj⟩] at hy
  obtain ⟨hil, rfl⟩ := List.getElem?_eq_some_iff.mp hx
  obtain ⟨hjl, rfl⟩ := List.getElem?_eq_some_iff.mp hy
  exact List.pairwise_iff_getElem.mp h _ _ hil hjl (by omega)

end Workbench
