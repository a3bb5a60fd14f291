import Workbench.Heap.Order
import Workbench.Heap.Remove

/-!
# `Heap.RemoveFirst` — `HeapRemove` with a match function that returns 0 on a match

The search ends at the first match, and on the last element in any case. The last element fills the hole and only moves
down from there.

## Main results
* `heapIfyDown_before` — above the hole nothing changes;
* `heapRemove_removesFirst_iff` — when the first match is removed and the heap stays in order.
-/

namespace Workbench.HeapQueue

open BinaryHeap

variable {α κ : Type} {heap heap' : Heap α} {order : Comparator α} {matchFunc : α → κ → Int} {key : κ}
  {xs zs init : List α} {x data last : α} {i k at_ : Nat}

/-! ## Above the hole -/

/-- What is in the hole in the end compares `>=` to `data`. -/
theorem heapIfyDownLoop_before (hcmp : heap.compareFunc = order.compare) (hsmall : zs.length ≤ 2147483647) {fuel : Nat}
    (hdata : zs[i]? = some data)
    (h : heapIfyDownLoop data fuel (heap.withElements zs) i (bigSon heap.compareFunc zs i) = some heap') :
    (∀ j, j < i → heap'.vector.elements[j]? = zs[j]?) ∧
      ∃ x, heap'.vector.elements[i]? = some x ∧ Above order x data := by
  induction fuel generalizing i zs with
  | zero => cases h
  | succ fuel ih =>
      have hstays : some (heap.withElements zs) = some heap' →
          (∀ j, j < i → heap'.vector.elements[j]? = zs[j]?) ∧
            ∃ x, heap'.vector.elements[i]? = some x ∧ Above order x data := by
        intro hheap'
        obtain rfl := Option.some.inj hheap'
        exact ⟨fun _ _ => rfl, data, hdata, above_refl order data⟩
      rcases bigSon_cases heap.compareFunc zs i with ⟨-, hself⟩ | ⟨x, hchild, hx, -⟩
      · -- at a leaf, `data` is compared with itself
        have hzero : ¬ 0 < heap.compareFunc data data := by
          rw [hcmp, order.self]
          exact lt_irrefl 0
        rw [hself, heapIfyDownLoop_turn hsmall hdata hdata, if_neg fun h => hzero h.2] at h
        exact hstays h
      · rw [heapIfyDownLoop_turn hsmall hdata hx] at h
        split at h
        · next hdown =>
            have hlt := hchild.lt
            have hswap := swapped_set hdata hx
            obtain ⟨hbefore, -⟩ := ih (by rwa [hswap.length]) (hswap.right.trans hdata) h
            refine ⟨fun j hj => ?_, x, ?_, ?_⟩
            · rw [hbefore j (hj.trans hlt), hswap.others j hj.ne (hj.trans hlt).ne]
            · rw [hbefore i hlt, hswap.left, hx]
            · have hdown' := hdown.2
              rw [hcmp] at hdown'
              exact Int.le_of_lt hdown'
        · exact hstays h

theorem heapIfyDown_before (hcmp : heap.compareFunc = order.compare) (hsmall : xs.length ≤ 2147483647)
    (hdata : xs[k]? = some data) (h : heapIfyDown (heap.withElements xs) k data = some heap') :
    (∀ j, j < k → heap'.vector.elements[j]? = xs[j]?) ∧
      ∃ x, heap'.vector.elements[k]? = some x ∧ Above order x data := by
  unfold heapIfyDown at h
  rw [getBigChild_eq hsmall, Option.bind_eq_bind, Option.bind_some] at h
  exact heapIfyDownLoop_before hcmp hsmall hdata h

/-! ## The search -/

/-- The first element that matches. -/
def FirstMatch (matchFunc : α → κ → Int) (key : κ) (xs : List α) (i : Nat) (x : α) : Prop :=
  xs[i]? = some x ∧ matchFunc x key = 0 ∧ ∀ j y, j < i → xs[j]? = some y → matchFunc y key ≠ 0

theorem FirstMatch.unique {j : Nat} {y : α} (hx : FirstMatch matchFunc key xs i x)
    (hy : FirstMatch matchFunc key xs j y) : i = j ∧ x = y := by
  obtain ⟨hx, hxmatch, hxfirst⟩ := hx
  obtain ⟨hy, hymatch, hyfirst⟩ := hy
  rcases Nat.lt_trichotomy i j with hlt | rfl | hlt
  · exact absurd hxmatch (hyfirst i x hlt hx)
  · exact ⟨rfl, Option.some.inj (hx.symm.trans hy)⟩
  · exact absurd hymatch (hxfirst j y hlt hy)

/-- What is removed is put together from what is before the last element. -/
theorem heapRemove_eq (helements : heap.vector.elements = init ++ [last]) (hsmall : init.length < 2147483647)
    (matchFunc : α → κ → Int) (key : κ) :
    ∃ at_ x, (at_ = init.length ∨ matchFunc x key = 0) ∧ heap.vector.elements[at_]? = some x ∧
      (∀ j y, j < at_ → heap.vector.elements[j]? = some y → matchFunc y key ≠ 0) ∧
      heapRemove heap matchFunc key =
        if at_ = init.length then some (heap, none)
        else (heapIfyDown (heap.withElements (init.set at_ last)) at_ last).map fun heap => (heap, some x) := by
  have hlength : heap.vector.elements.length = init.length + 1 := by
    rw [helements, List.length_append, List.length_singleton]
  have hlast : vectorGetElement heap.vector (init.length + 1) = some last := by
    rw [vectorGetElement_succ, helements, List.getElem?_concat_length]
  obtain ⟨at_, x, hfind, hx, hstop, hpassed⟩ := heapFind_spec heap matchFunc key
    (show 0 < heap.vector.elements.length by omega) (show _ < 0 + (heap.vector.elements.length + 1) by omega)
    (fun i _ hi => by omega)
  have hlt := (List.getElem?_eq_some_iff.mp hx).1
  refine ⟨at_, x, hstop.imp (fun h => by omega) id, hx, hpassed, ?_⟩
  have hsize : vectorSize heap.vector = some heap.vector.elements.length := vectorSize_eq (by omega)
  unfold heapRemove
  simp only [hsize, bind, Option.bind_some, hfind]
  by_cases hend : at_ = init.length
  · rw [if_pos hend, if_pos (by omega)]
    rfl
  · rw [if_neg hend, if_neg (by omega), hlength, hlast, Option.bind_some, vectorSetElement,
      if_pos ⟨Nat.succ_pos at_, by omega⟩, Option.bind_some, Nat.add_sub_cancel, Option.map_eq_bind]
    unfold vectorPopBack
    rw [helements, dropLast_set _ _ (by omega)]
    rfl

/-! ## What is removed -/

/-- **What `HeapRemove` is to do.** -/
structure RemovesFirst (order : Comparator α) (matchFunc : α → κ → Int) (key : κ) (heap heap' : Heap α)
    (removed : Option α) : Prop where
  found (i : Nat) (x : α) : FirstMatch matchFunc key heap.vector.elements i x →
    removed = some x ∧ heap'.vector.elements.Perm (heap.vector.elements.eraseIdx i)
  missing : (∀ x ∈ heap.vector.elements, matchFunc x key ≠ 0) → removed = none ∧ heap' = heap
  ordered : Ordered (Above order) heap'.vector.elements

/-- The first match is not the last element, and what is above it compares `>=` to the last element. -/
def LastFits (order : Comparator α) (matchFunc : α → κ → Int) (key : κ) (xs : List α) : Prop :=
  ∀ i x last, FirstMatch matchFunc key xs i x → xs.getLast? = some last →
    i + 1 ≠ xs.length ∧ ∀ p y, Child p i → xs[p]? = some y → Above order y last

/-- The last element in the hole, which is not its own place. -/
theorem set_perm_eraseIdx (hlt : k < init.length) (last : α) :
    (init.set k last).Perm ((init ++ [last]).eraseIdx k) := by
  rw [List.eraseIdx_append_of_lt_length hlt]
  exact (List.set_perm_cons_eraseIdx hlt last).trans (List.perm_append_singleton last _).symm

/-- The hole is closed by the last element if what is above it compares `>=` to the last element. -/
theorem heapIfyDown_fills (hcmp : heap.compareFunc = order.compare) (hsmall : init.length ≤ 2147483647)
    (hordered : Ordered (Above order) (init ++ [last])) (hlt : k < init.length)
    (habove : ∀ p y, Child p k → (init ++ [last])[p]? = some y → Above order y last) :
    ∃ ys, heapIfyDown (heap.withElements (init.set k last)) k last = some (heap.withElements ys) ∧
      ys.Perm (init.set k last) ∧ Ordered (Above order) ys := by
  have hold : ∀ i x, i ≠ k → (init.set k last)[i]? = some x → (init ++ [last])[i]? = some x := by
    intro i x hi hx
    rw [List.getElem?_set_ne hi.symm] at hx
    rwa [List.getElem?_append_left (List.getElem?_eq_some_iff.mp hx).1]
  have hsinks : Sinks (Above order) heap.compareFunc (init.set k last) k last := by
    rw [hcmp]
    exact sinks_comparator order _ k last
  refine heapIfyDown_ordered heap (above_trans order) (by rwa [List.length_set]) hsinks
    (List.getElem?_set_self hlt) (hordered.changed (above_trans order) hold) fun p hp y z hy hz => ?_
  rw [List.getElem?_set_self hlt] at hz
  obtain rfl := Option.some.inj hz
  exact habove p y hp (hold p y hp.lt.ne hy)

/-- What is above the hole has stayed, so that it compares `>=` to the last element if the heap is in order. -/
theorem heapIfyDown_fits (hcmp : heap.compareFunc = order.compare) (hsmall : init.length ≤ 2147483647)
    (hlt : k < init.length) (h : heapIfyDown (heap.withElements (init.set k last)) k last = some heap')
    (hordered : Ordered (Above order) heap'.vector.elements) :
    ∀ p y, Child p k → (init ++ [last])[p]? = some y → Above order y last := by
  obtain ⟨hbefore, z, hz, hzlast⟩ := heapIfyDown_before hcmp (by rwa [List.length_set])
    (List.getElem?_set_self hlt) h
  intro p y hp hy
  have hplt := hp.lt
  have hy' : heap'.vector.elements[p]? = some y := by
    rw [hbefore p hplt, List.getElem?_set_ne hplt.ne']
    rwa [List.getElem?_append_left (hplt.trans hlt)] at hy
  exact above_trans order y z last (hordered p k hp y z hy' hz) hzlast

/-- **A hole that is not the last place** is closed in order exactly if what is above it compares `>=` to the last
element. -/
theorem heapIfyDown_removesFirst_iff (hcmp : heap.compareFunc = order.compare)
    (helements : heap.vector.elements = init ++ [last]) (hsmall : init.length ≤ 2147483647)
    (hordered : Ordered (Above order) heap.vector.elements) (hlt : k < init.length)
    (hfirst : FirstMatch matchFunc key heap.vector.elements k x) :
    (∃ heap' removed, (heapIfyDown (heap.withElements (init.set k last)) k last).map (fun heap => (heap, some x)) =
        some (heap', removed) ∧ RemovesFirst order matchFunc key heap heap' removed) ↔
      ∀ p y, Child p k → heap.vector.elements[p]? = some y → Above order y last := by
  constructor
  · rintro ⟨heap', removed, h, hremoves⟩
    obtain ⟨filled, hdown, h⟩ := Option.map_eq_some_iff.mp h
    obtain ⟨rfl, rfl⟩ := Prod.mk.inj h
    rw [helements]
    exact heapIfyDown_fits hcmp hsmall hlt hdown hremoves.ordered
  · intro habove
    rw [helements] at habove hordered
    obtain ⟨ys, hdown, hperm, hordered'⟩ := heapIfyDown_fills hcmp hsmall hordered hlt habove
    have hfilled : RemovesFirst order matchFunc key heap (heap.withElements ys) (some x) := by
      refine ⟨fun i y hfirst' => ?_, fun hmissing => ?_, hordered'⟩
      · obtain ⟨rfl, rfl⟩ := hfirst'.unique hfirst
        rw [helements]
        exact ⟨rfl, hperm.trans (set_perm_eraseIdx hlt last)⟩
      · exact absurd hfirst.2.1 (hmissing x (List.mem_of_getElem? hfirst.1))
    exact ⟨heap.withElements ys, some x, by rw [hdown]; rfl, hfilled⟩

/-- A size that does not fit into the `int`. -/
theorem heapRemove_large (hlarge : ¬ heap.vector.elements.length ≤ 2147483647) :
    heapRemove heap matchFunc key = none := by
  have hsize : vectorSize heap.vector = none := by
    unfold vectorSize Vector.pointer intMax
    rw [if_neg (by omega)]
  unfold heapRemove
  rw [hsize]
  rfl

/-- **When `HeapRemove` does it**, for a heap in order. -/
theorem heapRemove_removesFirst_iff (hcmp : heap.compareFunc = order.compare) (hne : heap.vector.elements ≠ [])
    (hordered : Ordered (Above order) heap.vector.elements) (matchFunc : α → κ → Int) (key : κ) :
    (∃ heap' removed, heapRemove heap matchFunc key = some (heap', removed) ∧
      RemovesFirst order matchFunc key heap heap' removed) ↔
    heap.vector.elements.length ≤ 2147483647 ∧ LastFits order matchFunc key heap.vector.elements := by
  obtain ⟨init, last, helements⟩ := (List.eq_nil_or_concat heap.vector.elements).resolve_left hne
  rw [List.concat_eq_append] at helements
  have hlength : heap.vector.elements.length = init.length + 1 := by
    rw [helements, List.length_append, List.length_singleton]
  have hlast : heap.vector.elements.getLast? = some last := by
    rw [helements, List.getLast?_concat]
  by_cases hsmall : heap.vector.elements.length ≤ 2147483647
  · rw [and_iff_right hsmall]
    obtain ⟨at_, x, hstop, hx, hpassed, heq⟩ := heapRemove_eq helements (by omega) matchFunc key
    have hlt := (List.getElem?_eq_some_iff.mp hx).1
    rw [heq]
    by_cases hmatch : matchFunc x key = 0
    · have hfirst : FirstMatch matchFunc key heap.vector.elements at_ x := ⟨hx, hmatch, hpassed⟩
      have hfits : LastFits order matchFunc key heap.vector.elements ↔ at_ + 1 ≠ heap.vector.elements.length ∧
          ∀ p y, Child p at_ → heap.vector.elements[p]? = some y → Above order y last := by
        refine ⟨fun h => h at_ x last hfirst hlast, fun h i y last' hfirst' hlast' => ?_⟩
        obtain ⟨rfl, rfl⟩ := hfirst'.unique hfirst
        obtain rfl := Option.some.inj (hlast.symm.trans hlast')
        exact h
      rw [hfits]
      by_cases hend : at_ = init.length
      · -- the last element matches, and stays
        rw [if_pos hend]
        refine iff_of_false ?_ fun h => h.1 (by omega)
        rintro ⟨heap', removed, h, hremoves⟩
        obtain ⟨-, rfl⟩ := Prod.mk.inj (Option.some.inj h)
        cases (hremoves.found at_ x hfirst).1
      · have hinner : at_ + 1 ≠ heap.vector.elements.length := by omega
        rw [if_neg hend, and_iff_right hinner]
        exact heapIfyDown_removesFirst_iff hcmp helements (by omega) hordered (by omega) hfirst
    · -- nothing matches, up to the last element
      have hend := hstop.resolve_right hmatch
      have hmissing : ∀ i y, ¬ FirstMatch matchFunc key heap.vector.elements i y := by
        rintro i y ⟨hy, hymatch, -⟩
        have hilt := (List.getElem?_eq_some_iff.mp hy).1
        rcases Nat.lt_or_eq_of_le (show i ≤ at_ by omega) with hi | rfl
        · exact hpassed i y hi hy hymatch
        · obtain rfl := Option.some.inj (hx.symm.trans hy)
          exact hmatch hymatch
      rw [if_pos hend]
      refine iff_of_true ?_ fun i y _ hfirst => absurd hfirst (hmissing i y)
      exact ⟨heap, none, rfl, fun i y hfirst => absurd hfirst (hmissing i y), fun _ => ⟨rfl, rfl⟩, hordered⟩
  · refine iff_of_false ?_ fun h => hsmall h.1
    rintro ⟨heap', removed, h, -⟩
    rw [heapRemove_large hsmall] at h
    cases h

/-- A heap whose last element is moved under one that is less. -/
def uneven : Heap Int := ⟨⟨[10, 5, 9, 4, 3, 8, 7], 7⟩, fun x y => x - y⟩

theorem uneven_ordered : Ordered (Above .byDifference) uneven.vector.elements := by
  have hall : ∀ c : Fin 7, 0 < c.val →
      uneven.vector.elements.getD c.val 0 ≤ uneven.vector.elements.getD ((c.val - 1) / 2) 0 := by decide
  intro p c hpc x y hx hy
  have hle := hall ⟨c, (List.getElem?_eq_some_iff.mp hy).1⟩ (Nat.zero_lt_of_lt hpc.lt)
  simp only [hpc.parent, List.getD_eq_getElem?_getD, hx, hy, Option.getD_some] at hle
  exact Int.sub_nonneg_of_le hle

/-- 4 comes out, and 7 stands under 5; the single element 5 stays. -/
theorem heapRemove_misses :
    Ordered (Above .byDifference) uneven.vector.elements ∧
    (¬ ∃ heap' removed, heapRemove uneven (fun x key => x - key) 4 = some (heap', removed) ∧
      RemovesFirst .byDifference (fun x key => x - key) 4 uneven heap' removed) ∧
    ¬ ∃ heap' removed, heapRemove ⟨⟨[5], 7⟩, fun x y => x - y⟩ (fun x key => x - key) 5 = some (heap', removed) ∧
      RemovesFirst .byDifference (fun x key => x - key) (5 : Int) ⟨⟨[5], 7⟩, fun x y => x - y⟩ heap' removed := by
  refine ⟨uneven_ordered, ?_, ?_⟩
  · rintro ⟨heap', removed, h, hremoves⟩
    have hresult : heapRemove uneven (fun x key => x - key) 4 =
        some (uneven.withElements [10, 5, 9, 7, 3, 8], some 4) := by rfl
    rw [hresult] at h
    obtain ⟨rfl, rfl⟩ := Prod.mk.inj (Option.some.inj h)
    have hstands : Above .byDifference (5 : Int) 7 := hremoves.ordered 1 3 (.inl rfl) 5 7 rfl rfl
    exact absurd hstands (by unfold Above; decide)
  · rintro ⟨heap', removed, h, hremoves⟩
    have hresult : heapRemove ⟨⟨[5], 7⟩, fun x y => x - y⟩ (fun x key => x - key) (5 : Int) =
        some (⟨⟨[5], 7⟩, fun x y => x - y⟩, none) := by rfl
    rw [hresult] at h
    obtain ⟨rfl, rfl⟩ := Prod.mk.inj (Option.some.inj h)
    cases (hremoves.found 0 5 ⟨rfl, rfl, fun j _ hj => absurd hj (Nat.not_lt_zero j)⟩).1

/-- The root of two elements comes out. -/
theorem heapRemove_removesFirst_iff_pair :
    (∃ heap' removed, heapRemove ⟨⟨[5, 3], 7⟩, fun x y => x - y⟩ (fun x key => x - key) 5 = some (heap', removed) ∧
      RemovesFirst .byDifference (fun x key => x - key) (5 : Int) ⟨⟨[5, 3], 7⟩, fun x y => x - y⟩ heap' removed) ↔
    2 ≤ 2147483647 ∧ LastFits .byDifference (fun x key => x - key) (5 : Int) [5, 3] := by
  have hordered : Ordered (Above .byDifference) [(5 : Int), 3] := by
    rintro p c (rfl | rfl) x y hx hy
    · rcases p with - | p
      · obtain rfl := Option.some.inj hx
        obtain rfl := Option.some.inj hy
        show (0 : Int) ≤ 5 - 3
        decide
      · cases hy
    · cases hy
  exact @heapRemove_removesFirst_iff Int Int ⟨⟨[5, 3], 7⟩, fun x y => x - y⟩ .byDifference rfl (List.cons_ne_nil 5 [3])
    hordered _ 5

end Workbench.HeapQueue
