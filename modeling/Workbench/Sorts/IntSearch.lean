import Mathlib.Data.Int.Order.Basic
import Workbench.Lib.StableSort
import Workbench.Lib.Strided
import Workbench.Lib.While

/-!
# `Sorts.IntSearch` — `IterativeBinarySearch` and `IsFound`

Three cursors, which are pointers to the elements. After a move to the right the middle is computed from the old middle,
and is in front of the part then if the part is small. With two elements left and the number between them, the search
does not move any more.

## Main results
* `isFound_eq` — what one call does;
* `search_present`, `search_absent` — the searches that end;
* `search_loops` — the ones that do not;
* `iterativeBinarySearch_iff` — when the result is right.
-/

namespace Workbench.Sorts

/-! ## The functions -/

inductive Result
  | found
  | notInTheRange
  | leftSideOfMid
  | rightSideOfMid
  deriving DecidableEq

/-- The cursors, and where the number is. -/
structure Cursors where
  first : Int
  mid : Int
  last : Int
  whereFound : Option Int

/-- A move to the left. Distances of pointers are divided towards 0. -/
def Cursors.toLeft (s : Cursors) : Cursors :=
  { s with last := s.mid - 1, mid := s.mid - 1 - (s.mid - 1 - s.first).tdiv 2 }

/-- A move to the right. -/
def Cursors.toRight (s : Cursors) : Cursors :=
  { s with first := s.mid + 1, mid := s.mid + (s.last - (s.mid + 1)).tdiv 2 }

def isFound (arr : List Int) (num : Int) (s : Cursors) : Option (Cursors × Result) := do
  let first ← readCell arr s.first
  if first = num then return ({ s with whereFound := some s.first }, .found)
  let mid ← readCell arr s.mid
  if mid = num then return ({ s with whereFound := some s.mid }, .found)
  let last ← readCell arr s.last
  if last = num then return ({ s with whereFound := some s.last }, .found)
  if num < first ∨ num > last then return (s, .notInTheRange)
  if num < mid then return (s.toLeft, .leftSideOfMid)
  if num > mid then return (s.toRight, .rightSideOfMid)
  return (s, .found)

/-- The condition of the loop. -/
def goesOn (s : Cursors × Result) : Option Bool :=
  some ((decide (s.2 = .leftSideOfMid) || decide (s.2 = .rightSideOfMid)) && decide (s.2 ≠ .notInTheRange))

def iterativeBinarySearch (fuel : Nat) (arr : List Int) (length : Nat) (num : Int) : Option (Option Int) := do
  let (s, treg) ← whileDo goesOn (fun s => isFound arr num s.1) fuel
    (⟨0, (length / 2 : Nat), (length : Int) - 1, none⟩, .leftSideOfMid)
  return if treg = .found then s.whereFound else none

/-! ## One call -/

variable {arr : List Int} {num x y z : Int} {fuel i j : Nat} {s s' : Cursors} {treg : Result}

theorem isFound_eq (hx : readCell arr s.first = some x) (hy : readCell arr s.mid = some y)
    (hz : readCell arr s.last = some z) : isFound arr num s =
      if x = num then some ({ s with whereFound := some s.first }, .found)
      else if y = num then some ({ s with whereFound := some s.mid }, .found)
      else if z = num then some ({ s with whereFound := some s.last }, .found)
      else if num < x ∨ num > z then some (s, .notInTheRange)
      else if num < y then some (s.toLeft, .leftSideOfMid)
      else if num > y then some (s.toRight, .rightSideOfMid)
      else some (s, .found) := by
  rw [isFound, hx]
  show (if x = num then _ else _) = _
  split
  · rfl
  rw [hy]
  show (if y = num then _ else _) = _
  split
  · rfl
  rw [hz]
  show (if z = num then _ else _) = _
  split
  · rfl
  split
  · rfl
  split
  · rfl
  split <;> rfl

/-- **The cursors are inside of the array**, with the middle one right in front of the first one in a small part
    only. -/
structure Inside (arr : List Int) (s : Cursors) : Prop where
  first : 0 ≤ s.first
  order : s.first ≤ s.last
  last : s.last < arr.length
  mid : 0 ≤ s.mid ∧ s.first ≤ s.mid + 1 ∧ s.mid ≤ s.last
  small : s.mid < s.first → s.last ≤ s.first + 1

theorem readCell_inside {p : Int} (hp : 0 ≤ p) (hlt : p < arr.length) : ∃ x, readCell arr p = some x := by
  obtain ⟨i, rfl⟩ := Int.eq_ofNat_of_zero_le hp
  exact ⟨_, (readCell_natCast arr i).trans (List.getElem?_eq_getElem (Int.ofNat_lt.mp hlt))⟩

theorem Inside.reads (h : Inside arr s) : ∃ x y z, readCell arr s.first = some x ∧ readCell arr s.mid = some y ∧
    readCell arr s.last = some z := by
  have hfirst := h.first
  have horder := h.order
  have hlast := h.last
  have hmid := h.mid
  obtain ⟨x, hx⟩ := readCell_inside hfirst (show s.first < arr.length by omega)
  obtain ⟨y, hy⟩ := readCell_inside hmid.1 (show s.mid < arr.length by omega)
  obtain ⟨z, hz⟩ := readCell_inside (show 0 ≤ s.last by omega) hlast
  exact ⟨x, y, z, hx, hy, hz⟩

/-- In order, read through the cursors. -/
theorem readCell_le {p q : Int} (hsorted : arr.Pairwise (· ≤ ·)) (hpq : p ≤ q) (hx : readCell arr p = some x)
    (hy : readCell arr q = some y) : x ≤ y := by
  rw [readCell, Option.ite_none_right_eq_some] at hx hy
  obtain ⟨hp, hx⟩ := hx
  obtain ⟨hq, hy⟩ := hy
  obtain ⟨hi, rfl⟩ := List.getElem?_eq_some_iff.mp hx
  obtain ⟨hj, rfl⟩ := List.getElem?_eq_some_iff.mp hy
  rcases lt_or_eq_of_le hpq with hlt | rfl
  · exact List.pairwise_iff_getElem.mp hsorted _ _ hi hj (by omega)
  · exact le_refl _

/-- The number is where the cursors say. -/
def AtFound (arr : List Int) (num : Int) (s : Cursors) : Prop :=
  ∃ p, s.whereFound = some p ∧ readCell arr p = some num

theorem AtFound.mem (h : AtFound arr num s) : num ∈ arr := by
  obtain ⟨p, -, hp⟩ := h
  rw [readCell, Option.ite_none_right_eq_some] at hp
  exact List.mem_of_getElem? hp.2

/-- **What one call does**: it finds the number, it sees that the number is in front of the part or behind it, or it
    moves the cursors. -/
theorem isFound_cases (h : Inside arr s) (num : Int) :
    ∃ x y z, (readCell arr s.first = some x ∧ readCell arr s.mid = some y ∧ readCell arr s.last = some z) ∧
      ((∃ s', isFound arr num s = some (s', .found) ∧ AtFound arr num s') ∨
        (isFound arr num s = some (s, .notInTheRange) ∧ (num < x ∨ z < num)) ∨
        (isFound arr num s = some (s.toLeft, .leftSideOfMid) ∧ (x < num ∧ num < z) ∧ num < y) ∨
        isFound arr num s = some (s.toRight, .rightSideOfMid) ∧ (x < num ∧ num < z) ∧ y < num) := by
  obtain ⟨x, y, z, hx, hy, hz⟩ := h.reads
  refine ⟨x, y, z, ⟨hx, hy, hz⟩, ?_⟩
  rw [isFound_eq hx hy hz]
  by_cases hxnum : x = num
  · exact .inl ⟨_, if_pos hxnum, s.first, rfl, hxnum ▸ hx⟩
  by_cases hynum : y = num
  · exact .inl ⟨_, by rw [if_neg hxnum, if_pos hynum], s.mid, rfl, hynum ▸ hy⟩
  by_cases hznum : z = num
  · exact .inl ⟨_, by rw [if_neg hxnum, if_neg hynum, if_pos hznum], s.last, rfl, hznum ▸ hz⟩
  rw [if_neg hxnum, if_neg hynum, if_neg hznum]
  by_cases hrange : num < x ∨ num > z
  · exact .inr (.inl ⟨if_pos hrange, hrange⟩)
  have hin : x < num ∧ num < z := by omega
  rw [if_neg hrange]
  by_cases hlt : num < y
  · exact .inr (.inr (.inl ⟨if_pos hlt, hin, hlt⟩))
  · have hgt : num > y := by omega
    exact .inr (.inr (.inr ⟨by rw [if_neg hlt, if_pos hgt], hin, hgt⟩))

/-! ## The moves -/

theorem half_eq {d : Int} (hd : 0 ≤ d) : d.tdiv 2 = d / 2 := Int.tdiv_eq_ediv_of_nonneg hd

/-- To the left, from a greater element. -/
theorem Inside.toLeft (h : Inside arr s) (hmid : s.first < s.mid) : Inside arr s.toLeft := by
  obtain ⟨hfirst, horder, hlast, hmids, hsmall⟩ := h
  have hhalf := half_eq (show 0 ≤ s.mid - 1 - s.first by omega)
  refine ⟨hfirst, ?_, ?_, ?_, ?_⟩ <;> simp only [Cursors.toLeft, hhalf] <;> omega

/-- To the right, from a smaller element. -/
theorem Inside.toRight (h : Inside arr s) (hmid : s.mid < s.last) : Inside arr s.toRight := by
  obtain ⟨hfirst, horder, hlast, hmids, hsmall⟩ := h
  have hhalf := half_eq (show 0 ≤ s.last - (s.mid + 1) by omega)
  refine ⟨?_, ?_, ?_, ?_, ?_⟩ <;> simp only [Cursors.toRight, hhalf] <;> omega

/-- The start of the loop. -/
theorem inside_start (hpos : 1 ≤ arr.length) :
    Inside arr ⟨0, (arr.length / 2 : Nat), (arr.length : Int) - 1, none⟩ := by
  refine ⟨?_, ?_, ?_, ?_, ?_⟩ <;> simp only <;> omega

/-- How many turns are left at most. -/
def turns (s : Cursors × Result) : Nat :=
  if s.2 = .leftSideOfMid ∨ s.2 = .rightSideOfMid then (s.1.last - s.1.first + 1).toNat else 0

/-- **A search that makes its part smaller in each turn ends.** -/
theorem search_terminates (inv : Cursors → Prop) (out : Cursors → Result → Prop)
    (hends : ∀ s treg, out s treg → treg = .found ∨ treg = .notInTheRange)
    (hturn : ∀ s, inv s → s.first ≤ s.last ∧ ∃ s' treg, isFound arr num s = some (s', treg) ∧ (out s' treg ∨
      (treg = .leftSideOfMid ∨ treg = .rightSideOfMid) ∧ inv s' ∧ s'.first ≤ s'.last ∧
        s'.last - s'.first < s.last - s.first))
    (hinv : inv s) (hfuel : (s.last - s.first + 1).toNat < fuel) :
    ∃ s' treg, whileDo goesOn (fun s => isFound arr num s.1) fuel (s, .leftSideOfMid) = some (s', treg) ∧
      out s' treg := by
  let inv' : Cursors × Result → Prop := fun s =>
    out s.1 s.2 ∨ (s.2 = .leftSideOfMid ∨ s.2 = .rightSideOfMid) ∧ inv s.1
  have hturn' : ∀ s, inv' s → goesOn s = some false ∨ goesOn s = some true ∧
      ∃ s', isFound arr num s.1 = some s' ∧ inv' s' ∧ turns s' < turns s := by
    rintro ⟨s, treg⟩ (hout | ⟨hgoes, h⟩)
    · rcases hends s treg hout with rfl | rfl
      · exact .inl rfl
      · exact .inl rfl
    · have hgoesOn : goesOn (s, treg) = some true := by
        rcases hgoes with rfl | rfl
        · rfl
        · rfl
      obtain ⟨hle, s', treg', hstep, hor⟩ := hturn s h
      refine .inr ⟨hgoesOn, (s', treg'), hstep, hor.imp id fun ⟨hgoes', h', _⟩ => ⟨hgoes', h'⟩, ?_⟩
      have hnow : turns (s, treg) = (s.last - s.first + 1).toNat := if_pos hgoes
      rw [hnow]
      rcases hor with hout | ⟨hgoes', -, hle', hless⟩
      · have hzero : turns (s', treg') = 0 := by
          rcases hends s' treg' hout with rfl | rfl
          · rfl
          · rfl
        omega
      · have hnext : turns (s', treg') = (s'.last - s'.first + 1).toNat := if_pos hgoes'
        omega
  obtain ⟨⟨s', treg⟩, hloop, hinv', hend⟩ := whileDo_ends goesOn (fun s => isFound arr num s.1) inv' turns hturn'
    (s := (s, .leftSideOfMid)) (.inr ⟨.inl rfl, hinv⟩) hfuel
  refine ⟨s', treg, hloop, hinv'.resolve_right ?_⟩
  rintro ⟨rfl | rfl, -⟩
  · cases hend
  · cases hend

/-! ## A number that is there -/

/-- **A number of the array is found.** -/
theorem search_present (hsorted : arr.Pairwise (· ≤ ·)) (hpos : 1 ≤ arr.length) (hnum : num ∈ arr)
    (hfuel : arr.length < fuel) :
    ∃ s, whileDo goesOn (fun s => isFound arr num s.1) fuel
        (⟨0, (arr.length / 2 : Nat), (arr.length : Int) - 1, none⟩, .leftSideOfMid) = some (s, .found) ∧
      AtFound arr num s := by
  obtain ⟨i, hi, hget⟩ := List.getElem_of_mem hnum
  have hp : readCell arr i = some num := by rw [readCell_natCast, List.getElem?_eq_getElem hi, hget]
  let inv : Cursors → Prop := fun s => Inside arr s ∧ s.first ≤ i ∧ i ≤ s.last
  have hturn : ∀ s, inv s → s.first ≤ s.last ∧ ∃ s' treg, isFound arr num s = some (s', treg) ∧
      ((treg = .found ∧ AtFound arr num s') ∨ (treg = .leftSideOfMid ∨ treg = .rightSideOfMid) ∧ inv s' ∧
        s'.first ≤ s'.last ∧ s'.last - s'.first < s.last - s.first) := by
    rintro s ⟨h, hfi, hil⟩
    obtain ⟨x, y, z, ⟨hx, hy, hz⟩, hcases⟩ := isFound_cases h num
    have hfirst : x ≤ num := readCell_le hsorted hfi hx hp
    have hlast : num ≤ z := readCell_le hsorted hil hp hz
    refine ⟨h.order, ?_⟩
    rcases hcases with ⟨s', hstep, hfound⟩ | ⟨-, hrange⟩ | ⟨hstep, ⟨hxn, hnz⟩, hlt⟩ | ⟨hstep, ⟨hxn, hnz⟩, hgt⟩
    · exact ⟨s', .found, hstep, .inl ⟨rfl, hfound⟩⟩
    · omega
    · -- the number is in front of the middle
      have him : (i : Int) < s.mid := by
        by_contra hnot
        have hyn := readCell_le hsorted (Int.not_lt.mp hnot) hy hp
        omega
      have hinside := h.toLeft (Int.lt_of_le_of_lt hfi him)
      refine ⟨s.toLeft, .leftSideOfMid, hstep, .inr ⟨.inl rfl, ⟨hinside, hfi, ?_⟩, hinside.order, ?_⟩⟩
      · exact Int.le_sub_one_of_lt him
      · have hmid := h.mid.2.2
        show s.mid - 1 - s.first < s.last - s.first
        omega
    · have hmi : s.mid < i := by
        by_contra hnot
        have hny := readCell_le hsorted (Int.not_lt.mp hnot) hp hy
        omega
      have hinside := h.toRight (Int.lt_of_lt_of_le hmi hil)
      -- in a part that is small, the number would be the first element or the last one
      have hbig : s.first ≤ s.mid := by
        by_contra hnot
        have hsmall := h.small (Int.not_le.mp hnot)
        rcases Int.lt_or_eq_of_le hfi with hlt | heq
        · have hzn : z ≤ num := readCell_le hsorted (show s.last ≤ i by omega) hz hp
          omega
        · rw [heq, hp] at hx
          have heq' := Option.some.inj hx
          omega
      refine ⟨s.toRight, .rightSideOfMid, hstep, .inr ⟨.inr rfl, ⟨hinside, hmi, hil⟩, hinside.order, ?_⟩⟩
      show s.last - (s.mid + 1) < s.last - s.first
      omega
  obtain ⟨s, treg, hloop, rfl, hfound⟩ := search_terminates inv (fun s treg => treg = .found ∧ AtFound arr num s)
    (fun s treg h => .inl h.1) hturn ⟨inside_start hpos, Int.natCast_nonneg i, by simp only; omega⟩
    (show ((arr.length : Int) - 1 - 0 + 1).toNat < fuel by omega)
  exact ⟨s, hloop, hfound⟩

/-! ## A number that is not there -/

/-- How many elements are less than the number. -/
def less (arr : List Int) (num : Int) : Nat := arr.countP fun x => decide (x < num)

/-- **The search does not end**, with the middle so far behind the first element of a part, the last one so far, and so
    many elements of the part less than the number. -/
inductive Stuck : Int → Int → Int → Prop
  | two : Stuck (-1) 1 1
  | left {m d g : Int} (hg : 1 ≤ g) (hlt : g < m) (h : Stuck (m - 1 - (m - 1) / 2) (m - 1) g) : Stuck m d g
  | right {m d g : Int} (hlt : m + 1 < g) (hd : g ≤ d) (h : Stuck ((d - m - 1) / 2 - 1) (d - m - 1) (g - m - 1)) :
      Stuck m d g

/-- The number is between two elements of the part. -/
theorem Stuck.bounds {m d g : Int} (h : Stuck m d g) (hm : -1 ≤ m) (hmd : m ≤ d) : 1 ≤ g ∧ g ≤ d := by
  cases h with
  | two => omega
  | left hg hlt h => omega
  | right hlt hd h => omega

/-- The next part of a search that is stuck, to the left. -/
theorem Stuck.front {m d g : Int} (h : Stuck m d g) (hle : g ≤ m) : Stuck (m - 1 - (m - 1) / 2) (m - 1) g := by
  cases h with
  | two => omega
  | left hg hlt h => exact h
  | right hlt hd h => omega

/-- To the right, with two elements it is the same part. -/
theorem Stuck.back {m d g : Int} (h : Stuck m d g) (hlt : m < g) :
    Stuck ((d - m - 1) / 2 - 1) (d - m - 1) (g - m - 1) := by
  cases h with
  | two => exact .two
  | left hg hlt' h => omega
  | right hlt' hd h => exact h

theorem lt_iff_less (hsorted : arr.Pairwise (· ≤ ·)) {p : Int} (hx : readCell arr p = some x) :
    x < num ↔ p < less arr num := by
  rw [readCell, Option.ite_none_right_eq_some] at hx
  obtain ⟨hp, hx⟩ := hx
  have hcut := filter_append_filter_not (p := fun x => decide (x < num)) hsorted fun x y hxy hy =>
    decide_eq_true (Int.lt_of_le_of_lt hxy (of_decide_eq_true hy))
  have hless : less arr num = (arr.filter fun x => decide (x < num)).length := List.countP_eq_length_filter
  rw [← hcut] at hx
  rcases Nat.lt_or_ge p.toNat (less arr num) with hlt | hge
  · rw [List.getElem?_append_left (by omega)] at hx
    have hxn := of_decide_eq_true (List.mem_filter.mp (List.mem_of_getElem? hx)).2
    exact iff_of_true hxn (by omega)
  · rw [List.getElem?_append_right (by omega)] at hx
    have hxn := (List.mem_filter.mp (List.mem_of_getElem? hx)).2
    rw [← decide_not, decide_eq_true_iff] at hxn
    exact iff_of_false hxn (by omega)

/-- A part of the search: where its cursors are, and where the number is. -/
def StuckAt (arr : List Int) (num : Int) (s : Cursors) : Prop :=
  Stuck (s.mid - s.first) (s.last - s.first) (less arr num - s.first)

theorem stuckAt_toLeft (hmid : s.first < s.mid) :
    StuckAt arr num s.toLeft ↔
      Stuck (s.mid - s.first - 1 - (s.mid - s.first - 1) / 2) (s.mid - s.first - 1) (less arr num - s.first) := by
  have hhalf := half_eq (show 0 ≤ s.mid - 1 - s.first by omega)
  rw [StuckAt, Cursors.toLeft, hhalf, show s.mid - 1 - (s.mid - 1 - s.first) / 2 - s.first =
    s.mid - s.first - 1 - (s.mid - s.first - 1) / 2 by omega, show s.mid - 1 - s.first = s.mid - s.first - 1 by omega]

theorem stuckAt_toRight (hmid : s.mid < s.last) :
    StuckAt arr num s.toRight ↔
      Stuck ((s.last - s.first - (s.mid - s.first) - 1) / 2 - 1) (s.last - s.first - (s.mid - s.first) - 1)
        (less arr num - s.first - (s.mid - s.first) - 1) := by
  have hhalf := half_eq (show 0 ≤ s.last - (s.mid + 1) by omega)
  rw [StuckAt, Cursors.toRight, hhalf, show s.mid + (s.last - (s.mid + 1)) / 2 - (s.mid + 1) =
    (s.last - s.first - (s.mid - s.first) - 1) / 2 - 1 by omega,
    show s.last - (s.mid + 1) = s.last - s.first - (s.mid - s.first) - 1 by omega,
    show (less arr num : Int) - (s.mid + 1) = less arr num - s.first - (s.mid - s.first) - 1 by omega]

/-- **A number that is not there is not found**, if the search is not stuck. -/
theorem search_absent (hsorted : arr.Pairwise (· ≤ ·)) (hpos : 1 ≤ arr.length) (hnum : num ∉ arr)
    (hfree : ¬ Stuck (arr.length / 2 : Nat) ((arr.length : Int) - 1) (less arr num)) (hfuel : arr.length < fuel) :
    ∃ s, whileDo goesOn (fun s => isFound arr num s.1) fuel
      (⟨0, (arr.length / 2 : Nat), (arr.length : Int) - 1, none⟩, .leftSideOfMid) = some (s, .notInTheRange) := by
  let inv : Cursors → Prop := fun s => Inside arr s ∧ ¬ StuckAt arr num s
  have hturn : ∀ s, inv s → s.first ≤ s.last ∧ ∃ s' treg, isFound arr num s = some (s', treg) ∧
      (treg = .notInTheRange ∨ (treg = .leftSideOfMid ∨ treg = .rightSideOfMid) ∧ inv s' ∧ s'.first ≤ s'.last ∧
        s'.last - s'.first < s.last - s.first) := by
    rintro s ⟨h, hstuck⟩
    obtain ⟨x, y, z, ⟨hx, hy, hz⟩, hcases⟩ := isFound_cases h num
    have hsmall := h.small
    have hmids := h.mid
    have hxless : x < num ↔ s.first < less arr num := lt_iff_less hsorted hx
    have hyless : y < num ↔ s.mid < less arr num := lt_iff_less hsorted hy
    have hzless : z < num ↔ s.last < less arr num := lt_iff_less hsorted hz
    refine ⟨h.order, ?_⟩
    rcases hcases with ⟨s', -, hfound⟩ | ⟨hstep, -⟩ | ⟨hstep, ⟨hxn, hnz⟩, hlt⟩ | ⟨hstep, ⟨hxn, hnz⟩, hgt⟩
    · exact absurd hfound.mem hnum
    · exact ⟨s, .notInTheRange, hstep, .inl rfl⟩
    · have hfm : s.first < s.mid := by omega
      have hinside := h.toLeft hfm
      refine ⟨s.toLeft, .leftSideOfMid, hstep, .inr ⟨.inl rfl, ⟨hinside, fun hnext => hstuck ?_⟩, hinside.order, ?_⟩⟩
      · rw [stuckAt_toLeft hfm] at hnext
        have hbounds := hnext.bounds (by omega) (by omega)
        exact .left hbounds.1 (by omega) hnext
      · show s.mid - 1 - s.first < s.last - s.first
        omega
    · have hml : s.mid < s.last := by omega
      have hinside := h.toRight hml
      -- with two elements and the middle in front of them, the search would be stuck
      have hbig : s.first ≤ s.mid := by
        by_contra hnot
        refine hstuck ?_
        rw [StuckAt, show s.mid - s.first = -1 by omega, show s.last - s.first = 1 by omega,
          show (less arr num : Int) - s.first = 1 by omega]
        exact .two
      refine ⟨s.toRight, .rightSideOfMid, hstep, .inr ⟨.inr rfl, ⟨hinside, fun hnext => hstuck ?_⟩, hinside.order, ?_⟩⟩
      · rw [stuckAt_toRight hml] at hnext
        have hbounds := hnext.bounds (by omega) (by omega)
        exact .right (by omega) (by omega) hnext
      · show s.last - (s.mid + 1) < s.last - s.first
        omega
  have hstart : ¬ StuckAt arr num ⟨0, (arr.length / 2 : Nat), (arr.length : Int) - 1, none⟩ := by
    rwa [StuckAt, Int.sub_zero, Int.sub_zero, Int.sub_zero]
  obtain ⟨s, treg, hloop, rfl⟩ := search_terminates inv (fun _ treg => treg = .notInTheRange)
    (fun s treg h => .inr h) hturn ⟨inside_start hpos, hstart⟩
    (show ((arr.length : Int) - 1 - 0 + 1).toNat < fuel by omega)
  exact ⟨s, hloop⟩

/-- **A search that is stuck does not end.** -/
theorem search_loops (hsorted : arr.Pairwise (· ≤ ·)) (hpos : 1 ≤ arr.length) (hnum : num ∉ arr)
    (hstuck : Stuck (arr.length / 2 : Nat) ((arr.length : Int) - 1) (less arr num)) (fuel : Nat) :
    whileDo goesOn (fun s => isFound arr num s.1) fuel
      (⟨0, (arr.length / 2 : Nat), (arr.length : Int) - 1, none⟩, .leftSideOfMid) = none := by
  refine whileDo_stuck (fun s => goesOn s = some true ∧ Inside arr s.1 ∧ StuckAt arr num s.1) ?_
    ⟨rfl, inside_start hpos, by rwa [StuckAt, Int.sub_zero, Int.sub_zero, Int.sub_zero]⟩
  rintro ⟨s, treg⟩ ⟨hgoes, h, hstuck⟩
  have h : Inside arr s := h
  have hstuck : StuckAt arr num s := hstuck
  refine .inr ⟨hgoes, fun s' hs' => ?_⟩
  obtain ⟨x, y, z, ⟨hx, hy, hz⟩, hcases⟩ := isFound_cases h num
  have hmids := h.mid
  have hbounds := hstuck.bounds (by omega) (by omega)
  have hxless : x < num ↔ s.first < less arr num := lt_iff_less hsorted hx
  have hyless : y < num ↔ s.mid < less arr num := lt_iff_less hsorted hy
  have hzless : z < num ↔ s.last < less arr num := lt_iff_less hsorted hz
  rcases hcases with ⟨s', -, hfound⟩ | ⟨-, hrange⟩ | ⟨hstep, ⟨hxn, hnz⟩, hlt⟩ | ⟨hstep, ⟨hxn, hnz⟩, hgt⟩
  · exact absurd hfound.mem hnum
  · -- the number is between the first element and the last one
    rcases hrange with hlow | hhigh
    · omega
    · omega
  · obtain rfl := Option.some.inj (hstep.symm.trans hs')
    have hfm : s.first < s.mid := by omega
    exact ⟨rfl, h.toLeft hfm, (stuckAt_toLeft hfm).mpr (hstuck.front (by omega))⟩
  · obtain rfl := Option.some.inj (hstep.symm.trans hs')
    have hml : s.mid < s.last := by omega
    exact ⟨rfl, h.toRight hml, (stuckAt_toRight hml).mpr (hstuck.back (by omega))⟩

/-! ## All numbers -/

/-- **The search ends with the right result**: nowhere, and the number is not in the array, or where it is. -/
def SearchEnds (arr : List Int) (num : Int) : Prop :=
  ∃ least, ∀ fuel, least ≤ fuel → ∃ r, iterativeBinarySearch fuel arr arr.length num = some r ∧
    match r with
    | none => num ∉ arr
    | some p => readCell arr p = some num

/-- **The search ends with the right result if and only if** the number is in the array or the search is not stuck. -/
theorem iterativeBinarySearch_iff (hsorted : arr.Pairwise (· ≤ ·)) (hpos : 1 ≤ arr.length) :
    SearchEnds arr num ↔ num ∈ arr ∨ ¬ Stuck (arr.length / 2 : Nat) ((arr.length : Int) - 1) (less arr num) := by
  constructor
  · rintro ⟨least, hrun⟩
    by_contra hnot
    obtain ⟨hnum, hstuck⟩ := not_or.mp hnot
    obtain ⟨r, hr, -⟩ := hrun least (Nat.le_refl least)
    rw [iterativeBinarySearch, search_loops hsorted hpos hnum (not_not.mp hstuck)] at hr
    cases hr
  · intro hor
    refine ⟨arr.length + 1, fun fuel hfuel => ?_⟩
    by_cases hnum : num ∈ arr
    · obtain ⟨s, hloop, p, hp, hread⟩ := search_present hsorted hpos hnum (show arr.length < fuel by omega)
      refine ⟨some p, ?_, hread⟩
      rw [iterativeBinarySearch, hloop]
      exact congrArg some hp
    · obtain ⟨s, hloop⟩ := search_absent hsorted hpos hnum (hor.resolve_left hnum) (show arr.length < fuel by omega)
      refine ⟨none, ?_, hnum⟩
      rw [iterativeBinarySearch, hloop]
      rfl

/-- Four elements, with the number between the last two. -/
theorem iterativeBinarySearch_sample : SearchEnds [1, 2, 3, 5] 4 := by
  refine (iterativeBinarySearch_iff (by decide) (by decide)).mpr (.inr fun hstuck => ?_)
  have hback := hstuck.back (by decide)
  exact absurd (hback.bounds (by decide) (by decide)).1 (by decide)

/-- Five elements, with the number between the last two. -/
theorem iterativeBinarySearch_stuck : ¬ SearchEnds [1, 2, 3, 5, 7] 6 := by
  rintro ⟨least, hrun⟩
  obtain ⟨r, hr, -⟩ := hrun least (Nat.le_refl least)
  have hstuck : Stuck ([1, 2, 3, 5, 7].length / 2 : Nat) (([1, 2, 3, 5, 7].length : Int) - 1)
      (less [1, 2, 3, 5, 7] 6) := .right (by decide) (by decide) .two
  rw [iterativeBinarySearch, search_loops (by decide) (by decide) (by decide) hstuck] at hr
  cases hr

end Workbench.Sorts
