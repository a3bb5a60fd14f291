import Mathlib.Data.Fintype.Card
import Workbench.Heap.DynamicVector
import Workbench.Knight.Moves
import Workbench.Lib.PathCover

/-!
# `Knight.BackTracking` — `WalkThrowChessBackTracking`

The set of visited squares goes down the recursion by value, and the path is in one vector. The vector has room for the
squares that are left.

## Contents
* `tryMoves`, `walkThrowChessBackTracking` — the loop over the moves, and the recursion;
* `Answers` — a path, or none;
* `tryMoves_answers`, `walk_answers` — the loop and the recursion answer;
* `backTracking_iff` — the main result.
-/

namespace Workbench.Knight

open DynamicVector (vectorPushBack vectorPopBack Holds Room)

/-- The squares so far. -/
abbrev Path := DynamicVector.Vector Int

/-- The loop over the moves. `walk` is the recursive call. -/
def tryMoves (walk : Path → Int → Option (Path × BitArray)) (lut : Lut) (isVisited : BitArray) (index : Int) :
    List (Fin 8) → Path → Option (Path × BitArray)
  | [], vector => some (vectorPopBack vector, 0)
  | i :: is, vector => do
      let nextMove ← readLut lut i.castSucc index
      let skipped ← if nextMove ≠ 0 then bitsArrGetVal isVisited (index + nextMove + 1) else some true
      if skipped then
        tryMoves walk lut isVisited index is vector
      else do
        let (vector, result) ← walk vector (index + nextMove)
        if result = allBitsOn then return (vector, allBitsOn)
        else tryMoves walk lut isVisited index is vector

def walkThrowChessBackTracking (lut : Lut) : Nat → Path → BitArray → Int → Option (Path × BitArray)
  | 0, _, _, _ => none
  | fuel + 1, vector, isVisited, index => do
      let isVisited ← bitsArrSetBit isVisited (index + 1) 1
      let (vector, _) ← vectorPushBack vector index .block
      if isVisited = allBitsOn then return (vector, allBitsOn)
      else
        tryMoves (fun vector index => walkThrowChessBackTracking lut fuel vector isVisited index) lut isVisited index
          (List.finRange 8) vector

/-! ## The squares that are left -/

variable {isVisited : BitArray} {p q : Square} {vector : Path} {xs : List Int} {counters : Square → Int}

/-- How many squares are left. -/
def squaresLeft (isVisited : BitArray) : Nat := (Finset.univ.filter fun q => ¬ Visited isVisited q).card

theorem squaresLeft_visit (hp : ¬ Visited isVisited p) :
    squaresLeft (visit isVisited p) + 1 = squaresLeft isVisited := by
  have herase : (Finset.univ.filter fun q => ¬ Visited (visit isVisited p) q) =
      (Finset.univ.filter fun q => ¬ Visited isVisited q).erase p := by
    ext q
    rw [Finset.mem_erase, Finset.mem_filter, Finset.mem_filter, visited_visit, not_or]
    exact ⟨fun h => ⟨h.2.1, h.1, h.2.2⟩, fun h => ⟨h.2.1, h.1, h.2.2⟩⟩
  rw [squaresLeft, herase]
  exact Finset.card_erase_add_one (Finset.mem_filter.mpr ⟨Finset.mem_univ p, hp⟩)

theorem squaresLeft_le (isVisited : BitArray) : squaresLeft isVisited ≤ 64 := Finset.card_le_univ _

/-- **The knight visits each square that is left, once.** -/
abbrev KnightPath (isVisited : BitArray) (start : Square) (path : List Square) : Prop :=
  Covers KnightMove (fun q => ¬ Visited isVisited q) start path

theorem rest_eq (isVisited : BitArray) (p : Square) :
    (fun q => ¬ Visited (visit isVisited p) q) = fun q => ¬ Visited isVisited q ∧ q ≠ p := by
  funext q
  rw [visited_visit, not_or]
  exact propext and_comm

/-- The squares as they are pushed. -/
def indices (path : List Square) : List Int := path.map fun p => (p.val : Int)

/-- **There is a path**, and it is at the end of the vector; or there is none, and the vector is the old one. -/
def Answers (isVisited : BitArray) (start : Square) (xs : List Int) (result : Path × BitArray) : Prop :=
  (result.2 = allBitsOn ∧ ∃ path, KnightPath isVisited start path ∧ Holds result.1 (xs ++ indices path)) ∨
    (result.2 = 0 ∧ (¬ ∃ path, KnightPath isVisited start path) ∧ Room result.1 xs (squaresLeft isVisited))

/-! ## The search -/

/-- A cell that is not 0 is a move to a square. -/
theorem exists_target (counters : Square → Int) (i : Fin 8) (p : Square)
    (h : withCounters counters i.castSucc p ≠ 0) :
    ∃ q : Square, (p.val : Int) + withCounters counters i.castSucc p = q.val ∧ KnightMove p q := by
  rw [withCounters_eq] at h ⊢
  by_cases hlegit : legit p i = true
  · rw [if_pos hlegit]
    exact exists_square hlegit
  · rw [if_neg hlegit] at h
    exact absurd rfl h

/-- The loop has found a path from a neighbour, or there is none from the neighbours in the list, and the last square is
    popped. -/
def Tried (counters : Square → Int) (isVisited : BitArray) (p : Square) (is : List (Fin 8)) (xs : List Int)
    (result : Path × BitArray) : Prop :=
  (result.2 = allBitsOn ∧ ∃ q path, KnightMove p q ∧ KnightPath isVisited q path ∧
    Holds result.1 (xs ++ indices path)) ∨
  (result.2 = 0 ∧ (∀ i ∈ is, ∀ q : Square, withCounters counters i.castSucc p ≠ 0 →
      (p.val : Int) + withCounters counters i.castSucc p = q.val → ¬ ∃ path, KnightPath isVisited q path) ∧
    ∃ vector, Room vector xs (squaresLeft isVisited) ∧ result.1 = vectorPopBack vector)

/-- A move that leads to no path: the loop goes on. -/
theorem Tried.skip {i : Fin 8} {is : List (Fin 8)} {result : Path × BitArray}
    (hnone : ∀ q : Square, withCounters counters i.castSucc p ≠ 0 →
      (p.val : Int) + withCounters counters i.castSucc p = q.val → ¬ ∃ path, KnightPath isVisited q path)
    (h : Tried counters isVisited p is xs result) : Tried counters isVisited p (i :: is) xs result := by
  rcases h with hfound | ⟨hzero, hrest, hpopped⟩
  · exact .inl hfound
  · refine .inr ⟨hzero, fun j hj => ?_, hpopped⟩
    rcases List.mem_cons.mp hj with rfl | hj
    · exact hnone
    · exact hrest j hj

/-- **The loop answers**, if the recursive calls do. -/
theorem tryMoves_answers {walk : Path → Int → Option (Path × BitArray)}
    (hwalk : ∀ vector (q : Square), ¬ Visited isVisited q → Room vector xs (squaresLeft isVisited) →
      ∃ result, walk vector q.val = some result ∧ Answers isVisited q xs result)
    (is : List (Fin 8)) (hroom : Room vector xs (squaresLeft isVisited)) :
    ∃ result, tryMoves walk (withCounters counters) isVisited p.val is vector = some result ∧
      Tried counters isVisited p is xs result := by
  induction is generalizing vector with
  | nil => exact ⟨_, rfl, .inr ⟨rfl, nofun, vector, hroom, rfl⟩⟩
  | cons i is ih =>
      rw [tryMoves, readLut_square]
      simp only [Option.bind_eq_bind, Option.bind_some]
      by_cases hmove : withCounters counters i.castSucc p = 0
      · rw [if_neg (not_not.mpr hmove), if_pos trivial]
        obtain ⟨result, htry, htried⟩ := ih hroom
        exact ⟨result, htry, htried.skip fun q hne => absurd hmove hne⟩
      · obtain ⟨q, hq, hknight⟩ := exists_target counters i p hmove
        rw [if_pos hmove, hq, bitsArrGetVal_square, Option.bind_some]
        have honly : ∀ q' : Square, (p.val : Int) + withCounters counters i.castSucc p = q'.val → q' = q :=
          fun q' hq' => val_inj (hq.symm.trans hq')
        by_cases hvisited : Visited isVisited q
        · rw [if_pos (decide_eq_true hvisited)]
          obtain ⟨result, htry, htried⟩ := ih hroom
          refine ⟨result, htry, htried.skip fun q' _ hq' => ?_⟩
          rintro ⟨path, hpath⟩
          exact hpath.free_start (honly q' hq' ▸ hvisited)
        · rw [if_neg (by simpa using hvisited)]
          obtain ⟨⟨vector', n⟩, hcall, hanswers⟩ := hwalk vector q hvisited hroom
          rw [hcall, Option.bind_some]
          rcases hanswers with ⟨hon, path, hpath, hholds⟩ | ⟨hzero, hnone, hroom'⟩
          · dsimp only at hon
            subst hon
            rw [if_pos rfl]
            exact ⟨_, rfl, .inl ⟨rfl, q, path, hknight, hpath, hholds⟩⟩
          · dsimp only at hzero
            subst hzero
            have hoff : (0 : BitArray) ≠ allBitsOn := by decide
            rw [if_neg hoff]
            obtain ⟨result, htry, htried⟩ := ih hroom'
            exact ⟨result, htry, htried.skip fun q' _ hq' => honly q' hq' ▸ hnone⟩

/-- **The search answers**, with fuel for the squares that are left. -/
theorem walk_answers (counters : Square → Int) (fuel : Nat) (hp : ¬ Visited isVisited p)
    (hfuel : squaresLeft isVisited ≤ fuel) (hroom : Room vector xs (squaresLeft isVisited)) :
    ∃ result, walkThrowChessBackTracking (withCounters counters) fuel vector isVisited p.val = some result ∧
      Answers isVisited p xs result := by
  induction fuel generalizing vector isVisited p xs with
  | zero =>
      have hleft := squaresLeft_visit hp
      omega
  | succ fuel ih =>
      have hleft := squaresLeft_visit hp
      rw [← hleft] at hroom
      obtain ⟨vector₁, hpush, hroom₁⟩ := hroom.pushBack (p.val : Int) .block
      rw [walkThrowChessBackTracking, bitsArrSetBit_square]
      simp only [Option.bind_eq_bind, Option.bind_some, hpush]
      by_cases hall : visit isVisited p = allBitsOn
      · rw [if_pos hall]
        refine ⟨_, rfl, .inl ⟨rfl, [p], covers_singleton fun q => ?_, hroom₁.holds⟩⟩
        have hq := (visited_visit isVisited p q).mp (eq_allBitsOn_iff.mp hall q)
        exact ⟨hq.resolve_right, fun heq => heq ▸ hp⟩
      · rw [if_neg hall]
        have hmore : ∃ q, ¬ Visited isVisited q ∧ q ≠ p := by
          obtain ⟨q, hq⟩ := not_forall.mp (mt eq_allBitsOn_iff.mpr hall)
          rw [visited_visit, not_or] at hq
          exact ⟨q, hq.2, hq.1⟩
        obtain ⟨result, htry, htried⟩ := @tryMoves_answers (visit isVisited p) p vector₁ _ counters
          (fun vector index =>
            walkThrowChessBackTracking (withCounters counters) fuel vector (visit isVisited p) index)
          (fun vector q hq hroom => ih hq (by omega) hroom) (List.finRange 8) hroom₁
        refine ⟨result, htry, ?_⟩
        rcases htried with ⟨hon, q, path, hknight, hpath, hholds⟩ | ⟨hzero, hnone, vector₂, hroom₂, hpopped⟩
        · refine .inl ⟨hon, p :: path, ?_, ?_⟩
          · rw [KnightPath, rest_eq] at hpath
            exact hpath.cons hp hknight
          · rw [List.append_assoc] at hholds
            exact hholds
        · refine .inr ⟨hzero, ?_, ?_⟩
          · rw [@exists_covers_iff Square KnightMove (fun q => ¬ Visited isVisited q) p hp hmore, ← rest_eq]
            rintro ⟨q, hknight, hpath⟩
            obtain ⟨i, hne, heq⟩ := (exists_move_iff counters p q).mpr hknight
            exact hnone i (List.mem_finRange i) q hne heq hpath
          · rw [hpopped, ← hleft]
            exact hroom₂.popBack

/-- **The search is sound and complete**: it ends, it finds a path exactly if there is one, and the vector is the old
    one with such a path, or the old one. -/
theorem backTracking_iff (counters : Square → Int) (isVisited : BitArray) (start : Square)
    (hstart : ¬ Visited isVisited start) (hroom : Room vector xs 64) {fuel : Nat} (hfuel : 64 ≤ fuel) :
    ∃ vector' result,
      walkThrowChessBackTracking (withCounters counters) fuel vector isVisited start.val = some (vector', result) ∧
        (result = allBitsOn ↔ ∃ path, KnightPath isVisited start path) ∧
        (result = allBitsOn → ∃ path, KnightPath isVisited start path ∧ Holds vector' (xs ++ indices path)) ∧
        (result ≠ allBitsOn → result = 0) ∧ (result = 0 → Holds vector' xs) := by
  have hleft := squaresLeft_le isVisited
  have hoff : (0 : BitArray) ≠ allBitsOn := by decide
  have hint := hroom.int
  have hroom' : Room vector xs (squaresLeft isVisited) := ⟨hroom.holds, hroom.array, hroom.capacity, by omega⟩
  obtain ⟨⟨vector', result⟩, hwalk, hanswers⟩ := walk_answers counters fuel hstart (hleft.trans hfuel) hroom'
  refine ⟨vector', result, hwalk, ?_⟩
  rcases hanswers with ⟨hon, path, hpath, hholds⟩ | ⟨hzero, hnone, hroom''⟩
  · dsimp only at hon
    subst hon
    exact ⟨iff_of_true rfl ⟨path, hpath⟩, fun _ => ⟨path, hpath, hholds⟩, fun h => absurd rfl h,
      fun h => absurd h.symm hoff⟩
  · dsimp only at hzero
    subst hzero
    exact ⟨iff_of_false hoff hnone, fun h => absurd h hoff, fun _ => rfl, fun _ => hroom''.holds⟩

/-- A vector for 10 squares. -/
def newPath : Path := ⟨some (List.replicate 10 none), 10, -1⟩

theorem newPath_room : Room newPath [] 64 :=
  ⟨.create (show 10 < DynamicVector.sizeRange by decide) rfl, ⟨_, rfl, by decide⟩, by decide, by decide⟩

/-- Only two squares are left. -/
theorem backTracking_sample :
    ∃ vector' result, walkThrowChessBackTracking (withCounters fun _ => 0) 64 newPath 0xFFFFFFFFFFFDFFFE 0 =
        some (vector', result) ∧ result = allBitsOn := by
  obtain ⟨vector', result, hwalk, hiff, -⟩ :=
    backTracking_iff (fun _ => 0) 0xFFFFFFFFFFFDFFFE 0 (by decide) newPath_room (Nat.le_refl 64)
  refine ⟨vector', result, hwalk, hiff.mpr ⟨[0, 17], rfl, ?_, by decide, by decide⟩⟩
  exact List.isChain_pair.mpr (.inr ⟨rfl, rfl⟩)

end Workbench.Knight
